import Nibrunner.Guest.CronExecution
import Nibrunner.Guest.InstanceEnv

/-!
# The environment of a command in a guest

A guest runs the command of a job in an environment of its own: what every command has, then what
its tenant has, then what the request has, each name set anew by what comes later. So no name is
there twice (`nodup_environment`), and each has its last value (`named_environment`).
-/

namespace Nibrunner.CronExecution

open InstanceEnv TextLines

/-! ### Setting names -/

/-- A name's value is set: in its place, or behind the others. -/
def setEntry (name value : List Char) : Entries → Entries
  | [] => [(name, value)]
  | (key, previous) :: rest =>
    if key = name then (key, value) :: rest else (key, previous) :: setEntry name value rest

def setAll (entries overrides : Entries) : Entries :=
  overrides.foldl (fun entries entry => setEntry entry.1 entry.2 entries) entries

/-- The last value a name has among some entries. -/
def lastValue (entries : Entries) (name : List Char) : Option (List Char) :=
  named entries.reverse name

variable {entries : Entries}

theorem named_cons (entry : List Char × List Char) (entries : Entries) (key : List Char) :
    named (entry :: entries) key = if entry.1 = key then some entry.2 else named entries key := by
  rw [named, named, List.find?_cons]
  by_cases hkey : entry.1 = key
  · rw [if_pos hkey, decide_eq_true hkey]
    rfl
  · rw [if_neg hkey, decide_eq_false hkey]

theorem named_setEntry (name value : List Char) (entries : Entries) (key : List Char) :
    named (setEntry name value entries) key =
      if name = key then some value else named entries key := by
  induction entries with
  | nil => rw [setEntry, named_cons]
  | cons entry rest ih =>
    obtain ⟨first, previous⟩ := entry
    rw [setEntry]
    split
    · next hfirst =>
      rw [named_cons, named_cons]
      dsimp only
      rw [hfirst]
      split <;> rfl
    · next hfirst =>
      rw [named_cons, ih, named_cons]
      dsimp only
      by_cases hkey : first = key
      · rw [if_pos hkey, if_pos hkey, if_neg fun h => hfirst (hkey.trans h.symm)]
      · rw [if_neg hkey, if_neg hkey]

/-- Setting a name leaves the others where they are. -/
theorem fst_setEntry (name value : List Char) (entries : Entries) :
    (setEntry name value entries).map Prod.fst =
      if name ∈ entries.map Prod.fst then entries.map Prod.fst
      else entries.map Prod.fst ++ [name] := by
  induction entries with
  | nil => rfl
  | cons entry rest ih =>
    obtain ⟨first, previous⟩ := entry
    rw [setEntry]
    by_cases hfirst : first = name
    · rw [if_pos hfirst, List.map_cons, List.map_cons, if_pos (hfirst ▸ List.mem_cons_self)]
    · rw [if_neg hfirst, List.map_cons, List.map_cons, ih]
      by_cases hmem : name ∈ rest.map Prod.fst
      · rw [if_pos hmem, if_pos (List.mem_cons_of_mem _ hmem)]
      · rw [if_neg hmem, if_neg fun h => (List.mem_cons.mp h).elim (Ne.symm hfirst) hmem]
        rfl

theorem nodup_setAll (h : (entries.map Prod.fst).Nodup) (overrides : Entries) :
    ((setAll entries overrides).map Prod.fst).Nodup := by
  induction overrides generalizing entries with
  | nil => exact h
  | cons entry overrides ih =>
    refine ih ?_
    rw [fst_setEntry]
    split
    · exact h
    · next hnew =>
      refine List.nodup_append.mpr ⟨h, List.pairwise_singleton _ _, ?_⟩
      rintro key hkey _ hname rfl
      exact hnew (List.mem_singleton.mp hname ▸ hkey)

theorem lastValue_concat (entries : Entries) (entry : List Char × List Char) (key : List Char) :
    lastValue (entries ++ [entry]) key =
      if entry.1 = key then some entry.2 else lastValue entries key := by
  rw [lastValue, List.reverse_append, List.reverse_singleton, List.singleton_append, named_cons]
  rfl

/-- Each name has the last value it is set to, or the one it had. -/
theorem named_setAll (entries overrides : Entries) (key : List Char) :
    named (setAll entries overrides) key = (lastValue overrides key).or (named entries key) := by
  induction overrides using List.reverseRecOn with
  | nil => rfl
  | append_singleton overrides entry ih =>
    rw [setAll, List.foldl_append, List.foldl_cons, List.foldl_nil, named_setEntry,
      lastValue_concat]
    split
    · rfl
    · exact ih

theorem lastValue_append (a b : Entries) (key : List Char) :
    lastValue (a ++ b) key = (lastValue b key).or (lastValue a key) := by
  induction b using List.reverseRecOn with
  | nil =>
    rw [List.append_nil]
    rfl
  | append_singleton b entry ih =>
    rw [← List.append_assoc, lastValue_concat, lastValue_concat]
    split
    · rfl
    · exact ih

theorem named_eq_none {key : List Char} (h : key ∉ entries.map Prod.fst) :
    named entries key = none := by
  induction entries with
  | nil => rfl
  | cons entry entries ih =>
    rw [List.map_cons, List.mem_cons, not_or] at h
    rw [named_cons, if_neg (Ne.symm h.1)]
    exact ih h.2

/-- Where no name is there twice, its last value is its first. -/
theorem lastValue_of_nodup (h : (entries.map Prod.fst).Nodup) (key : List Char) :
    lastValue entries key = named entries key := by
  induction entries with
  | nil => rfl
  | cons entry entries ih =>
    rw [List.map_cons, List.nodup_cons] at h
    have hfirst : lastValue [entry] key = named [entry] key := rfl
    rw [← List.singleton_append, lastValue_append, ih h.2, hfirst, List.singleton_append,
      named_cons, named_cons]
    by_cases hkey : entry.1 = key
    · rw [if_pos hkey, if_pos hkey, named_eq_none (hkey ▸ h.1)]
      rfl
    · rw [if_neg hkey, if_neg hkey]
      exact Option.or_none

/-! ### The environment -/

/-- What the tenant's commands have: the platform's own variables, and those of the tenant that are
not of their names. -/
def tenantEnvironment (config : InstanceConfig) : Entries :=
  let owned := [(runtimeKey "HTTP_PORT", decimal config.httpPort),
    ("PORT".toList, decimal config.httpPort)] ++
      config.hostname.toList.map fun hostname => (runtimeKey "HOSTNAME", hostname)
  let platform := owned.map Prod.fst
  owned ++ config.environment.filter fun entry => !platform.contains entry.1

/-- What every command has. -/
def standard (config : InstanceConfig) : Entries :=
  [("HOME".toList, config.workingDirectory), ("TMPDIR".toList, "/tmp".toList),
    ("PATH".toList, "/usr/bin:/bin".toList)]

/-- The names and values of a request's entries. -/
def requestEntries (request : ExecutionRequest) : Entries :=
  request.environment.filterMap fun entry => splitOnce '=' entry.toList

def environment (config : InstanceConfig) (request : ExecutionRequest) : Entries :=
  setAll (standard config) (tenantEnvironment config ++ requestEntries request)

theorem nodup_environment (config : InstanceConfig) (request : ExecutionRequest) :
    ((environment config request).map Prod.fst).Nodup := by
  have hnames : (standard config).map Prod.fst =
      ["HOME".toList, "TMPDIR".toList, "PATH".toList] := rfl
  have hstandard : ((standard config).map Prod.fst).Nodup := by
    rw [hnames]
    decide
  exact nodup_setAll hstandard _

theorem named_environment (config : InstanceConfig) (request : ExecutionRequest)
    (name : List Char) : named (environment config request) name =
      (lastValue (requestEntries request) name).or
        ((lastValue (tenantEnvironment config) name).or (named (standard config) name)) := by
  rw [environment, named_setAll, lastValue_append, Option.or_assoc]

end Nibrunner.CronExecution
