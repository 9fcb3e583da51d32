import Nibrunner.Guest.Expansion

/-!
# What the host writes is what the guest reads

The lines of a file are read back as the entries they were written for (`readLines_entries`): a key
holds no equals sign and no value a line end, so no value can end its line or be taken for a key.
The runtime's keys differ from each other and from every argument's (`RuntimeKey.text_injective`),
so a lookup finds the value that was written under its key.

* `faithful`: a file that is read back is read as what it was written for, whatever the tenant
  called its variables and put in them.
* `readable_iff`: of a content whose delays fit 32 bits the file is read exactly when it has no
  more variables than a guest carries and refers to the hostname only where there is one.
* `not_always_read`: what the host accepts is not always read.
-/

namespace Nibrunner.InstanceEnv

open Checked TextLines

/-! ### The runtime's keys -/

inductive RuntimeKey where
  | httpPort
  | layers
  | program
  | cwd
  | hostname
  | maxRestarts
  | initialBackoffMs
  | maxBackoffMs
  | backoffFactor
  | resetAfterMs
  | dns
  | arg (index : ℕ)
deriving DecidableEq

namespace RuntimeKey

/-- What a key is called behind the prefix. -/
def name : RuntimeKey → List Char
  | httpPort => "HTTP_PORT".toList
  | layers => "LAYERS".toList
  | program => "PROGRAM".toList
  | cwd => "CWD".toList
  | hostname => "HOSTNAME".toList
  | maxRestarts => "MAX_RESTARTS".toList
  | initialBackoffMs => "INITIAL_BACKOFF_MS".toList
  | maxBackoffMs => "MAX_BACKOFF_MS".toList
  | backoffFactor => "BACKOFF_FACTOR".toList
  | resetAfterMs => "RESET_AFTER_MS".toList
  | dns => "DNS".toList
  | arg index => "ARG_".toList ++ decimal index

def text (key : RuntimeKey) : List Char := runtimePrefix ++ key.name

/-- The keys that are not an argument's. -/
def fixed : List RuntimeKey :=
  [httpPort, layers, program, cwd, hostname, maxRestarts, initialBackoffMs, maxBackoffMs,
    backoffFactor, resetAfterMs, dns]

theorem mem_fixed {key : RuntimeKey} (h : ∀ index, key ≠ arg index) : key ∈ fixed := by
  cases key with
  | arg index => exact absurd rfl (h index)
  | _ => decide

theorem name_ne_arg {key : RuntimeKey} (h : key ∈ fixed) : ¬"ARG_".toList <+: key.name := by
  have hall : ∀ key ∈ fixed, ¬"ARG_".toList <+: key.name := by decide
  exact hall key h

theorem name_injective : Function.Injective name := by
  intro k k' h
  have hfixed : ∀ k ∈ fixed, ∀ k' ∈ fixed, k.name = k'.name → k = k' := by decide
  by_cases hk : ∃ index, k = arg index
  · obtain ⟨index, rfl⟩ := hk
    by_cases hk' : ∃ index, k' = arg index
    · obtain ⟨index', rfl⟩ := hk'
      exact congrArg arg (decimal_injective (List.append_cancel_left h))
    · exact absurd (h ▸ List.prefix_append _ _) (name_ne_arg (mem_fixed (not_exists.mp hk')))
  · have hk := mem_fixed (not_exists.mp hk)
    by_cases hk' : ∃ index, k' = arg index
    · obtain ⟨index', rfl⟩ := hk'
      exact absurd (h ▸ List.prefix_append _ _) (name_ne_arg hk)
    · exact hfixed k hk k' (mem_fixed (not_exists.mp hk')) h

theorem text_injective : Function.Injective text := fun _ _ h =>
  name_injective (List.append_cancel_left h)

/-- A key is made of the characters of names. -/
theorem characters {key : RuntimeKey} {c : Char} (h : c ∈ key.text) :
    isNameCharacter c = true := by
  have hlead : runtimePrefix.all isNameCharacter = true := by decide
  have harg : "ARG_".toList.all isNameCharacter = true := by decide
  have hfixed : ∀ key ∈ fixed, key.name.all isNameCharacter = true := by decide
  rcases List.mem_append.mp h with h | h
  · exact List.all_eq_true.mp hlead c h
  · by_cases hkey : ∃ index, key = arg index
    · obtain ⟨index, rfl⟩ := hkey
      rcases List.mem_append.mp h with h | h
      · exact List.all_eq_true.mp harg c h
      · rw [isNameCharacter, Char.isAlphanum, isDigit_of_mem_decimal h, Bool.or_true, Bool.true_or]
    · exact List.all_eq_true.mp (hfixed key (mem_fixed (not_exists.mp hkey))) c h

end RuntimeKey

/-! ### The entries of a file -/

/-- The runtime's entries, by the keys they are for. -/
abbrev Keyed := List (RuntimeKey × List Char)

def Keyed.entries (keyed : Keyed) : Entries := keyed.map fun entry => (entry.1.text, entry.2)

/-- The value of a key. -/
def Keyed.get (keyed : Keyed) (key : RuntimeKey) : Option (List Char) :=
  (keyed.find? fun entry => entry.1 = key).map Prod.snd

/-- A lookup by a key's text is a lookup by the key. -/
theorem named_entries (keyed : Keyed) (key : RuntimeKey) :
    named keyed.entries key.text = keyed.get key := by
  rw [named, Keyed.entries, Keyed.get, List.find?_map, Option.map_map]
  have hsame : (keyed.find? ((fun entry : List Char × List Char => entry.1 = key.text) ∘
      fun entry : RuntimeKey × List Char => (entry.1.text, entry.2))) =
        keyed.find? fun entry => entry.1 = key :=
    List.find?_congr fun entry _ =>
      decide_eq_decide.mpr ⟨fun h => RuntimeKey.text_injective h, congrArg RuntimeKey.text⟩
  rw [hsame]
  rfl

/-- The arguments under their keys, from an index on. -/
def keyedArguments : ℕ → List String → Keyed
  | _, [] => []
  | index, argument :: arguments =>
    (.arg index, argument.toList) :: keyedArguments (index + 1) arguments

/-- The entries every file has. -/
def keyedFixed (floats : FloatText) (content : InstanceEnvContent) : Keyed :=
  let policy := content.restartPolicy
  [(.httpPort, decimal content.httpPort.port),
    (.layers, decimal content.layers),
    (.program, content.program.text.toList),
    (.cwd, content.workingDirectory.text.toList)] ++
  (platformHostname content.hostnames).toList.map
    (fun hostname => (.hostname, hostname.text.toList)) ++
  [(.maxRestarts, decimal policy.maxRestarts),
    (.initialBackoffMs, decimal policy.initialBackoffMs),
    (.maxBackoffMs, decimal policy.maxBackoffMs),
    (.backoffFactor, floats.jsNumber policy.backoffFactor),
    (.resetAfterMs, decimal policy.resetAfterMs),
    (.dns, [','].intercalate dnsServers)]

/-- The runtime's entries of a content. -/
def keyed (floats : FloatText) (content : InstanceEnvContent) : Keyed :=
  keyedFixed floats content ++ keyedArguments 0 content.args.list

/-- The tenant's entries of a content. -/
def tenantEntries (content : InstanceEnvContent) : Entries :=
  content.environment.entries.map fun entry => (entry.1.toList, entry.2.text.toList)

theorem runtimeLines_eq (floats : FloatText) (content : InstanceEnvContent) :
    runtimeLines floats content =
      (keyedFixed floats content).map fun entry => line entry.1.text entry.2 := by
  rw [runtimeLines, keyedFixed]
  cases platformHostname content.hostnames <;> rfl

theorem argumentLines_cons (index : ℕ) (argument : String) (arguments : List String) :
    argumentLines index (argument :: arguments) =
      if hasForbiddenCharacter argument.toList then .error ⟨argumentKey index⟩
      else (argumentLines (index + 1) arguments).map
        (line (argumentKey index) argument.toList :: ·) := by
  rw [argumentLines]
  split
  · rfl
  · cases argumentLines (index + 1) arguments <;> rfl

theorem environmentLines_cons (name : String) (value : TenantValue)
    (entries : List (String × TenantValue)) :
    environmentLines ((name, value) :: entries) =
      if hasForbiddenCharacter value.text.toList then .error ⟨name.toList⟩
      else (environmentLines entries).map
        (line (tenantPrefix ++ name.toList) value.text.toList :: ·) := by
  rw [environmentLines]
  split
  · rfl
  · cases environmentLines entries <;> rfl

theorem map_cons_eq_ok_iff {ε α : Type} {x : Except ε (List α)} {a : α} {l : List α} :
    x.map (a :: ·) = .ok l ↔ ∃ rest, x = .ok rest ∧ l = a :: rest := by
  cases x with
  | error e => simp [Except.map]
  | ok rest => simp [Except.map, eq_comm]

/-- The lines behind the first, where they come to `ls` if what they hold is right. -/
theorem map_cons_eq_ok_iff_of_iff {ε α : Type} {x : Except ε (List α)} {P : Prop} {a : α}
    {l ls : List α} (h : ∀ rest, x = .ok rest ↔ P ∧ rest = l) :
    x.map (a :: ·) = .ok ls ↔ P ∧ ls = a :: l := by
  rw [map_cons_eq_ok_iff]
  constructor
  · rintro ⟨rest, hrest, rfl⟩
    obtain ⟨hP, rfl⟩ := (h rest).mp hrest
    exact ⟨hP, rfl⟩
  · rintro ⟨hP, rfl⟩
    exact ⟨l, (h l).mpr ⟨hP, rfl⟩, rfl⟩

theorem argumentLines_eq_ok_iff {index : ℕ} {arguments : List String} {ls : List (List Char)} :
    argumentLines index arguments = .ok ls ↔
      (∀ argument ∈ arguments, hasForbiddenCharacter argument.toList = false) ∧
        ls = (keyedArguments index arguments).map fun entry => line entry.1.text entry.2 := by
  induction arguments generalizing index ls with
  | nil =>
    rw [argumentLines, Except.ok.injEq, eq_comm]
    simp [keyedArguments]
  | cons argument arguments ih =>
    rw [argumentLines_cons, List.forall_mem_cons, keyedArguments, List.map_cons]
    cases hforbidden : hasForbiddenCharacter argument.toList with
    | true => simp
    | false =>
      rw [if_neg (by simp), map_cons_eq_ok_iff_of_iff fun _ => ih]
      exact and_congr (by simp) Iff.rfl

theorem environmentLines_eq_ok_iff {entries : List (String × TenantValue)}
    {ls : List (List Char)} :
    environmentLines entries = .ok ls ↔
      (∀ entry ∈ entries, hasForbiddenCharacter entry.2.text.toList = false) ∧
        ls = entries.map fun entry =>
          line (tenantPrefix ++ entry.1.toList) entry.2.text.toList := by
  induction entries generalizing ls with
  | nil =>
    rw [environmentLines, Except.ok.injEq, eq_comm]
    simp
  | cons entry entries ih =>
    obtain ⟨name, value⟩ := entry
    rw [environmentLines_cons, List.forall_mem_cons, List.map_cons]
    cases hforbidden : hasForbiddenCharacter value.text.toList with
    | true => simp
    | false =>
      rw [if_neg (by simp), map_cons_eq_ok_iff_of_iff fun _ => ih]
      exact and_congr (by simp) Iff.rfl

/-- What the file can hold: no argument and no value ends a line. -/
structure Representable (content : InstanceEnvContent) : Prop where
  arguments : ∀ argument ∈ content.args.list, hasForbiddenCharacter argument.toList = false
  environment : ∀ entry ∈ content.environment.entries,
    hasForbiddenCharacter entry.2.text.toList = false

/-- The lines of a content. -/
def fileLines (floats : FloatText) (content : InstanceEnvContent) : List (List Char) :=
  ((keyed floats content).map fun entry => line entry.1.text entry.2) ++
    (tenantEntries content).map fun entry => line (tenantPrefix ++ entry.1) entry.2

theorem renderInstanceEnv_eq_ok_iff {floats : FloatText} {content : InstanceEnvContent}
    {text : List Char} :
    renderInstanceEnv floats content = .ok text ↔
      Representable content ∧ text = unlines (fileLines floats content) := by
  -- the two checked parts, put behind the runtime's own lines, make up the lines of the file
  have hfile : ∀ arguments tenant,
      arguments = (keyedArguments 0 content.args.list).map
        (fun entry => line entry.1.text entry.2) →
      tenant = content.environment.entries.map (fun entry =>
        line (tenantPrefix ++ entry.1.toList) entry.2.text.toList) →
      runtimeLines floats content ++ arguments ++ tenant = fileLines floats content := by
    rintro _ _ rfl rfl
    rw [runtimeLines_eq, fileLines, keyed, List.map_append, tenantEntries, List.map_map]
    rfl
  constructor
  · intro h
    rw [renderInstanceEnv] at h
    cases harguments : argumentLines 0 content.args.list with
    | error e =>
      rw [harguments] at h
      cases h
    | ok arguments =>
      cases htenant : environmentLines content.environment.entries with
      | error e =>
        rw [harguments, htenant] at h
        cases h
      | ok tenant =>
        rw [harguments, htenant] at h
        cases h
        obtain ⟨hfirst, harguments⟩ := argumentLines_eq_ok_iff.mp harguments
        obtain ⟨hsecond, htenant⟩ := environmentLines_eq_ok_iff.mp htenant
        exact ⟨⟨hfirst, hsecond⟩, congrArg unlines (hfile _ _ harguments htenant)⟩
  · rintro ⟨⟨harguments, henvironment⟩, rfl⟩
    rw [renderInstanceEnv, argumentLines_eq_ok_iff.mpr ⟨harguments, rfl⟩,
      environmentLines_eq_ok_iff.mpr ⟨henvironment, rfl⟩]
    exact congrArg (fun lines => Except.ok (unlines lines)) (hfile _ _ rfl rfl)

/-! ### Lines are read as what they were written for -/

theorem line_ne_nil (key value : List Char) : line key value ≠ [] := by
  rw [line]
  simp

theorem equals_notMem_of_characters {name : List Char}
    (h : ∀ c ∈ name, isNameCharacter c = true) : '=' ∉ name := by
  intro hmem
  exact absurd (h '=' hmem) (by decide)

/-- A line under the runtime's prefix is one of the runtime's entries. -/
theorem readLines_runtime (key : RuntimeKey) (value : List Char) {ls : List (List Char)}
    {runtime tenant : Entries} (h : readLines ls = .ok (runtime, tenant)) :
    readLines (line key.text value :: ls) = .ok ((key.text, value) :: runtime, tenant) := by
  have hsplit : splitOnce '=' (line key.text value) = some (key.text, value) :=
    splitOnce_append (equals_notMem_of_characters fun c hc => RuntimeKey.characters hc) value
  have hlead : runtimePrefix.isPrefixOf? key.text = some key.name :=
    List.isPrefixOf?_eq_some_iff_append_eq.mpr rfl
  rw [readLines, if_neg (line_ne_nil _ _), hsplit, okOr_some, ok_bind]
  show (readLines ls >>= fun _ => _) = _
  rw [h, ok_bind]
  simp only [hlead]
  rfl

/-- A line under the tenant's prefix is one of the tenant's, whatever it is called. -/
theorem readLines_tenant {name : List Char} (hname : '=' ∉ name) (value : List Char)
    {ls : List (List Char)} {runtime tenant : Entries}
    (h : readLines ls = .ok (runtime, tenant)) :
    readLines (line (tenantPrefix ++ name) value :: ls) =
      .ok (runtime, (name, value) :: tenant) := by
  have hkey : '=' ∉ tenantPrefix ++ name := by
    rw [List.mem_append, not_or]
    exact ⟨by decide, hname⟩
  have hruntime : runtimePrefix.isPrefixOf? (tenantPrefix ++ name) = none := rfl
  have htenant : tenantPrefix.isPrefixOf? (tenantPrefix ++ name) = some name :=
    List.isPrefixOf?_eq_some_iff_append_eq.mpr rfl
  rw [readLines, if_neg (line_ne_nil _ _), line, splitOnce_append hkey, okOr_some, ok_bind]
  show (readLines ls >>= fun _ => _) = _
  rw [h, ok_bind]
  simp only [hruntime, htenant]
  rfl

theorem readLines_entries (keyed : Keyed) {tenant : Entries}
    (htenant : ∀ entry ∈ tenant, '=' ∉ entry.1) :
    readLines ((keyed.map fun entry => line entry.1.text entry.2) ++
        tenant.map fun entry => line (tenantPrefix ++ entry.1) entry.2) =
      .ok (keyed.entries, tenant) := by
  induction keyed with
  | nil =>
    induction tenant with
    | nil => rfl
    | cons entry tenant ih =>
      obtain ⟨hentry, htenant⟩ := List.forall_mem_cons.mp htenant
      exact readLines_tenant hentry entry.2 (ih htenant)
  | cons entry keyed ih => exact readLines_runtime entry.1 entry.2 ih

/-! ### No line ends before its end -/

/-- A text with no line end in it. -/
def OneLine (text : List Char) : Prop := '\n' ∉ text ∧ '\r' ∉ text

instance (text : List Char) : Decidable (OneLine text) := inferInstanceAs (Decidable (_ ∧ _))

theorem oneLine_append {front back : List Char} (hfront : OneLine front) (hback : OneLine back) :
    OneLine (front ++ back) := by
  rw [OneLine, List.mem_append, List.mem_append, not_or, not_or]
  exact ⟨⟨hfront.1, hback.1⟩, hfront.2, hback.2⟩

theorem oneLine_of_characters {name : List Char} (h : ∀ c ∈ name, isNameCharacter c = true) :
    OneLine name :=
  ⟨fun hmem => absurd (h _ hmem) (by decide), fun hmem => absurd (h _ hmem) (by decide)⟩

theorem oneLine_line {key value : List Char} (hkey : OneLine key) (hvalue : OneLine value) :
    OneLine (line key value) := by
  have hequals : OneLine ['='] := by decide
  exact oneLine_append hkey (oneLine_append hequals hvalue)

theorem oneLine_decimal (n : ℕ) : OneLine (decimal n) :=
  ⟨notMem_decimal (by decide) n, notMem_decimal (by decide) n⟩

theorem oneLine_path (path : GuestPath) : OneLine path.text.toList :=
  ⟨path.notMem_of_control (by decide), path.notMem_of_control (by decide)⟩

theorem oneLine_hostname (hostname : Hostname) : OneLine hostname.text.toList :=
  ⟨fun h => absurd (hostname.characters h) (by decide),
    fun h => absurd (hostname.characters h) (by decide)⟩

theorem oneLine_of_not_forbidden {value : List Char} (h : hasForbiddenCharacter value = false) :
    OneLine value := by
  rw [hasForbiddenCharacter, List.any_eq_false] at h
  exact ⟨fun hmem => h _ hmem (by decide), fun hmem => h _ hmem (by decide)⟩

/-- What a file relies on of the text of a float: it is one line, and is read as the float. -/
structure FloatText.RoundTrips (floats : FloatText) (bits : UInt64) : Prop where
  parse_jsNumber : floats.parse (floats.jsNumber bits) = some bits
  oneLine : OneLine (floats.jsNumber bits)

theorem oneLine_keyedArguments {arguments : List String}
    (h : ∀ argument ∈ arguments, hasForbiddenCharacter argument.toList = false) (index : ℕ) :
    ∀ entry ∈ keyedArguments index arguments, OneLine entry.2 := by
  induction arguments generalizing index with
  | nil => exact fun entry hentry => absurd hentry List.not_mem_nil
  | cons argument arguments ih =>
    obtain ⟨hargument, harguments⟩ := List.forall_mem_cons.mp h
    exact List.forall_mem_cons.mpr
      ⟨oneLine_of_not_forbidden hargument, ih harguments (index + 1)⟩

theorem oneLine_keyedFixed {floats : FloatText} {content : InstanceEnvContent}
    (hfloat : floats.RoundTrips content.restartPolicy.backoffFactor) :
    ∀ entry ∈ keyedFixed floats content, OneLine entry.2 := by
  have hdns : OneLine ([','].intercalate dnsServers) := by decide
  rw [keyedFixed]
  cases platformHostname content.hostnames with
  | none => simp [oneLine_decimal, oneLine_path, hfloat.oneLine, hdns]
  | some hostname => simp [oneLine_decimal, oneLine_path, oneLine_hostname, hfloat.oneLine, hdns]

theorem equals_notMem_tenant (content : InstanceEnvContent) :
    ∀ entry ∈ tenantEntries content, '=' ∉ entry.1 := by
  intro entry hentry
  obtain ⟨own, hown, rfl⟩ := List.mem_map.mp hentry
  exact equals_notMem_of_characters fun c hc =>
    isNameCharacter_of_mem (content.environment.names own hown) hc

/-- **The lines of a file are read as the entries they were written for.** -/
theorem readLines_file {floats : FloatText} {content : InstanceEnvContent}
    (hfloat : floats.RoundTrips content.restartPolicy.backoffFactor)
    (h : Representable content) :
    readLines (lines (unlines (fileLines floats content))) =
      .ok ((keyed floats content).entries, tenantEntries content) := by
  have hne : fileLines floats content ≠ [] := by
    rw [fileLines, keyed, keyedFixed]
    simp
  have hkeyed : ∀ entry ∈ keyed floats content, OneLine entry.2 := by
    intro entry hentry
    rcases List.mem_append.mp hentry with hentry | hentry
    · exact oneLine_keyedFixed hfloat entry hentry
    · exact oneLine_keyedArguments h.arguments 0 entry hentry
  have hlines : ∀ text ∈ fileLines floats content, OneLine text := by
    intro text htext
    rcases List.mem_append.mp htext with htext | htext
    · obtain ⟨entry, hentry, rfl⟩ := List.mem_map.mp htext
      exact oneLine_line (oneLine_of_characters fun c hc => RuntimeKey.characters hc)
        (hkeyed entry hentry)
    · obtain ⟨entry, hentry, rfl⟩ := List.mem_map.mp htext
      obtain ⟨own, hown, rfl⟩ := List.mem_map.mp hentry
      refine oneLine_line (oneLine_append (by decide) (oneLine_of_characters fun c hc =>
        isNameCharacter_of_mem (content.environment.names own hown) hc)) ?_
      exact oneLine_of_not_forbidden (h.environment own hown)
  rw [lines_unlines hne hlines]
  exact readLines_entries _ (equals_notMem_tenant content)

/-! ### Lookups -/

/-- A key that is not an argument's is not among the arguments. -/
theorem get_keyedArguments_of_fixed {key : RuntimeKey} (h : ∀ index, key ≠ .arg index)
    (index : ℕ) (arguments : List String) :
    ((keyedArguments index arguments).find? fun entry => entry.1 = key) = none := by
  induction arguments generalizing index with
  | nil => rfl
  | cons argument arguments ih =>
    rw [keyedArguments, List.find?_cons_of_neg (by simpa using Ne.symm (h index))]
    exact ih (index + 1)

/-- An argument is under the key of its place. -/
theorem get_keyedArguments (arguments : List String) (index n : ℕ) :
    (keyedArguments index arguments).get (.arg (index + n)) = arguments[n]?.map String.toList := by
  induction arguments generalizing index n with
  | nil => rfl
  | cons argument arguments ih =>
    cases n with
    | zero =>
      have hhead : ((keyedArguments index (argument :: arguments)).find? fun entry =>
          entry.1 = .arg index) = some (.arg index, argument.toList) :=
        List.find?_cons_of_pos (decide_eq_true rfl)
      rw [Keyed.get, Nat.add_zero, hhead]
      rfl
    | succ n =>
      have hsucc : index + (n + 1) = index + 1 + n := by omega
      rw [Keyed.get, keyedArguments, List.find?_cons_of_neg (by simp), hsucc]
      exact ih (index + 1) n

section Lookups

variable (floats : FloatText) (content : InstanceEnvContent)

theorem get_keyed_of_fixed {key : RuntimeKey} (h : ∀ index, key ≠ .arg index) :
    (keyed floats content).get key = (keyedFixed floats content).get key := by
  rw [Keyed.get, keyed, List.find?_append, get_keyedArguments_of_fixed h, Option.or_none,
    Keyed.get]

theorem fst_mem_fixed : ∀ entry ∈ keyedFixed floats content, entry.1 ∈ RuntimeKey.fixed := by
  rw [keyedFixed]
  cases platformHostname content.hostnames <;> simp [RuntimeKey.fixed]

theorem get_keyed_arg (n : ℕ) :
    (keyed floats content).get (.arg n) = content.args.list[n]?.map String.toList := by
  have hfixed : ((keyedFixed floats content).find? fun entry => entry.1 = .arg n) = none := by
    rw [keyedFixed]
    cases platformHostname content.hostnames <;> rfl
  have hargs := get_keyedArguments content.args.list 0 n
  rw [Nat.zero_add] at hargs
  rw [Keyed.get, keyed, List.find?_append, hfixed, Option.none_or]
  exact hargs

/-- The value under a key that is not an argument's. -/
def fixedValue (key : RuntimeKey) : Option (List Char) :=
  let policy := content.restartPolicy
  match key with
  | .httpPort => some (decimal content.httpPort.port)
  | .layers => some (decimal content.layers)
  | .program => some content.program.text.toList
  | .cwd => some content.workingDirectory.text.toList
  | .hostname => (platformHostname content.hostnames).map fun hostname => hostname.text.toList
  | .maxRestarts => some (decimal policy.maxRestarts)
  | .initialBackoffMs => some (decimal policy.initialBackoffMs)
  | .maxBackoffMs => some (decimal policy.maxBackoffMs)
  | .backoffFactor => some (floats.jsNumber policy.backoffFactor)
  | .resetAfterMs => some (decimal policy.resetAfterMs)
  | .dns => some ([','].intercalate dnsServers)
  | .arg _ => none

theorem named_keyed {key : RuntimeKey} (h : ∀ index, key ≠ .arg index) :
    named (keyed floats content).entries key.text = fixedValue floats content key := by
  rw [named_entries, get_keyed_of_fixed floats content h, keyedFixed]
  cases key with
  | arg index => exact absurd rfl (h index)
  | _ =>
    simp only [fixedValue]
    cases platformHostname content.hostnames <;> rfl

theorem named_argument (n : ℕ) :
    named (keyed floats content).entries (argumentKey n) =
      content.args.list[n]?.map String.toList := by
  have htext : argumentKey n = (RuntimeKey.arg n).text := List.append_assoc _ _ _
  rw [htext, named_entries, get_keyed_arg]

/-- As many keys are an argument's as there are arguments. -/
theorem countP_argumentKey :
    ((keyed floats content).entries.countP fun entry =>
      (runtimeKey "ARG_").isPrefixOf entry.1) = content.args.list.length := by
  -- a number follows the prefix, and no fixed name begins with it
  have hkey : ∀ key : RuntimeKey, (runtimeKey "ARG_").isPrefixOf key.text = true ↔
      ∃ index, key = .arg index := by
    intro key
    rw [List.isPrefixOf_iff_prefix, runtimeKey, RuntimeKey.text, List.prefix_append_right_inj]
    constructor
    · intro hlead
      by_contra hkey
      exact RuntimeKey.name_ne_arg (RuntimeKey.mem_fixed (not_exists.mp hkey)) hlead
    · rintro ⟨index, rfl⟩
      exact List.prefix_append _ _
  have harguments : ∀ index, (keyedArguments index content.args.list).countP
      (fun entry => (runtimeKey "ARG_").isPrefixOf entry.1.text) = content.args.list.length := by
    intro index
    induction content.args.list generalizing index with
    | nil => rfl
    | cons argument arguments ih =>
      rw [keyedArguments, List.countP_cons, ih, if_pos ((hkey _).mpr ⟨index, rfl⟩),
        List.length_cons]
  have hfixed : (keyedFixed floats content).countP
      (fun entry => (runtimeKey "ARG_").isPrefixOf entry.1.text) = 0 := by
    rw [List.countP_eq_zero]
    intro entry hentry hlead
    have hfixed := fst_mem_fixed floats content entry hentry
    obtain ⟨index, hindex⟩ := (hkey entry.1).mp hlead
    rw [hindex] at hfixed
    exact RuntimeKey.name_ne_arg hfixed (List.prefix_append _ _)
  rw [Keyed.entries, List.countP_map]
  show (keyed floats content).countP (fun entry =>
    (runtimeKey "ARG_").isPrefixOf entry.1.text) = _
  rw [keyed, List.countP_append, hfixed, harguments, Nat.zero_add]

/-- The arguments are read in their order, up to the first that is missing. -/
theorem readArguments_eq {rounds n : ℕ} (hn : n ≤ content.args.list.length)
    (hrounds : content.args.list.length < n + rounds) :
    readArguments (keyed floats content).entries rounds
        ((content.args.list.take n).map String.toList) =
      .ok (content.args.list.map String.toList) := by
  have hlength : ((content.args.list.take n).map String.toList).length = n := by
    rw [List.length_map, List.length_take]
    omega
  -- on the rounds of the loop: each reads one more argument, the last finds none
  induction rounds generalizing n with
  | zero => omega
  | succ rounds ih =>
    rw [readArguments, hlength, named_argument]
    rcases Nat.lt_or_ge n content.args.list.length with hlt | hge
    · have hmax := content.args.length_le
      have hnext : (content.args.list.take n).map String.toList ++
          [(content.args.list[n]).toList] =
            (content.args.list.take (n + 1)).map String.toList := by
        rw [List.take_add_one, List.getElem?_eq_getElem hlt, List.map_append]
        rfl
      rw [List.getElem?_eq_getElem hlt]
      show (refuse (n = maxArguments) _ >>= fun _ => _) = _
      rw [refuse_of_not (by omega), ok_bind, hnext]
      refine ih hlt (by omega) ?_
      rw [List.length_map, List.length_take]
      omega
    · have hall : n = content.args.list.length := by omega
      rw [hall, List.getElem?_eq_none (Nat.le_refl _), List.take_length]
      rfl

end Lookups

/-! ### What is read -/

theorem expandAll_eq_ok_iff {runtime tenant environment : Entries} :
    expandAll runtime tenant = .ok environment ↔
      (∀ entry ∈ tenant, ∀ reference ∈ runtimeReferences entry.2,
        ∃ found, lookup runtime reference.name = some found) ∧
      environment = tenant.map fun entry =>
        (entry.1, fill (offeredValues runtime) 0 entry.2) := by
  induction tenant generalizing environment with
  | nil =>
    rw [expandAll, pure_eq, Checked.ok.injEq, eq_comm]
    simp
  | cons entry tenant ih =>
    obtain ⟨name, value⟩ := entry
    rw [List.forall_mem_cons, List.map_cons]
    constructor
    · intro h
      obtain ⟨expanded, hvalue, h⟩ := bind_eq_ok_iff.mp h
      obtain ⟨others, hothers, h⟩ := bind_eq_ok_iff.mp h
      cases h
      obtain ⟨hfound, rfl⟩ := expand_eq_ok_iff.mp hvalue
      obtain ⟨hall, rfl⟩ := ih.mp hothers
      exact ⟨⟨hfound, hall⟩, rfl⟩
    · rintro ⟨⟨hfound, hall⟩, rfl⟩
      rw [expandAll, expand_eq_ok_iff.mpr ⟨hfound, rfl⟩, ok_bind, ih.mpr ⟨hall, rfl⟩, ok_bind]
      rfl

theorem number_eq_ok_iff {runtime : Entries} {key : List Char} {n m : ℕ}
    (h : named runtime key = some (decimal n)) :
    number runtime key = .ok m ↔ n < 2 ^ 32 ∧ m = n := by
  rw [number, required, h, okOr_some, ok_bind, okOr_eq_ok_iff, parseDecimal?_decimal]
  split
  · rename_i hlt
    rw [Option.some.injEq]
    exact ⟨fun h => ⟨hlt, h.symm⟩, fun h => h.2.symm⟩
  · rename_i hge
    exact ⟨fun h => absurd h (by simp), fun h => absurd h.1 hge⟩

/-- The values the references of a content's variables may be to. -/
def runtimeValues (content : InstanceEnvContent) : Entries :=
  (platformHostname content.hostnames).toList.map
      (fun hostname => ("NIBRUN_HOSTNAME".toList, hostname.text.toList)) ++
    [("NIBRUN_HTTP_PORT".toList, decimal content.httpPort.port)]

theorem offeredValues_keyed (floats : FloatText) (content : InstanceEnvContent) :
    offeredValues (keyed floats content).entries = runtimeValues content := by
  have hhostname : named (keyed floats content).entries "NIBRUN_HOSTNAME".toList =
      fixedValue floats content .hostname :=
    @named_keyed floats content .hostname (by simp)
  have hport : named (keyed floats content).entries "NIBRUN_HTTP_PORT".toList =
      fixedValue floats content .httpPort :=
    @named_keyed floats content .httpPort (by simp)
  rw [offeredValues, runtimeValueNames, List.filterMap_cons, hhostname, List.filterMap_cons,
    hport, runtimeValues]
  simp only [fixedValue]
  cases platformHostname content.hostnames <;> rfl

/-- What a guest is to be configured with. -/
def configOf (content : InstanceEnvContent) : InstanceConfig where
  httpPort := content.httpPort.port
  layers := content.layers
  program := content.program.text.toList
  workingDirectory := content.workingDirectory.text.toList
  hostname := (platformHostname content.hostnames).map fun hostname => hostname.text.toList
  maxRestarts := content.restartPolicy.maxRestarts
  initialBackoffMs := content.restartPolicy.initialBackoffMs
  maxBackoffMs := content.restartPolicy.maxBackoffMs
  backoffFactor := content.restartPolicy.backoffFactor
  resetAfterMs := content.restartPolicy.resetAfterMs
  nameservers := dnsServers
  arguments := content.args.list.map String.toList
  environment := content.environment.entries.map fun entry =>
    (entry.1.toList, fill (runtimeValues content) 0 entry.2.text.toList)

/-- What the guest reads: numbers of 32 bits, no more variables than it carries, and references to
what it has. -/
structure Readable (content : InstanceEnvContent) : Prop where
  layers_lt : content.layers < 2 ^ 32
  initialBackoffMs_lt : content.restartPolicy.initialBackoffMs < 2 ^ 32
  maxBackoffMs_lt : content.restartPolicy.maxBackoffMs < 2 ^ 32
  resetAfterMs_lt : content.restartPolicy.resetAfterMs < 2 ^ 32
  variables_le : content.environment.entries.length ≤ maxTenantVariables
  hostname : ∀ entry ∈ content.environment.entries,
    ∀ reference ∈ runtimeReferences entry.2.text.toList,
      reference.name = "NIBRUN_HOSTNAME".toList → (platformHostname content.hostnames).isSome

section Config

variable (floats : FloatText) (content : InstanceEnvContent)

/-- A reference of a validated value is to what the guest has, but for the hostname, which it has
when its app does. -/
theorem lookup_iff {entry : String × TenantValue} {reference : RuntimeReference}
    (hreference : reference ∈ runtimeReferences entry.2.text.toList) :
    (∃ found, lookup (keyed floats content).entries reference.name = some found) ↔
      (reference.name = "NIBRUN_HOSTNAME".toList →
        (platformHostname content.hostnames).isSome) := by
  have hlookup : ∀ name ∈ runtimeValueNames,
      (∃ found, lookup (keyed floats content).entries name = some found) ↔
        (named (keyed floats content).entries name).isSome := by
    intro name hname
    rw [lookup, List.contains_iff_mem.mpr hname, named, Option.isSome_map]
    simp only [Bool.and_true]
    exact Option.isSome_iff_exists.symm
  have hoffered := entry.2.offered
  rw [namesOfferedRuntimeValues, List.all_eq_true] at hoffered
  have hname := List.contains_iff_mem.mp (hoffered reference hreference)
  rw [hlookup _ hname]
  -- two names are offered, and the port is always there
  rcases List.mem_pair.mp hname with hhostname | hport
  · have hnamed : named (keyed floats content).entries reference.name =
        fixedValue floats content .hostname := by
      rw [hhostname]
      exact @named_keyed floats content .hostname (by simp)
    rw [hnamed, hhostname]
    simp [fixedValue]
  · have hnamed : named (keyed floats content).entries reference.name =
        fixedValue floats content .httpPort := by
      rw [hport]
      exact @named_keyed floats content .httpPort (by simp)
    rw [hnamed, hport]
    simp [fixedValue]

/-- A key's value is there to be read. -/
theorem required_keyed {key : RuntimeKey} {value : List Char}
    (h : fixedValue floats content key = some value) :
    required (keyed floats content).entries key.text = .ok value := by
  have hkey : ∀ index, key ≠ .arg index := by
    rintro index rfl
    cases h
  rw [required, named_keyed floats content hkey, h, okOr_some]

/-- A key's number is read when it is one of 32 bits. -/
theorem number_keyed_iff {key : RuntimeKey} {n m : ℕ}
    (h : fixedValue floats content key = some (decimal n)) :
    number (keyed floats content).entries key.text = .ok m ↔ n < 2 ^ 32 ∧ m = n := by
  have hkey : ∀ index, key ≠ .arg index := by
    rintro index rfl
    cases h
  exact number_eq_ok_iff ((named_keyed floats content hkey).trans h)

theorem nameservers_eq :
    ((([','].intercalate dnsServers).splitOn ',').filter (· ≠ [])).take maxNameservers =
      dnsServers := by
  have hplain : ∀ server ∈ dnsServers, ',' ∉ server := by decide
  rw [List.splitOn_intercalate ',' hplain (by decide)]
  decide

theorem expandAll_keyed_iff {environment : Entries} :
    expandAll (keyed floats content).entries (tenantEntries content) = .ok environment ↔
      (∀ entry ∈ content.environment.entries,
        ∀ reference ∈ runtimeReferences entry.2.text.toList,
          reference.name = "NIBRUN_HOSTNAME".toList →
            (platformHostname content.hostnames).isSome) ∧
      environment = (configOf content).environment := by
  have hreferences : (∀ entry ∈ tenantEntries content, ∀ reference ∈ runtimeReferences entry.2,
      ∃ found, lookup (keyed floats content).entries reference.name = some found) ↔
        ∀ entry ∈ content.environment.entries,
          ∀ reference ∈ runtimeReferences entry.2.text.toList,
            reference.name = "NIBRUN_HOSTNAME".toList →
              (platformHostname content.hostnames).isSome := by
    rw [tenantEntries, List.forall_mem_map]
    exact forall₂_congr fun entry _ => forall₂_congr fun reference hreference =>
      lookup_iff floats content hreference
  rw [expandAll_eq_ok_iff, hreferences, offeredValues_keyed, tenantEntries, List.map_map]
  rfl

/-- The entries of a file are read exactly when they are readable, and as what they were written
for. -/
theorem readConfig_eq_ok_iff (hfloat : floats.RoundTrips content.restartPolicy.backoffFactor)
    {config : InstanceConfig} :
    readConfig floats (keyed floats content).entries (tenantEntries content) = .ok config ↔
      Readable content ∧ config = configOf content := by
  have hdns := @required_keyed floats content .dns _ rfl
  have hprogram := @required_keyed floats content .program _ rfl
  have hcwd := @required_keyed floats content .cwd _ rfl
  have hfactor := @required_keyed floats content .backoffFactor _ rfl
  have hhostname := @named_keyed floats content .hostname (by simp)
  have hhttpPort := fun m => @number_keyed_iff floats content .httpPort _ m rfl
  have hlayers := fun m => @number_keyed_iff floats content .layers _ m rfl
  have hmaxRestarts := fun m => @number_keyed_iff floats content .maxRestarts _ m rfl
  have hinitialBackoffMs := fun m => @number_keyed_iff floats content .initialBackoffMs _ m rfl
  have hmaxBackoffMs := fun m => @number_keyed_iff floats content .maxBackoffMs _ m rfl
  have hresetAfterMs := fun m => @number_keyed_iff floats content .resetAfterMs _ m rfl
  have harguments : readArguments (keyed floats content).entries (maxArguments + 1) [] =
      .ok (content.args.list.map String.toList) := by
    have hmax := content.args.length_le
    exact readArguments_eq floats content (Nat.zero_le _) (by omega)
  -- every argument key is read: there are as many as arguments
  have hcount : ¬((keyed floats content).entries.countP fun entry =>
      (runtimeKey "ARG_").isPrefixOf entry.1) ≠ (content.args.list.map String.toList).length := by
    rw [countP_argumentKey, List.length_map]
    exact not_not_intro rfl
  have htenant : (tenantEntries content).length = content.environment.entries.length :=
    List.length_map _
  constructor
  · intro h
    -- the fields in the order `parse_instance_env` reads them, each with what was written
    obtain ⟨dns, hread, h⟩ := bind_eq_ok_iff.mp h
    cases hdns.symm.trans hread
    obtain ⟨arguments, hread, h⟩ := bind_eq_ok_iff.mp h
    cases harguments.symm.trans hread
    obtain ⟨_, -, h⟩ := bind_eq_ok_iff.mp h
    obtain ⟨_, hmany, h⟩ := bind_eq_ok_iff.mp h
    have hmany := Nat.le_of_not_lt (refuse_eq_ok_iff.mp hmany)
    obtain ⟨environment, hread, h⟩ := bind_eq_ok_iff.mp h
    obtain ⟨hreferences, rfl⟩ := (expandAll_keyed_iff floats content).mp hread
    obtain ⟨httpPort, hread, h⟩ := bind_eq_ok_iff.mp h
    obtain ⟨-, rfl⟩ := (hhttpPort _).mp hread
    obtain ⟨layers, hread, h⟩ := bind_eq_ok_iff.mp h
    obtain ⟨hlayersLt, rfl⟩ := (hlayers _).mp hread
    obtain ⟨program, hread, h⟩ := bind_eq_ok_iff.mp h
    cases hprogram.symm.trans hread
    obtain ⟨cwd, hread, h⟩ := bind_eq_ok_iff.mp h
    cases hcwd.symm.trans hread
    obtain ⟨maxRestarts, hread, h⟩ := bind_eq_ok_iff.mp h
    obtain ⟨-, rfl⟩ := (hmaxRestarts _).mp hread
    obtain ⟨initialBackoffMs, hread, h⟩ := bind_eq_ok_iff.mp h
    obtain ⟨hinitialLt, rfl⟩ := (hinitialBackoffMs _).mp hread
    obtain ⟨maxBackoffMs, hread, h⟩ := bind_eq_ok_iff.mp h
    obtain ⟨hmaxLt, rfl⟩ := (hmaxBackoffMs _).mp hread
    obtain ⟨factor, hread, h⟩ := bind_eq_ok_iff.mp h
    cases hfactor.symm.trans hread
    obtain ⟨backoffFactor, hread, h⟩ := bind_eq_ok_iff.mp h
    cases hfloat.parse_jsNumber.symm.trans (okOr_eq_ok_iff.mp hread)
    obtain ⟨resetAfterMs, hread, h⟩ := bind_eq_ok_iff.mp h
    obtain ⟨hresetLt, rfl⟩ := (hresetAfterMs _).mp hread
    refine ⟨⟨hlayersLt, hinitialLt, hmaxLt, hresetLt, htenant ▸ hmany, hreferences⟩, ?_⟩
    cases h
    rw [nameservers_eq]
    exact congrArg (fun hostname => { configOf content with hostname := hostname }) hhostname
  · rintro ⟨hreadable, rfl⟩
    have hmaxRestartsLt := content.maxRestarts_lt
    have hportLt : content.httpPort.port < 2 ^ 32 :=
      Nat.lt_trans content.httpPort.lt (by decide)
    have hmany : ¬maxTenantVariables < (tenantEntries content).length := by
      rw [htenant]
      exact Nat.not_lt.mpr hreadable.variables_le
    -- and the other way, each check passing within the bounds of what is readable
    refine bind_eq_ok_iff.mpr ⟨_, hdns, ?_⟩
    refine bind_eq_ok_iff.mpr ⟨_, harguments, ?_⟩
    refine bind_eq_ok_iff.mpr ⟨_, refuse_of_not hcount _, ?_⟩
    refine bind_eq_ok_iff.mpr ⟨_, refuse_of_not hmany _, ?_⟩
    refine bind_eq_ok_iff.mpr
      ⟨_, (expandAll_keyed_iff floats content).mpr ⟨hreadable.hostname, rfl⟩, ?_⟩
    refine bind_eq_ok_iff.mpr ⟨_, (hhttpPort _).mpr ⟨hportLt, rfl⟩, ?_⟩
    refine bind_eq_ok_iff.mpr ⟨_, (hlayers _).mpr ⟨hreadable.layers_lt, rfl⟩, ?_⟩
    refine bind_eq_ok_iff.mpr ⟨_, hprogram, ?_⟩
    refine bind_eq_ok_iff.mpr ⟨_, hcwd, ?_⟩
    refine bind_eq_ok_iff.mpr ⟨_, (hmaxRestarts _).mpr ⟨hmaxRestartsLt, rfl⟩, ?_⟩
    refine bind_eq_ok_iff.mpr
      ⟨_, (hinitialBackoffMs _).mpr ⟨hreadable.initialBackoffMs_lt, rfl⟩, ?_⟩
    refine bind_eq_ok_iff.mpr ⟨_, (hmaxBackoffMs _).mpr ⟨hreadable.maxBackoffMs_lt, rfl⟩, ?_⟩
    refine bind_eq_ok_iff.mpr ⟨_, hfactor, ?_⟩
    refine bind_eq_ok_iff.mpr ⟨_, okOr_eq_ok_iff.mpr hfloat.parse_jsNumber, ?_⟩
    refine bind_eq_ok_iff.mpr ⟨_, (hresetAfterMs _).mpr ⟨hreadable.resetAfterMs_lt, rfl⟩, ?_⟩
    rw [nameservers_eq]
    exact congrArg (fun hostname => Checked.ok { configOf content with hostname := hostname })
      hhostname

/-- **What the guest reads of a file the host wrote**: it is read exactly when it is readable, and
as the configuration it was written for. -/
theorem parseInstanceEnv_eq_ok_iff
    (hfloat : floats.RoundTrips content.restartPolicy.backoffFactor) {text : List Char}
    (hrender : renderInstanceEnv floats content = .ok text) {config : InstanceConfig} :
    parseInstanceEnv floats text = .ok config ↔ Readable content ∧ config = configOf content := by
  obtain ⟨hrepresentable, rfl⟩ := renderInstanceEnv_eq_ok_iff.mp hrender
  rw [parseInstanceEnv, readLines_file hfloat hrepresentable, ok_bind]
  exact readConfig_eq_ok_iff floats content hfloat

/-- **The file is faithful.** What the guest reads of a file the host wrote is the content it was
written for, the references in the tenant's values filled in. -/
theorem faithful (hfloat : floats.RoundTrips content.restartPolicy.backoffFactor)
    {text : List Char} (hrender : renderInstanceEnv floats content = .ok text)
    {config : InstanceConfig} (hparse : parseInstanceEnv floats text = .ok config) :
    config = configOf content :=
  ((parseInstanceEnv_eq_ok_iff floats content hfloat hrender).mp hparse).2

end Config

/-- How many layers an instance may name. -/
def maxLayers : ℕ := 8

/-- What the host accepts of an instance and can write: layers within their limit, and no line end
in an argument or a value. -/
structure Accepted (content : InstanceEnvContent) : Prop where
  layers_pos : 0 < content.layers
  layers_le : content.layers ≤ maxLayers
  representable : Representable content

/-- The file of a content is written and read back. -/
def IsRead (floats : FloatText) (content : InstanceEnvContent) : Prop :=
  ∃ text config, renderInstanceEnv floats content = .ok text ∧
    parseInstanceEnv floats text = .ok config

/-- What is written is read back when it is readable. -/
theorem isRead_iff {floats : FloatText} {content : InstanceEnvContent}
    (hfloat : floats.RoundTrips content.restartPolicy.backoffFactor) :
    IsRead floats content ↔ Representable content ∧ Readable content := by
  constructor
  · rintro ⟨text, config, hrender, hparse⟩
    exact ⟨(renderInstanceEnv_eq_ok_iff.mp hrender).1,
      ((parseInstanceEnv_eq_ok_iff floats content hfloat hrender).mp hparse).1⟩
  · rintro ⟨hrepresentable, hreadable⟩
    have hrender : renderInstanceEnv floats content = .ok (unlines (fileLines floats content)) :=
      renderInstanceEnv_eq_ok_iff.mpr ⟨hrepresentable, rfl⟩
    exact ⟨_, configOf content, hrender,
      (parseInstanceEnv_eq_ok_iff floats content hfloat hrender).mpr ⟨hreadable, rfl⟩⟩

/-- **What the guest can read of what the host accepts.** -/
theorem readable_iff (floats : FloatText) (content : InstanceEnvContent)
    (hfloat : floats.RoundTrips content.restartPolicy.backoffFactor) (haccepted : Accepted content)
    (hinitial : content.restartPolicy.initialBackoffMs < 2 ^ 32)
    (hmax : content.restartPolicy.maxBackoffMs < 2 ^ 32)
    (hreset : content.restartPolicy.resetAfterMs < 2 ^ 32) :
    IsRead floats content ↔
      content.environment.entries.length ≤ maxTenantVariables ∧
        ((platformHostname content.hostnames).isSome ∨
          ∀ entry ∈ content.environment.entries,
            ∀ reference ∈ runtimeReferences entry.2.text.toList,
              reference.name ≠ "NIBRUN_HOSTNAME".toList) := by
  have hlayers : content.layers < 2 ^ 32 :=
    Nat.lt_of_le_of_lt haccepted.layers_le (by decide)
  rw [isRead_iff hfloat]
  constructor
  · rintro ⟨-, hreadable⟩
    refine ⟨hreadable.variables_le, ?_⟩
    by_cases hhostname : (platformHostname content.hostnames).isSome
    · exact .inl hhostname
    · exact .inr fun entry hentry reference hreference hname =>
        hhostname (hreadable.hostname entry hentry reference hreference hname)
  · rintro ⟨hmany, hhostname⟩
    refine ⟨haccepted.representable, hlayers, hinitial, hmax, hreset, hmany, ?_⟩
    intro entry hentry reference hreference hname
    rcases hhostname with hsome | hnone
    · exact hsome
    · exact absurd hname (hnone entry hentry reference hreference)

/-! ### A content -/

/-- Floats of which only 2 is written and read. -/
def floatTwo : FloatText where
  jsNumber _ := "2".toList
  parse text := if text = "2".toList then some 0x4000000000000000 else none

theorem floatTwo_roundTrips : floatTwo.RoundTrips defaultRestartPolicy.backoffFactor :=
  ⟨by decide, by decide⟩

/-- A value that refers to the hostname. -/
def urlValue : TenantValue where
  text := "https://${NIBRUN_HOSTNAME}/"
  size_le := by decide
  offered := by decide

/-- A content with one variable that refers to the hostname, and with some hostnames. -/
def urlContent (hostnames : List AppHostname) : InstanceEnvContent where
  httpPort := ⟨3000, by decide, by decide⟩
  layers := 1
  hostnames := hostnames
  program := ⟨"/app/server", by decide⟩
  workingDirectory := ⟨"/app", by decide⟩
  args := ⟨["serve"], by decide, by decide⟩
  environment := ⟨[("URL", urlValue)], by simp, by decide⟩
  restartPolicy := defaultRestartPolicy
  layers_lt := by decide
  maxRestarts_lt := by decide
  initialBackoffMs_lt := by decide
  maxBackoffMs_lt := by decide
  resetAfterMs_lt := by decide

def platformHostnames : List AppHostname := [⟨⟨"my-app.nibrun.app", by decide⟩, .platform⟩]

theorem representable_urlContent (hostnames : List AppHostname) :
    Representable (urlContent hostnames) where
  arguments := by
    show ∀ argument ∈ ["serve"], hasForbiddenCharacter argument.toList = false
    decide
  environment := by
    show ∀ entry ∈ [("URL", urlValue)], hasForbiddenCharacter entry.2.text.toList = false
    decide

theorem accepted_urlContent (hostnames : List AppHostname) : Accepted (urlContent hostnames) :=
  ⟨Nat.one_pos, by show 1 ≤ maxLayers; decide, representable_urlContent hostnames⟩

/-- A content whose variable refers to a hostname its app has is read back. -/
theorem faithful_urlContent :
    ∃ text config,
      renderInstanceEnv floatTwo (urlContent platformHostnames) = .ok text ∧
        parseInstanceEnv floatTwo text = .ok config ∧
          config = configOf (urlContent platformHostnames) := by
  have hreadable : Readable (urlContent platformHostnames) :=
    ⟨by decide, by decide, by decide, by decide, by decide, fun _ _ _ _ _ => rfl⟩
  obtain ⟨text, config, hrender, hparse⟩ := (isRead_iff floatTwo_roundTrips).mpr
    ⟨representable_urlContent platformHostnames, hreadable⟩
  exact ⟨text, config, hrender, hparse,
    faithful floatTwo (urlContent platformHostnames) floatTwo_roundTrips hrender hparse⟩

theorem readable_iff_urlContent :
    IsRead floatTwo (urlContent platformHostnames) ↔
      (urlContent platformHostnames).environment.entries.length ≤ maxTenantVariables ∧
        ((platformHostname (urlContent platformHostnames).hostnames).isSome ∨
          ∀ entry ∈ (urlContent platformHostnames).environment.entries,
            ∀ reference ∈ runtimeReferences entry.2.text.toList,
              reference.name ≠ "NIBRUN_HOSTNAME".toList) :=
  readable_iff floatTwo (urlContent platformHostnames) floatTwo_roundTrips
    (accepted_urlContent platformHostnames) (by decide) (by decide) (by decide)

/-- **Not all that the host accepts is read**: a value may refer to the hostname of an app that
has none, and the guest refuses to boot with it. -/
theorem not_always_read :
    ¬∀ (floats : FloatText) (content : InstanceEnvContent),
      floats.RoundTrips content.restartPolicy.backoffFactor → Accepted content →
        (∀ text, renderInstanceEnv floats content = .ok text →
          (String.ofList text).utf8ByteSize ≤ configMaxBytes) →
            IsRead floats content := by
  intro h
  have hsize : ∀ text, renderInstanceEnv floatTwo (urlContent []) = .ok text →
      (String.ofList text).utf8ByteSize ≤ configMaxBytes := by
    intro text hrender
    rw [(renderInstanceEnv_eq_ok_iff.mp hrender).2]
    decide +kernel
  have hread := h floatTwo (urlContent []) floatTwo_roundTrips (accepted_urlContent []) hsize
  have hhostname := ((isRead_iff floatTwo_roundTrips).mp hread).2.hostname
  have hreference : ∃ reference ∈ runtimeReferences urlValue.text.toList,
      reference.name = "NIBRUN_HOSTNAME".toList := by decide
  obtain ⟨reference, hmem, hname⟩ := hreference
  have hsome := hhostname ("URL", urlValue) List.mem_cons_self reference hmem hname
  cases hsome

end Nibrunner.InstanceEnv
