import Nibrunner.ForStd.TextLines
import Nibrunner.Protocol.Wire

/-!
# What a tenant may ask for

The wire types of what a guest runs: its arguments, its environment, the hostnames of its app and
its HTTP port. A value of the environment may refer to what only the guest knows, as `${NAME}`;
`runtimeReferences` finds the references in a value and `TenantValue` holds none a guest does not
offer. Positions in a text count its characters.

An environment is a map with ordered names, carried as its entries in their order.
-/

namespace Nibrunner

/-! ### References to runtime values -/

def environmentReservedName : String := "__proto__"

/-- A character of a name: a letter or a digit of ASCII, or an underscore. -/
def isNameCharacter (c : Char) : Bool := c.isAlphanum || c = '_'

def isEnvironmentName (name : String) : Bool :=
  name ≠ environmentReservedName &&
    match name.toList with
    | [] => false
    | first :: rest => (first.isAlpha || first = '_') && rest.all isNameCharacter

/-- A name of a variable is made of the characters of names. -/
theorem isNameCharacter_of_mem {name : String} (h : isEnvironmentName name = true) {c : Char}
    (hc : c ∈ name.toList) : isNameCharacter c = true := by
  rw [isEnvironmentName, Bool.and_eq_true] at h
  obtain ⟨-, h⟩ := h
  cases htext : name.toList with
  | nil =>
    rw [htext] at hc
    exact absurd hc List.not_mem_nil
  | cons first rest =>
    simp only [htext, Bool.and_eq_true, Bool.or_eq_true, decide_eq_true_eq, List.all_eq_true] at h
    rw [htext] at hc
    rcases List.mem_cons.mp hc with rfl | hc
    · rw [isNameCharacter, Bool.or_eq_true, decide_eq_true_eq, Char.isAlphanum, Bool.or_eq_true]
      exact h.1.imp_left .inl
    · exact h.2 c hc

def runtimeValuePrefix : List Char := "NIBRUN_".toList

def runtimeValueNames : List (List Char) :=
  ["NIBRUN_HOSTNAME".toList, "NIBRUN_HTTP_PORT".toList]

/-- What a reference begins with. -/
def opening : List Char := ['$', '{']

/-- Where a pattern occurs in a text that begins at a position, no two occurrences overlapping:
after each, as many characters are skipped as it has left. -/
def matchIndices (pattern : List Char) : ℕ → ℕ → List Char → List ℕ
  | _, _, [] => []
  | skip + 1, i, _ :: text => matchIndices pattern skip (i + 1) text
  | 0, i, c :: text =>
    if pattern.isPrefixOf (c :: text) then
      i :: matchIndices pattern (pattern.length - 1) (i + 1) text
    else matchIndices pattern 0 (i + 1) text

/-- The name of the reference whose opening stands at the front of a text, where there is one. -/
def referenceName? (text : List Char) : Option (List Char) :=
  let rest := text.drop opening.length
  if !runtimeValuePrefix.isPrefixOf rest then none
  else
    match rest.findIdx? (!isNameCharacter ·) with
    | none => none
    | some stop => if rest[stop]? = some '}' then some (rest.take stop) else none

/-- A reference within a value: from where, up to where, and the name it holds. -/
structure RuntimeReference where
  start : ℕ
  stop : ℕ
  name : List Char
deriving DecidableEq

def runtimeReferences (value : List Char) : List RuntimeReference :=
  (matchIndices opening 0 0 value).filterMap fun start =>
    (referenceName? (value.drop start)).map fun name =>
      { start := start, stop := start + opening.length + name.length + 1, name := name }

def namesOfferedRuntimeValues (value : List Char) : Bool :=
  (runtimeReferences value).all fun reference => runtimeValueNames.contains reference.name

/-! ### Environments and arguments -/

def maxSecretLength : ℕ := 32768

structure TenantValue where
  text : String
  size_le : text.utf8ByteSize ≤ maxSecretLength
  offered : namesOfferedRuntimeValues text.toList = true
deriving DecidableEq

/-- A map from names to values, as its entries in the order of their names. -/
structure TenantEnvironment where
  entries : List (String × TenantValue)
  sorted : (entries.map Prod.fst).Pairwise (· < ·)
  names : ∀ entry ∈ entries, isEnvironmentName entry.1 = true
deriving DecidableEq

def maxArguments : ℕ := 64

def maxArgumentLength : ℕ := 4096

structure TenantArguments where
  list : List String
  length_le : list.length ≤ maxArguments
  size_le : ∀ argument ∈ list, argument.utf8ByteSize ≤ maxArgumentLength
deriving DecidableEq

/-! ### Hostnames and ports -/

def maxDnsLabelLength : ℕ := 63

def isDnsLabel (value : List Char) : Bool :=
  let inner := fun c : Char => c.isLower || c.isDigit || c = '-'
  let edge := fun c : Char => c.isLower || c.isDigit
  value ≠ [] && value.length ≤ maxDnsLabelLength && value.head?.any edge &&
    value.getLast?.any edge && value.all inner

def maxHostnameLength : ℕ := 253

def isHostname (value : String) : Bool :=
  let labels := value.toList.splitOn '.'
  value.utf8ByteSize ≤ maxHostnameLength && 2 ≤ labels.length && labels.all isDnsLabel

structure Hostname where
  text : String
  valid : isHostname text = true
deriving DecidableEq

/-- The characters of a hostname. -/
theorem Hostname.characters (hostname : Hostname) {c : Char} (h : c ∈ hostname.text.toList) :
    c = '.' ∨ (c.isLower || c.isDigit || c = '-') = true := by
  have hvalid := hostname.valid
  rw [isHostname, Bool.and_eq_true] at hvalid
  refine (TextLines.eq_or_mem_splitOn '.' h).imp_right fun ⟨label, hlabel, hc⟩ => ?_
  have hlabel := List.all_eq_true.mp hvalid.2 label hlabel
  rw [isDnsLabel, Bool.and_eq_true] at hlabel
  exact List.all_eq_true.mp hlabel.2 c hc

inductive AppHostnameKind where
  | platform
  | custom
deriving DecidableEq

structure AppHostname where
  hostname : Hostname
  kind : AppHostnameKind
deriving DecidableEq

/-- A port, which is never zero. -/
structure HttpPort where
  port : ℕ
  pos : 0 < port
  lt : port < 2 ^ 16
deriving DecidableEq

end Nibrunner
