import Mathlib.Init

/-!
# Identifiers

Apps, volumes, deployments, checkpoints and exports are named by validated strings, one type
for each so that one cannot be handed in for another. Everything the daemon does with them is
comparing them, for equality and as the keys of its ordered maps, so an `Id` is a string with
the string order, indexed by what it names.
-/

namespace Nibrunner

/-- What an identifier names. -/
inductive IdKind where
  | app
  | volume
  | deployment
  | checkpoint
  | export

/-- An identifier of one kind. -/
structure Id (kind : IdKind) where
  text : String
deriving DecidableEq

namespace Id

variable {kind : IdKind}

instance : LawfulBEq (Id kind) := inferInstance

instance : Ord (Id kind) := ⟨fun a b => compare a.text b.text⟩

instance : Std.LawfulEqOrd (Id kind) where
  eq_of_compare {a b} h := by
    cases a; cases b
    exact congrArg Id.mk (Std.LawfulEqOrd.eq_of_compare h)
  compare_self {a} := Std.ReflOrd.compare_self (a := a.text)

instance : Std.TransOrd (Id kind) where
  eq_swap {a b} := Std.OrientedOrd.eq_swap (a := a.text) (b := b.text)
  isLE_trans {_ _ _} h₁ h₂ := Std.TransOrd.isLE_trans (α := String) h₁ h₂

end Id

/-- The characters an identifier may have after its first. -/
def isIdentifierCharacter (c : Char) : Bool := c.isAlphanum || c = '_' || c = '-'

/-- What an identifier has to look like: a letter or a digit, then letters, digits, underscores and
hyphens, 63 bytes in all at most. -/
def isIdentifier (value : String) : Bool :=
  match value.toList with
  | [] => false
  | first :: rest =>
    first.isAlphanum && (value.utf8ByteSize ≤ 63 && rest.all isIdentifierCharacter)

/-- The identifier a string names, where it looks like one. -/
def Id.parse {kind : IdKind} (value : String) : Option (Id kind) :=
  if isIdentifier value then some ⟨value⟩ else none

abbrev AppId := Id .app
abbrev VolumeId := Id .volume
abbrev DeploymentId := Id .deployment
abbrev CheckpointId := Id .checkpoint
abbrev ExportId := Id .export

end Nibrunner
