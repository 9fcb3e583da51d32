import Nibrunner.ForStd.Bytes

/-!
# Requests

What the proxy reads of an HTTP request: its version, the parts of its target and its headers. A
header's value is bytes, which are text when they are visible ASCII, and a name may have several
values. An authority is always visible ASCII, so it can be told in a header as it stands.
-/

namespace Nibrunner.Proxy

inductive Version where
  | http09
  | http10
  | http11
  | http2
  | http3
deriving DecidableEq

/-! ### Headers -/

def isVisibleAscii (b : UInt8) : Bool := (32 ≤ b && b < 127) || b = 9

/-- The bytes a header value may have. -/
def isHeaderByte (b : UInt8) : Bool := (32 ≤ b && b ≠ 127) || b = 9

abbrev HeaderValue := List UInt8

namespace HeaderValue

def toStr (value : HeaderValue) : Option String :=
  if value.all isVisibleAscii then some (String.ofList (value.map fun b => Char.ofNat b.toNat))
  else none

def fromStr (text : String) : Option HeaderValue :=
  let bytes := Bytes.ofText text
  if bytes.all isHeaderByte then some bytes else none

end HeaderValue

/-- Headers in the order they came, by their lower-case names. -/
abbrev HeaderMap := List (String × HeaderValue)

namespace HeaderMap

variable (headers : HeaderMap)

def getAll (name : String) : List HeaderValue :=
  (headers.filter (·.1 = name)).map Prod.snd

def get (name : String) : Option HeaderValue := (headers.getAll name).head?

def containsKey (name : String) : Bool := headers.any (·.1 = name)

def remove (name : String) : HeaderMap := headers.filter (·.1 ≠ name)

/-- All values of a name give way to one. -/
def insert (name : String) (value : HeaderValue) : HeaderMap :=
  headers.remove name ++ [(name, value)]

variable {headers} {name other : String} {value : HeaderValue}

theorem getAll_remove_of_ne (h : other ≠ name) : (headers.remove other).getAll name =
    headers.getAll name := by
  rw [remove, getAll, getAll, List.filter_filter]
  refine congrArg _ (List.filter_congr fun entry _ => ?_)
  by_cases hname : entry.1 = name
  · simp [hname, Ne.symm h]
  · simp [hname]

@[simp] theorem getAll_remove_self : (headers.remove name).getAll name = [] := by
  rw [remove, getAll, List.filter_filter, List.map_eq_nil_iff, List.filter_eq_nil_iff]
  intro entry _
  simp

theorem getAll_append (more : HeaderMap) :
    getAll (headers ++ more) name = headers.getAll name ++ more.getAll name := by
  rw [getAll, List.filter_append, List.map_append]
  rfl

@[simp] theorem getAll_insert_self : (headers.insert name value).getAll name = [value] := by
  rw [insert, getAll_append, getAll_remove_self]
  simp [getAll]

theorem getAll_insert_of_ne (h : other ≠ name) :
    (headers.insert other value).getAll name = headers.getAll name := by
  rw [insert, getAll_append, getAll_remove_of_ne h]
  simp [getAll, h]

theorem containsKey_iff : headers.containsKey name ↔ headers.getAll name ≠ [] := by
  rw [containsKey, List.any_eq_true, getAll, ne_eq, List.map_eq_nil_iff, List.filter_eq_nil_iff]
  simp

end HeaderMap

/-! ### Targets -/

def isVisibleChar (c : Char) : Bool := 32 ≤ c.toNat && c.toNat < 127

/-- Whoever is asked for, and where: `user@host:port`, each part but the host optional. -/
structure Authority where
  text : String
  visible : text.toList.all isVisibleChar = true

/-- What stands behind the last `@`, without its port. -/
def Authority.host (authority : Authority) : String :=
  let hostPort := (authority.text.toList.splitOn '@').getLastD []
  match hostPort with
  | '[' :: _ => String.ofList (hostPort.takeWhile (· ≠ ']') ++ [']'])
  | _ => String.ofList (hostPort.takeWhile (· ≠ ':'))

structure Uri where
  scheme : Option String
  authority : Option Authority
  pathAndQuery : Option String

def Uri.host (uri : Uri) : Option String := uri.authority.map Authority.host

structure Request where
  version : Version
  uri : Uri
  headers : HeaderMap

/-- The byte of a visible character. -/
private theorem byte_of_visible {c : Char} (h : isVisibleChar c) : c.toNat < 128 ∧
    isVisibleAscii c.val.toUInt8 ∧ isHeaderByte c.val.toUInt8 ∧
      Char.ofNat c.val.toUInt8.toNat = c := by
  obtain ⟨hfrom, hto⟩ : 32 ≤ c.toNat ∧ c.toNat < 127 := by simpa [isVisibleChar] using h
  have hnat : c.val.toUInt8.toNat = c.toNat := by
    rw [UInt32.toNat_toUInt8]
    exact Nat.mod_eq_of_lt (Nat.lt_trans hto (by decide))
  have hle : (32 : UInt8) ≤ c.val.toUInt8 := UInt8.le_iff_toNat_le.mpr (hnat ▸ hfrom)
  have hlt : c.val.toUInt8 < 127 := UInt8.lt_iff_toNat_lt.mpr (hnat ▸ hto)
  have hne : c.val.toUInt8 ≠ 127 := UInt8.ne_of_lt hlt
  generalize c.val.toUInt8 = b at hnat hle hlt hne
  refine ⟨Nat.lt_succ_of_lt hto, by simp [isVisibleAscii, hle, hlt],
    by simp [isHeaderByte, hle, hne], ?_⟩
  rw [hnat]
  exact Char.ofNat_toNat c

/-- An authority is told in a header as it stands. -/
theorem Authority.fromStr_text (authority : Authority) :
    ∃ value, HeaderValue.fromStr authority.text = some value ∧
      value.toStr = some authority.text := by
  obtain ⟨text, visible⟩ := authority
  have hvisible (c : Char) (hc : c ∈ text.toList) :=
    byte_of_visible (List.all_eq_true.mp visible c hc)
  have hbytes : Bytes.ofText text = text.toList.map fun c => c.val.toUInt8 := by
    have h : Bytes.ofText (String.ofList text.toList) = _ :=
      Bytes.ofText_of_ascii fun c hc => (hvisible c hc).1
    rwa [String.ofList_toList] at h
  have hback : (text.toList.map fun c => c.val.toUInt8).map (fun b => Char.ofNat b.toNat) =
      text.toList := by
    rw [List.map_map]
    exact (List.map_congr_left fun c hc => (hvisible c hc).2.2.2).trans
      (List.map_id' _)
  refine ⟨Bytes.ofText text, if_pos ?_, ?_⟩
  · rw [hbytes, List.all_map, List.all_eq_true]
    exact fun c hc => (hvisible c hc).2.2.1
  · rw [HeaderValue.toStr, hbytes, hback, String.ofList_toList, if_pos]
    rw [List.all_map, List.all_eq_true]
    exact fun c hc => (hvisible c hc).2.1

end Nibrunner.Proxy
