import Mathlib.Algebra.Order.Ring.Nat
import Nibrunner.Protocol.Identifier

/-!
# What a slot lays out

Everything an app needs of the host's network comes from one number, its slot: its host ports,
its addresses, its tap, its MAC and its block device. The layout is a stride of each of them, so
what keeps two apps apart is arithmetic, and reading the texts back.

* `addressAt_injective`, `macFor_addressAt_injective`: an address is read back off its text, and
  off the text of its MAC;
* `AppSlot.Apart`: two slots share no port, no address, no MAC, no tap and no device;
* `describeSlot_apart`: distinct slots of a host are apart;
* `hostPortAt_mem_reserved`: where the ports are.
-/

namespace Nibrunner

def firstSlot : ℕ := 0

def hostPortBase : ℕ := 21000

def portsPerSlot : ℕ := 8

def addressesPerSlot : ℕ := 4

def hostAddressOffset : ℕ := 1

def guestAddressOffset : ℕ := 2

def guestSubnetPrefixLength : ℕ := 30

def tapNamePrefix : String := "nbr"

def macPrefix : String := "02:00"

/-- The most apps any host can be laid out for: the last port of the last slot has to be a
port. -/
def mostAppsThePortsFit : ℕ := (65535 - hostPortBase + 1) / portsPerSlot

/-- The host ports no listener of an operator's may take, first and last inclusive, or nothing
where the last one is no port. -/
def reservedPortRange (maxApps : ℕ) : Option (ℕ × ℕ) :=
  let last := hostPortBase + maxApps * portsPerSlot - 1
  if last < 2 ^ 16 then some (hostPortBase, last) else none

def nbdDevicePath (minor : ℕ) : String := s!"/dev/nbd{minor}"

/-- Slot `n` takes `/dev/nbd`n, so the export reader holds the minor past the last slot. -/
def exportReaderDevicePath (maxApps : ℕ) : String := nbdDevicePath maxApps

/-- A slot as an app sees it. -/
structure AppSlot where
  slot : ℕ
  appId : AppId
  hostPort : ℕ
  hostIpv4 : String
  guestIpv4 : String
  guestMac : String
  tapName : String
  nbdDevicePath : String
  subnetPrefixLength : ℕ
deriving DecidableEq

/-- The `index`th host port of a slot, or nothing when the slot reserves no such port. -/
def hostPortAt (slot index : ℕ) : Option ℕ :=
  if portsPerSlot ≤ index then none
  else
    let port := hostPortBase + slot * portsPerSlot + index
    if port < 2 ^ 16 then some port else none

def addressAt (index : ℕ) : String := s!"10.201.{index / 256}.{index % 256}"

/-- A decimal number that fits an octet; a sign is allowed. -/
def parseU8 (text : List Char) : Option ℕ :=
  let digits := if text.head? = some '+' then text.tail else text
  let value := Nat.ofDigitChars 10 digits 0
  if digits ≠ [] ∧ digits.all Char.isDigit ∧ value < 256 then some value else none

/-- An octet in lower-case hexadecimal, two digits wide. -/
def hexOctet (octet : ℕ) : List Char :=
  let digits := Nat.toDigits 16 octet
  List.replicate (2 - digits.length) '0' ++ digits

/-- The MAC of an address: its octets behind a prefix of our own. -/
def macFor (address : String) : String :=
  let octets := (address.toList.splitOn '.').map fun octet => hexOctet ((parseU8 octet).getD 0)
  macPrefix ++ ":" ++ String.ofList ([':'].intercalate octets)

def describeSlot (slot : ℕ) (appId : AppId) : AppSlot where
  slot := slot
  appId := appId
  hostPort := hostPortBase + slot * portsPerSlot
  hostIpv4 := addressAt (slot * addressesPerSlot + hostAddressOffset)
  guestIpv4 := addressAt (slot * addressesPerSlot + guestAddressOffset)
  guestMac := macFor (addressAt (slot * addressesPerSlot + guestAddressOffset))
  tapName := s!"{tapNamePrefix}{slot}"
  nbdDevicePath := nbdDevicePath slot
  subnetPrefixLength := guestSubnetPrefixLength

/-! ### Reading the texts back -/

/-- A number is read back off its text. -/
private theorem toString_injective {m n : ℕ} (h : toString m = toString n) : m = n := by
  have hdigits : Nat.toDigits 10 m = Nat.toDigits 10 n := by
    rw [← Nat.toList_repr, ← Nat.toList_repr]
    exact congrArg String.toList h
  rw [← Nat.ofDigitChars_ten_toDigits (n := m), hdigits, Nat.ofDigitChars_ten_toDigits]

private theorem notMem_toDigits {c : Char} (hc : c.isDigit = false) (n : ℕ) :
    c ∉ Nat.toDigits 10 n := by
  intro h
  have hdigit := Nat.isDigit_of_mem_toDigits (by decide) (by decide) h
  rw [hc] at hdigit
  cases hdigit

private theorem splitOn_addressAt (index : ℕ) :
    (addressAt index).toList.splitOn '.' =
      [['1', '0'], ['2', '0', '1'], Nat.toDigits 10 (index / 256),
        Nat.toDigits 10 (index % 256)] := by
  have htext : (addressAt index).toList = ['.'].intercalate
      [['1', '0'], ['2', '0', '1'], Nat.toDigits 10 (index / 256),
        Nat.toDigits 10 (index % 256)] := by
    have hself (text : String) : toString text = text := rfl
    simp [addressAt, hself, List.intercalate]
  rw [htext, List.splitOn_intercalate _ _ (List.cons_ne_nil _ _)]
  intro octet hoctet
  simp only [List.mem_cons, List.not_mem_nil, or_false] at hoctet
  rcases hoctet with rfl | rfl | rfl | rfl
  · decide
  · decide
  · exact notMem_toDigits rfl _
  · exact notMem_toDigits rfl _

/-- **An address is read back off its text.** -/
theorem addressAt_injective {i j : ℕ} (h : addressAt i = addressAt j) : i = j := by
  have hsplit := splitOn_addressAt i
  rw [h, splitOn_addressAt] at hsplit
  simp only [List.cons.injEq, true_and, and_true] at hsplit
  have hdigits {m n : ℕ} (h : Nat.toDigits 10 m = Nat.toDigits 10 n) : m = n := by
    rw [← Nat.ofDigitChars_ten_toDigits (n := m), h, Nat.ofDigitChars_ten_toDigits]
  have hhigh := hdigits hsplit.1
  have hlow := hdigits hsplit.2
  rw [← Nat.div_add_mod i 256, ← hhigh, ← hlow, Nat.div_add_mod]

theorem parseU8_toDigits {n : ℕ} (h : n < 256) : parseU8 (Nat.toDigits 10 n) = some n := by
  have hhead : (Nat.toDigits 10 n).head? ≠ some '+' := by
    intro hhead
    exact notMem_toDigits (c := '+') rfl n (List.mem_of_mem_head? hhead)
  have hall : (Nat.toDigits 10 n).all Char.isDigit = true := by
    rw [List.all_eq_true]
    exact fun c hc => Nat.isDigit_of_mem_toDigits (by decide) (by decide) hc
  rw [parseU8, if_neg hhead, Nat.ofDigitChars_ten_toDigits, if_pos ⟨Nat.toDigits_ne_nil, hall, h⟩]

private theorem hexOctet_eq :
    ∀ n < 256, hexOctet n = [Nat.digitChar (n / 16), Nat.digitChar (n % 16)] := by
  decide +kernel

private theorem digitChar_injective :
    ∀ m < 16, ∀ n < 16, Nat.digitChar m = Nat.digitChar n → m = n := by
  decide

private theorem hexOctet_injective {m n : ℕ} (hm : m < 256) (hn : n < 256)
    (h : hexOctet m = hexOctet n) : m = n := by
  rw [hexOctet_eq m hm, hexOctet_eq n hn] at h
  simp only [List.cons.injEq, and_true] at h
  have hhigh := digitChar_injective (m / 16) (by omega) (n / 16) (by omega) h.1
  have hlow := digitChar_injective (m % 16) (by omega) (n % 16) (by omega) h.2
  omega

/-- A map that is injective on what two lists hold tells the lists apart. -/
theorem eq_of_map_eq {α β : Type} {f : α → β} {P : α → Prop}
    (hf : ∀ x y, P x → P y → f x = f y → x = y) {xs ys : List α} (hxs : ∀ x ∈ xs, P x)
    (hys : ∀ y ∈ ys, P y) (h : xs.map f = ys.map f) : xs = ys := by
  induction xs generalizing ys with
  | nil => exact (List.map_eq_nil_iff.mp h.symm).symm
  | cons x xs ih =>
    obtain ⟨y, ys, rfl, hhead, htail⟩ := List.map_eq_cons_iff.mp h.symm
    obtain ⟨hx, hxs⟩ := List.forall_mem_cons.mp hxs
    obtain ⟨hy, hys⟩ := List.forall_mem_cons.mp hys
    rw [hf x y hx hy hhead.symm, ih hxs hys htail.symm]

private theorem colon_notMem_hexOctet {n : ℕ} (h : n < 256) : ':' ∉ hexOctet n := by
  have hdigit : ∀ n < 16, ':' ≠ Nat.digitChar n := by decide
  rw [hexOctet_eq n h]
  simp only [List.mem_cons, List.not_mem_nil, or_false, not_or]
  exact ⟨hdigit _ (by omega), hdigit _ (by omega)⟩

/-- The octets of an address, as its MAC takes them. -/
def octetValues (address : String) : List ℕ :=
  (address.toList.splitOn '.').map fun octet => (parseU8 octet).getD 0

theorem octetValues_lt {address : String} {n : ℕ} (h : n ∈ octetValues address) : n < 256 := by
  obtain ⟨octet, -, rfl⟩ := List.mem_map.mp h
  cases hvalue : parseU8 octet with
  | none => exact Nat.succ_pos 255
  | some value =>
    simp only [parseU8, Option.ite_none_right_eq_some] at hvalue
    exact hvalue.2 ▸ hvalue.1.2.2

/-- **A MAC says the octets of its address**, and nothing else of it. -/
theorem macFor_eq_iff {a b : String} : macFor a = macFor b ↔ octetValues a = octetValues b := by
  have hmac (address : String) : macFor address = macPrefix ++ ":" ++
      String.ofList ([':'].intercalate ((octetValues address).map hexOctet)) := by
    rw [macFor, octetValues, List.map_map]
    rfl
  have hparts (address : String) : ∀ part ∈ (octetValues address).map hexOctet, ':' ∉ part := by
    intro part hpart
    obtain ⟨octet, hoctet, rfl⟩ := List.mem_map.mp hpart
    exact colon_notMem_hexOctet (octetValues_lt hoctet)
  have hne (address : String) : (octetValues address).map hexOctet ≠ [] := by
    rw [octetValues, Ne, List.map_eq_nil_iff, List.map_eq_nil_iff]
    exact List.splitOn_ne_nil _ _
  constructor
  · intro h
    rw [hmac, hmac] at h
    have htext := String.ofList_injective (String.append_right_inj _ |>.mp h)
    have hsplit := congrArg (List.splitOn ':') htext
    rw [List.splitOn_intercalate _ (hparts a) (hne a),
      List.splitOn_intercalate _ (hparts b) (hne b)] at hsplit
    exact eq_of_map_eq (fun _ _ => hexOctet_injective) (fun _ => octetValues_lt)
      (fun _ => octetValues_lt) hsplit
  · intro h
    rw [hmac, hmac, h]

private theorem octetValues_addressAt {index : ℕ} (h : index < 2 ^ 16) :
    octetValues (addressAt index) = [10, 201, index / 256, index % 256] := by
  have hhigh := parseU8_toDigits (n := index / 256) (by omega)
  have hlow := parseU8_toDigits (n := index % 256) (by omega)
  simp only [octetValues, splitOn_addressAt, List.map_cons, List.map_nil, hhigh, hlow]
  rfl

/-- **An address is read back off its MAC**, in the guest network. -/
theorem macFor_addressAt_injective {i j : ℕ} (hi : i < 2 ^ 16) (hj : j < 2 ^ 16)
    (h : macFor (addressAt i) = macFor (addressAt j)) : i = j := by
  rw [macFor_eq_iff, octetValues_addressAt hi, octetValues_addressAt hj] at h
  simp only [List.cons.injEq, true_and, and_true] at h
  omega

/-! ### Slots are apart -/

/-- The two slots share no port, no address, no MAC, no tap and no device. -/
structure AppSlot.Apart (a b : AppSlot) : Prop where
  ports : ∀ i j port, hostPortAt a.slot i = some port → hostPortAt b.slot j ≠ some port
  hosts : a.hostIpv4 ≠ b.hostIpv4
  guests : a.guestIpv4 ≠ b.guestIpv4
  hostGuest : a.hostIpv4 ≠ b.guestIpv4
  guestHost : a.guestIpv4 ≠ b.hostIpv4
  macs : a.guestMac ≠ b.guestMac
  taps : a.tapName ≠ b.tapName
  devices : a.nbdDevicePath ≠ b.nbdDevicePath

theorem hostPortAt_eq_some_iff {slot index port : ℕ} :
    hostPortAt slot index = some port ↔
      index < portsPerSlot ∧ port < 2 ^ 16 ∧
        port = hostPortBase + slot * portsPerSlot + index := by
  simp only [hostPortAt]
  constructor
  · intro h
    split at h
    · cases h
    · rename_i hindex
      split at h
      · rename_i hport
        cases h
        exact ⟨Nat.lt_of_not_le hindex, hport, rfl⟩
      · cases h
  · rintro ⟨hindex, hport, rfl⟩
    rw [if_neg (Nat.not_le.mpr hindex)]
    exact if_pos hport

theorem nbdDevicePath_injective {m n : ℕ} (h : nbdDevicePath m = nbdDevicePath n) : m = n :=
  toString_injective ((String.append_right_inj _).mp h)

/-- **Distinct slots of a host are apart.** -/
theorem describeSlot_apart {s t : ℕ} (hs : s < mostAppsThePortsFit) (ht : t < mostAppsThePortsFit)
    (hne : s ≠ t) (app other : AppId) : (describeSlot s app).Apart (describeSlot t other) := by
  have hfit : mostAppsThePortsFit = 5567 := rfl
  rw [hfit] at hs ht
  have haddress {i j : ℕ} (hij : i ≠ j) : addressAt i ≠ addressAt j :=
    fun h => hij (addressAt_injective h)
  -- the addresses of two slots lie in different blocks
  have hoffsets : ∀ i j, i < addressesPerSlot → j < addressesPerSlot →
      s * addressesPerSlot + i ≠ t * addressesPerSlot + j := by
    intro i j hi hj
    rw [addressesPerSlot] at *
    omega
  constructor
  · intro i j port hi hj
    obtain ⟨hi, -, hport⟩ := hostPortAt_eq_some_iff.mp hi
    obtain ⟨hj, -, hport'⟩ := hostPortAt_eq_some_iff.mp hj
    simp only [describeSlot, portsPerSlot] at *
    omega
  · exact haddress (hoffsets _ _ (by decide) (by decide))
  · exact haddress (hoffsets _ _ (by decide) (by decide))
  · exact haddress (hoffsets _ _ (by decide) (by decide))
  · exact haddress (hoffsets _ _ (by decide) (by decide))
  · intro h
    have hbound {k : ℕ} (hk : k < 5567) :
        k * addressesPerSlot + guestAddressOffset < 2 ^ 16 := by
      rw [addressesPerSlot, guestAddressOffset]
      omega
    exact hoffsets _ _ (by decide) (by decide)
      (macFor_addressAt_injective (hbound hs) (hbound ht) h)
  · exact fun h => hne (toString_injective ((String.append_right_inj _).mp h))
  · exact fun h => hne (nbdDevicePath_injective h)

/-- **Every port of a slot is reserved**, on a host laid out for more slots than that. -/
theorem hostPortAt_mem_reserved {slot maxApps : ℕ} (hslot : slot < maxApps)
    (hfit : maxApps ≤ mostAppsThePortsFit) {index : ℕ} (hindex : index < portsPerSlot) :
    ∃ first last port, reservedPortRange maxApps = some (first, last) ∧
      hostPortAt slot index = some port ∧ first ≤ port ∧ port ≤ last := by
  have hmost : mostAppsThePortsFit = 5567 := rfl
  rw [hmost] at hfit
  have hlast : hostPortBase + maxApps * portsPerSlot - 1 < 2 ^ 16 := by
    rw [hostPortBase, portsPerSlot]
    omega
  refine ⟨hostPortBase, hostPortBase + maxApps * portsPerSlot - 1,
    hostPortBase + slot * portsPerSlot + index, if_pos hlast,
    hostPortAt_eq_some_iff.mpr ⟨hindex, ?_, rfl⟩, ?_, ?_⟩
  all_goals
    simp only [hostPortBase, portsPerSlot] at *
    omega

end Nibrunner
