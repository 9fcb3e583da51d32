import Mathlib.Data.List.DropRight
import Nibrunner.Proxy.HostTold

/-!
# The hops a request is said to have made

A proxy adds its visitor's address to what `X-Forwarded-For` says already, and fills in what is not
said of the visitor's connection.

`keeps_account_iff`: **what was said is kept** exactly if it is said in one header that is text.
Of several headers only the first is read, and one that is no text is not read, while the one that
is written takes the place of them all (`loses_account`).
-/

namespace Nibrunner.Proxy

/-! ### Addresses -/

/-- The address of a peer, a version 6 one by its eight segments. -/
inductive IpAddr where
  | v4 (a b c d : UInt8)
  | v6 (segments : Vector UInt16 8)

namespace IpAddr

def ipv4Text (octets : List UInt8) : List Char :=
  ['.'].intercalate (octets.map fun octet => Nat.toDigits 10 octet.toNat)

def segmentsText (segments : List UInt16) : List Char :=
  [':'].intercalate (segments.map fun segment => Nat.toDigits 16 segment.toNat)

/-- A run of zeroes, by its start and its length. -/
structure Span where
  start : ℕ
  length : ℕ

/-- The first of the longest runs of zeroes: the longest one so far, and the one under way. -/
def longestZeroes : ℕ → Span → Span → List UInt16 → Span
  | _, longest, _, [] => longest
  | index, longest, current, segment :: segments =>
    if segment = 0 then
      let current : Span :=
        ⟨if current.length = 0 then index else current.start, current.length + 1⟩
      longestZeroes (index + 1) (if longest.length < current.length then current else longest)
        current segments
    else longestZeroes (index + 1) longest ⟨0, 0⟩ segments

def ipv6Text (segments : List UInt16) : List Char :=
  match segments with
  | [0, 0, 0, 0, 0, 0xffff, high, low] =>
    "::ffff:".toList ++
      ipv4Text [(high >>> 8).toUInt8, high.toUInt8, (low >>> 8).toUInt8, low.toUInt8]
  | _ =>
    let zeroes := longestZeroes 0 ⟨0, 0⟩ ⟨0, 0⟩ segments
    if 1 < zeroes.length then
      segmentsText (segments.take zeroes.start) ++ [':', ':'] ++
        segmentsText (segments.drop (zeroes.start + zeroes.length))
    else segmentsText segments

def text : IpAddr → String
  | .v4 a b c d => String.ofList (ipv4Text [a, b, c, d])
  | .v6 segments => String.ofList (ipv6Text segments.toList)

/-- A character that addresses are written in. -/
def isAddressChar (c : Char) : Bool :=
  "0123456789abcdef.:".toList.contains c

theorem isAddressChar_of_mem_toDigits {base n : ℕ} {c : Char} (hbase : 1 < base)
    (hle : base ≤ 16) (h : c ∈ Nat.toDigits base n) : isAddressChar c = true := by
  have hdigit : ∀ d < 16, isAddressChar (Nat.digitChar d) = true := by decide
  induction n using Nat.strongRecOn with
  | ind n ih =>
    by_cases hn : n < base
    · rw [Nat.toDigits_of_lt_base hn, List.mem_singleton] at h
      exact h ▸ hdigit n (hn.trans_le hle)
    · have hdiv : n / base < n := Nat.div_lt_self (by omega) hbase
      rw [Nat.toDigits_of_base_le hbase (Nat.le_of_not_lt hn), List.mem_append,
        List.mem_singleton] at h
      rcases h with h | h
      · exact ih _ hdiv h
      · exact h ▸ hdigit _ ((Nat.mod_lt n (by omega)).trans_le hle)

theorem isAddressChar_of_mem_intercalate {α : Type} {parts : List α} {digits : α → List Char}
    {separator c : Char} (hseparator : isAddressChar separator = true)
    (hdigits : ∀ part ∈ parts, ∀ c ∈ digits part, isAddressChar c = true)
    (h : c ∈ [separator].intercalate (parts.map digits)) : isAddressChar c = true := by
  rcases TextLines.eq_or_mem_of_mem_intercalate h with rfl | ⟨text, htext, hc⟩
  · exact hseparator
  · obtain ⟨part, hpart, rfl⟩ := List.mem_map.mp htext
    exact hdigits part hpart c hc

theorem isAddressChar_of_mem_text {address : IpAddr} {c : Char} (h : c ∈ address.text.toList) :
    isAddressChar c = true := by
  have hv4 : ∀ {octets}, c ∈ ipv4Text octets → isAddressChar c = true := fun h =>
    isAddressChar_of_mem_intercalate (by decide)
      (fun _ _ _ hc => isAddressChar_of_mem_toDigits (by decide) (by decide) hc) h
  have hsegments : ∀ {segments}, c ∈ segmentsText segments → isAddressChar c = true := fun h =>
    isAddressChar_of_mem_intercalate (by decide)
      (fun _ _ _ hc => isAddressChar_of_mem_toDigits (by decide) (by decide) hc) h
  cases address with
  | v4 a b c d =>
    rw [text, String.toList_ofList] at h
    exact hv4 h
  | v6 segments =>
    rw [text, String.toList_ofList, ipv6Text.eq_def] at h
    split at h
    · have hmapped : ("::ffff:".toList.all isAddressChar) = true := by decide
      rcases List.mem_append.mp h with h | h
      · exact List.all_eq_true.mp hmapped c h
      · exact hv4 h
    · dsimp only at h
      split at h
      · rcases List.mem_append.mp h with h | h
        · rcases List.mem_append.mp h with h | h
          · exact hsegments h
          · rw [List.mem_pair, or_self] at h
            exact h ▸ rfl
        · exact hsegments h
      · exact hsegments h

end IpAddr

/-! ### What headers say -/

def comma : UInt8 := 44

/-- The spaces and tabs that may stand around a value. -/
def isOptionalSpace (b : UInt8) : Bool := b = 32 || b = 9

/-- The values of a header that lists several. -/
def HeaderValue.elements (value : HeaderValue) : List (List UInt8) :=
  (value.splitOn comma).map fun element =>
    (element.dropWhile isOptionalSpace).rdropWhile isOptionalSpace

/-- The values of all the headers of a name, in their order. -/
def HeaderMap.elements (headers : HeaderMap) (name : String) : List (List UInt8) :=
  (headers.getAll name).flatMap HeaderValue.elements

/-- What was said is kept, and where nothing was one thing is said. -/
def KeptOrFilled (before after : List HeaderValue) : Prop :=
  if before = [] then after.length = 1 else after = before

/-- What the headers said is kept, the peer comes last of the hops, and no other header changes. -/
structure KeepsAccount (before : HeaderMap) (peer : IpAddr) (after : HeaderMap) : Prop where
  hops : after.elements "x-forwarded-for" =
    before.elements "x-forwarded-for" ++ [Bytes.ofText peer.text]
  proto : KeptOrFilled (before.getAll "x-forwarded-proto") (after.getAll "x-forwarded-proto")
  host : KeptOrFilled (before.getAll "x-forwarded-host") (after.getAll "x-forwarded-host")
  others : ∀ name, name ≠ "x-forwarded-for" → name ≠ "x-forwarded-proto" →
    name ≠ "x-forwarded-host" → after.getAll name = before.getAll name

/-- The hops are said in one header at most, and that is text. -/
def SaysHopsOnce (headers : HeaderMap) : Prop :=
  (headers.getAll "x-forwarded-for").length ≤ 1 ∧
    ∀ value ∈ headers.getAll "x-forwarded-for", value.toStr ≠ none

instance (headers : HeaderMap) : Decidable (SaysHopsOnce headers) :=
  inferInstanceAs (Decidable (_ ∧ _))

/-! ### Texts as header values -/

theorem HeaderValue.elements_ne_nil (value : HeaderValue) : value.elements ≠ [] := by
  rw [elements, Ne, List.map_eq_nil_iff]
  exact List.splitOn_ne_nil _ _

/-- A text of what headers may say is told in one, a byte for a character. -/
theorem HeaderValue.fromStr_ofList {chars : List Char}
    (h : ∀ c ∈ chars, c.toNat < 127 ∧ (32 ≤ c.toNat ∨ c.toNat = 9)) :
    HeaderValue.fromStr (String.ofList chars) = some (chars.map fun c => c.val.toUInt8) := by
  have hbytes : Bytes.ofText (String.ofList chars) = chars.map fun c => c.val.toUInt8 :=
    Bytes.ofText_of_ascii fun c hc => Nat.lt_succ_of_lt (h c hc).1
  rw [HeaderValue.fromStr, hbytes, if_pos]
  rw [List.all_map, List.all_eq_true]
  intro c hc
  obtain ⟨hlt, hfrom⟩ := h c hc
  have hnat : c.val.toUInt8.toNat = c.toNat := by
    rw [UInt32.toNat_toUInt8]
    exact Nat.mod_eq_of_lt (Nat.lt_trans hlt (by decide))
  rw [Function.comp, isHeaderByte, Bool.or_eq_true, Bool.and_eq_true, decide_eq_true_iff,
    decide_eq_true_iff, decide_eq_true_iff, ← UInt8.toNat_inj, UInt8.le_iff_toNat_le, Ne,
    ← UInt8.toNat_inj, hnat]
  change (32 ≤ c.toNat ∧ ¬c.toNat = 127) ∨ c.toNat = 9
  omega

/-- A value that is text is the bytes of its text. -/
theorem HeaderValue.toStr_eq_some {value : HeaderValue} {text : String}
    (h : value.toStr = some text) :
    (∀ c ∈ text.toList, c.toNat < 127 ∧ (32 ≤ c.toNat ∨ c.toNat = 9)) ∧
      text.toList.map (fun c => c.val.toUInt8) = value := by
  rw [HeaderValue.toStr] at h
  split at h
  · rename_i hvisible
    rw [List.all_eq_true] at hvisible
    obtain rfl := Option.some.inj h
    rw [String.toList_ofList]
    have hnat : ∀ b : UInt8, (Char.ofNat b.toNat).toNat = b.toNat := by
      intro b
      rw [Char.ofNat, dif_pos (.inl (b.toNat_lt.trans (by decide)))]
      rfl
    refine ⟨?_, ?_⟩
    · rw [List.forall_mem_map]
      intro b hb
      have hbyte := hvisible b hb
      rw [isVisibleAscii, Bool.or_eq_true, Bool.and_eq_true, decide_eq_true_iff,
        decide_eq_true_iff, decide_eq_true_iff, UInt8.le_iff_toNat_le, UInt8.lt_iff_toNat_lt,
        ← UInt8.toNat_inj] at hbyte
      rw [hnat]
      change (32 ≤ b.toNat ∧ b.toNat < 127) ∨ b.toNat = 9 at hbyte
      omega
    · rw [List.map_map]
      refine (List.map_congr_left fun b _ => ?_).trans (List.map_id value)
      apply UInt8.toNat_inj.mp
      exact (UInt32.toNat_toUInt8 _).trans (by
        rw [show (Char.ofNat b.toNat).val.toNat = b.toNat from hnat b]
        exact Nat.mod_eq_of_lt b.toNat_lt)
  · cases h

theorem IpAddr.headerChars (address : IpAddr) :
    ∀ c ∈ address.text.toList, c.toNat < 127 ∧ (32 ≤ c.toNat ∨ c.toNat = 9) := by
  have hchars : ("0123456789abcdef.:".toList.all fun c =>
      c.toNat < 127 ∧ (32 ≤ c.toNat ∨ c.toNat = 9)) = true := by decide
  exact fun c hc => of_decide_eq_true
    (List.all_eq_true.mp hchars c (List.contains_iff_mem.mp (isAddressChar_of_mem_text hc)))

/-- An address is one value, with no space around it. -/
theorem IpAddr.notMem_ofText (address : IpAddr) :
    ∀ b ∈ Bytes.ofText address.text, b ≠ comma ∧ isOptionalSpace b = false := by
  have hchars : ("0123456789abcdef.:".toList.all fun c =>
      c.val.toUInt8 ≠ comma ∧ isOptionalSpace c.val.toUInt8 = false) = true := by decide
  have hbytes : Bytes.ofText (String.ofList address.text.toList) = _ :=
    Bytes.ofText_of_ascii fun c hc => Nat.lt_succ_of_lt (address.headerChars c hc).1
  rw [String.ofList_toList] at hbytes
  rw [hbytes, List.forall_mem_map]
  exact fun c hc => of_decide_eq_true
    (List.all_eq_true.mp hchars c (List.contains_iff_mem.mp (isAddressChar_of_mem_text hc)))

theorem dropWhile_eq_self {bytes : List UInt8} (h : ∀ b ∈ bytes, isOptionalSpace b = false) :
    bytes.dropWhile isOptionalSpace = bytes ∧ bytes.rdropWhile isOptionalSpace = bytes := by
  refine ⟨?_, ?_⟩
  · rw [List.dropWhile_eq_self_iff]
    exact fun hlength => by rw [h _ (List.getElem_mem hlength)]; exact Bool.false_ne_true
  · rw [List.rdropWhile_eq_self_iff]
    exact fun hne => by rw [h _ (List.getLast_mem hne)]; exact Bool.false_ne_true

/-- The peer behind what the first header says, or alone. -/
def travelled (headers : HeaderMap) (peer : IpAddr) : HeaderValue :=
  match (headers.get "x-forwarded-for").filter fun value => value.toStr.isSome with
  | some value => value ++ comma :: 32 :: Bytes.ofText peer.text
  | none => Bytes.ofText peer.text

theorem elements_peer (peer : IpAddr) :
    HeaderValue.elements (Bytes.ofText peer.text) = [Bytes.ofText peer.text] ∧
      ∀ value : HeaderValue,
        HeaderValue.elements (value ++ comma :: 32 :: Bytes.ofText peer.text) =
          value.elements ++ [Bytes.ofText peer.text] := by
  have hpeer := peer.notMem_ofText
  obtain ⟨hfront, hback⟩ := dropWhile_eq_self fun b hb => (hpeer b hb).2
  have hcomma : comma ∉ Bytes.ofText peer.text := fun h => (hpeer comma h).1 rfl
  refine ⟨?_, fun value => ?_⟩
  · rw [HeaderValue.elements, List.splitOn_eq_singleton hcomma, List.map_singleton, hfront, hback]
  · have hspace : comma ∉ 32 :: Bytes.ofText peer.text := by
      rw [List.mem_cons, not_or]
      exact ⟨by decide, hcomma⟩
    rw [HeaderValue.elements, List.splitOn_append_cons_self, List.splitOn_eq_singleton hspace,
      List.map_append, List.map_singleton, List.dropWhile_cons_of_pos (by decide), hfront, hback,
      HeaderValue.elements]

/-! ### What noting the hop does to each header -/

section NoteTheHop

variable (headers : HeaderMap) (peer : IpAddr) (secure : Bool) (hostname : String)

theorem fromStr_travelled :
    HeaderValue.fromStr
        (match (headers.get "x-forwarded-for").bind HeaderValue.toStr with
        | some already => s!"{already}, {peer.text}"
        | none => peer.text) = some (travelled headers peer) := by
  have hpeer : HeaderValue.fromStr peer.text = some (Bytes.ofText peer.text) ∧
      peer.text.toList.map (fun c => c.val.toUInt8) = Bytes.ofText peer.text := by
    have hbytes : Bytes.ofText (String.ofList peer.text.toList) = _ :=
      Bytes.ofText_of_ascii fun c hc => Nat.lt_succ_of_lt (peer.headerChars c hc).1
    have hvalue := HeaderValue.fromStr_ofList peer.headerChars
    rw [String.ofList_toList] at hbytes hvalue
    exact ⟨hbytes ▸ hvalue, hbytes.symm⟩
  rw [travelled]
  cases headers.get "x-forwarded-for" with
  | none => exact hpeer.1
  | some value =>
    rw [Option.bind_some]
    cases htext : value.toStr with
    | none =>
      rw [Option.filter_some, htext]
      exact hpeer.1
    | some already =>
      obtain ⟨hchars, hvalue⟩ := HeaderValue.toStr_eq_some htext
      have hjoined : s!"{already}, {peer.text}" =
          String.ofList (already.toList ++ ',' :: ' ' :: peer.text.toList) := by
        apply String.toList_inj.mp
        rw [String.toList_ofList, String.toList_append, String.toList_append, List.append_assoc]
        rfl
      rw [Option.filter_some, htext]
      dsimp only
      rw [hjoined, HeaderValue.fromStr_ofList, List.map_append, hvalue, List.map_cons,
        List.map_cons, hpeer.2]
      · rfl
      · intro c hc
        rcases List.mem_append.mp hc with hc | hc
        · exact hchars c hc
        · rw [List.mem_cons, List.mem_cons] at hc
          rcases hc with rfl | rfl | hc
          · decide
          · decide
          · exact peer.headerChars c hc

/-- A header that is said where none of its name is. -/
def HeaderMap.fillIn (headers : HeaderMap) (name : String) (value : Option HeaderValue) :
    HeaderMap :=
  if headers.containsKey name then headers else headers.tryInsert name value

theorem noteTheHop_eq : noteTheHop headers peer.text secure hostname =
    ((headers.insert "x-forwarded-for" (travelled headers peer)).fillIn "x-forwarded-proto"
      (some (Bytes.ofText (if secure then "https" else "http")))).fillIn "x-forwarded-host"
        (HeaderValue.fromStr hostname) := by
  have hinsert : headers.insert "x-forwarded-for" (travelled headers peer) =
      headers.tryInsert "x-forwarded-for" (some (travelled headers peer)) := rfl
  rw [hinsert, ← fromStr_travelled]
  rfl

variable {name other : String} {value : Option HeaderValue}

variable {headers} in
theorem getAll_fillIn_of_ne (h : other ≠ name) :
    (headers.fillIn other value).getAll name = headers.getAll name := by
  rw [HeaderMap.fillIn]
  split
  · rfl
  · exact getAll_tryInsert_of_ne h value

variable {headers} in
theorem getAll_fillIn_self : (headers.fillIn name value).getAll name =
    if headers.getAll name = [] then value.toList else headers.getAll name := by
  rw [HeaderMap.fillIn]
  by_cases h : headers.getAll name = []
  · have hnot : ¬headers.containsKey name := fun hcontains =>
      HeaderMap.containsKey_iff.mp hcontains h
    rw [if_neg hnot, if_pos h]
    cases value with
    | none => exact h
    | some value => exact HeaderMap.getAll_insert_self
  · rw [if_pos (HeaderMap.containsKey_iff.mpr h), if_neg h]

theorem keptOrFilled_iff {before : List HeaderValue} : KeptOrFilled before
    (if before = [] then value.toList else before) ↔ (before = [] → value ≠ none) := by
  rw [KeptOrFilled]
  by_cases h : before = []
  · rw [if_pos h, if_pos h]
    cases value <;> simp [h]
  · simp [h]

theorem elements_noteTheHop :
    (noteTheHop headers peer.text secure hostname).elements "x-forwarded-for" =
      (travelled headers peer).elements := by
  rw [HeaderMap.elements, noteTheHop_eq, getAll_fillIn_of_ne (by decide),
    getAll_fillIn_of_ne (by decide), HeaderMap.getAll_insert_self, List.flatMap_singleton]

/-- Nothing of the hops is lost exactly if they are said once, in text. -/
theorem keeps_hops_iff : (travelled headers peer).elements =
    headers.elements "x-forwarded-for" ++ [Bytes.ofText peer.text] ↔ SaysHopsOnce headers := by
  obtain ⟨halone, hbehind⟩ := elements_peer peer
  rw [HeaderMap.elements, SaysHopsOnce, travelled, HeaderMap.get]
  rcases headers.getAll "x-forwarded-for" with _ | ⟨first, others⟩
  · simp [halone]
  · have hfirst := List.length_pos_of_ne_nil first.elements_ne_nil
    cases htext : first.toStr with
    | none =>
      refine iff_of_false (fun h => ?_) fun h => h.2 first List.mem_cons_self htext
      rw [List.head?_cons, Option.filter_some, htext] at h
      have hlength := congrArg List.length (halone.symm.trans h)
      rw [List.flatMap_cons, List.length_append, List.length_append, List.length_singleton]
        at hlength
      omega
    | some text =>
      rw [List.head?_cons, Option.filter_some, htext]
      change (first ++ comma :: 32 :: Bytes.ofText peer.text).elements = _ ↔ _
      rw [hbehind, List.flatMap_cons]
      cases others with
      | nil => simp [htext]
      | cons second others =>
        have hsecond := List.length_pos_of_ne_nil second.elements_ne_nil
        refine iff_of_false (fun h => ?_) fun h => absurd h.1 (by simp)
        have hlength := congrArg List.length h
        rw [List.flatMap_cons, List.length_append, List.length_append, List.length_append,
          List.length_append] at hlength
        omega

end NoteTheHop

/-- The account of a request's hops is kept exactly if it is said in one header at most, which is
text, and the name the request is for can be told or is told already. -/
theorem keeps_account_iff (headers : HeaderMap) (peer : IpAddr) (secure : Bool)
    (hostname : String) :
    KeepsAccount headers peer (noteTheHop headers peer.text secure hostname) ↔
      SaysHopsOnce headers ∧
        (headers.getAll "x-forwarded-host" = [] → HeaderValue.fromStr hostname ≠ none) := by
  have hhops := elements_noteTheHop headers peer secure hostname
  have hproto : KeptOrFilled (headers.getAll "x-forwarded-proto")
      ((noteTheHop headers peer.text secure hostname).getAll "x-forwarded-proto") := by
    rw [noteTheHop_eq, getAll_fillIn_of_ne (by decide), getAll_fillIn_self,
      HeaderMap.getAll_insert_of_ne (by decide), keptOrFilled_iff]
    exact fun _ => Option.some_ne_none _
  have hhost : KeptOrFilled (headers.getAll "x-forwarded-host")
      ((noteTheHop headers peer.text secure hostname).getAll "x-forwarded-host") ↔
        (headers.getAll "x-forwarded-host" = [] → HeaderValue.fromStr hostname ≠ none) := by
    rw [noteTheHop_eq, getAll_fillIn_self, getAll_fillIn_of_ne (by decide),
      HeaderMap.getAll_insert_of_ne (by decide), keptOrFilled_iff]
  rw [← keeps_hops_iff headers peer, ← hhops, ← hhost]
  constructor
  · rintro ⟨hhops, -, hkept, -⟩
    exact ⟨hhops, hkept⟩
  · rintro ⟨hhops, hkept⟩
    refine ⟨hhops, hproto, hkept, fun name hfor hproto hhost => ?_⟩
    exact getAll_noteTheHop (Ne.symm hfor) (Ne.symm hproto) (Ne.symm hhost) _ _ _ _

/-- Of two headers the second is lost. -/
theorem loses_account :
    ¬KeepsAccount
      [("x-forwarded-for", Bytes.ofText "203.0.113.7"),
        ("x-forwarded-for", Bytes.ofText "10.0.0.1")]
      (.v4 127 0 0 1)
      (noteTheHop
        [("x-forwarded-for", Bytes.ofText "203.0.113.7"),
          ("x-forwarded-for", Bytes.ofText "10.0.0.1")]
        (IpAddr.text (.v4 127 0 0 1)) true "app-1.apps.example.com") := by
  intro h
  have hhops := h.hops
  revert hhops
  decide +kernel

end Nibrunner.Proxy
