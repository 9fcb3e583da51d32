import Nibrunner.Guest.Filesystem

/-!
# The guest reads what the host wrote

* `Cursor.past`: a cursor between what was read and what is left, with one lemma for each reader
  that says how it moves on over what the host wrote.
* `decodeRequest_of_bodyOf`: a body is read back as its request, verb by verb.
* `requests_round_trip`: the three results together. A request that fits comes back from its own
  encoding; every request of valid paths and of no more content than a chunk fits; and every reader
  of the protocol, on either side, ends on any bytes at all.

The readers' `ends_` lemmas are the last of these one reader at a time; `ends_entriesFrom` is the
one with a loop in it, whose rounds suffice because each moves the offset on.
-/

namespace Nibrunner.GuestFilesystem

open Checked

/-! ### Reading on from what was read -/

namespace Cursor

/-- A cursor between what was read and what is left. -/
def past (front rest : List UInt8) : Cursor := { body := front ++ rest, position := front.length }

theorem new_eq_past (body : List UInt8) : new body = past [] body := rfl

variable {front rest : List UInt8} (reason : String)

theorem take_past {bytes : List UInt8}
    (hsmall : front.length + (bytes.length + rest.length) < 2 ^ 64) :
    (past front (bytes ++ rest)).take bytes.length reason =
      .ok (bytes, past (front ++ bytes) rest) := by
  have hbody : front ++ (bytes ++ rest) = front ++ bytes ++ rest := (List.append_assoc ..).symm
  have hlength : (front ++ bytes ++ rest).length = front.length + bytes.length + rest.length := by
    rw [List.length_append, List.length_append]
  rw [take, past, hbody, refuse_of_not (by show ¬2 ^ 64 ≤ front.length + bytes.length; omega),
    ok_bind, refuse_of_not (by simp), ok_bind, slice_append, ok_bind, past, List.length_append]
  rfl

theorem number_past (width n : ℕ) (hsmall : front.length + (width + rest.length) < 2 ^ 64) :
    (past front (Bytes.toBe width n ++ rest)).number width reason =
      .ok (n % 256 ^ width, past (front ++ Bytes.toBe width n) rest) := by
  have htake := @take_past front rest reason (Bytes.toBe width n)
    (by rw [Bytes.length_toBe]; exact hsmall)
  rw [Bytes.length_toBe] at htake
  rw [number, htake]
  show (refuse ((Bytes.toBe width n).length ≠ width) _ >>= fun _ => _) = _
  rw [refuse_of_not (by simp), ok_bind, Bytes.ofBe_toBe, pure_eq]

theorem field_past {value : List UInt8} (hvalue : value.length < 2 ^ 32)
    (hsmall : front.length + (4 + value.length + rest.length) < 2 ^ 64) :
    (past front (GuestFilesystem.field value ++ rest)).field reason =
      .ok (value, past (front ++ GuestFilesystem.field value) rest) := by
  have hmod : value.length % 256 ^ 4 = value.length := Nat.mod_eq_of_lt hvalue
  rw [field, GuestFilesystem.field, List.append_assoc, number_past, ok_bind, hmod]
  · show (past (front ++ Bytes.toBe 4 value.length) (value ++ rest)).take value.length reason = _
    rw [take_past, List.append_assoc]
    rw [List.length_append, Bytes.length_toBe]
    omega
  · rw [List.length_append]
    omega

theorem path_past (path : GuestPath)
    (hsmall : front.length + ((pathField path).length + rest.length) < 2 ^ 64) :
    (past front (pathField path ++ rest)).path reason =
      .ok (path, past (front ++ pathField path) rest) := by
  have hsize := path.size_le
  have hlength : (pathField path).length = 4 + path.text.utf8ByteSize := by
    rw [pathField, GuestFilesystem.field, List.length_append, Bytes.length_toBe,
      Bytes.length_ofText]
  rw [maxGuestPathLength] at hsize
  rw [Cursor.path, pathField, field_past, ok_bind]
  · simp only [Bytes.toText?_ofText, okOr_some, ok_bind, GuestPath.parse?_text]
    rfl
  · rw [Bytes.length_ofText]
    omega
  · rw [Bytes.length_ofText]
    omega

theorem offset_past (offset : UInt64) (hsmall : front.length + (8 + rest.length) < 2 ^ 64) :
    (past front (Bytes.toBe 8 offset.toNat ++ rest)).offset reason =
      .ok (offset, past (front ++ Bytes.toBe 8 offset.toNat) rest) := by
  have hmod : offset.toNat % 256 ^ 8 = offset.toNat := Nat.mod_eq_of_lt offset.toNat_lt
  rw [Cursor.offset, number_past _ _ _ hsmall, hmod]
  show Checked.ok (UInt64.ofNat offset.toNat, _) = _
  rw [UInt64.ofNat_toNat]

theorem length_past (length : UInt32) (hsmall : front.length + (4 + rest.length) < 2 ^ 64) :
    (past front (Bytes.toBe 4 length.toNat ++ rest)).length reason =
      .ok (length, past (front ++ Bytes.toBe 4 length.toNat) rest) := by
  have hmod : length.toNat % 256 ^ 4 = length.toNat := Nat.mod_eq_of_lt length.toNat_lt
  rw [Cursor.length, number_past _ _ _ hsmall, hmod]
  show Checked.ok (UInt32.ofNat length.toNat, _) = _
  rw [UInt32.ofNat_toNat]

theorem byte_past (byte : UInt8) (hsmall : front.length + (1 + rest.length) < 2 ^ 64) :
    (past front ([byte] ++ rest)).byte reason = .ok (byte, past (front ++ [byte]) rest) := by
  rw [Cursor.byte]
  have htake := @take_past front rest reason [byte] hsmall
  rw [List.length_singleton] at htake
  rw [htake]
  rfl

end Cursor

/-! ### A body comes back as its request -/

@[simp] theorem length_field (value : List UInt8) : (field value).length = 4 + value.length := by
  rw [field, List.length_append, Bytes.length_toBe]

theorem length_pathField (path : GuestPath) :
    (pathField path).length = 4 + path.text.utf8ByteSize := by
  rw [pathField, length_field, Bytes.length_ofText]

/-- A path with nothing behind it. -/
theorem path_alone (reason : String) (path : GuestPath)
    (hsmall : (pathField path).length < 2 ^ 64) :
    (Cursor.past [] (pathField path)).path reason =
      .ok (path, Cursor.past (pathField path) []) := by
  have h := @Cursor.path_past [] [] reason path (by simpa using hsmall)
  rwa [List.append_nil] at h

/-- **A body is read back as its request.** -/
theorem decodeRequest_of_bodyOf {request : GuestFilesystemRequest}
    (hfits : fitsOneRequest request = true) :
    decodeRequest ⟨request.verb, (bodyOf request).length⟩ (bodyOf request) = .ok request := by
  have hlength : (bodyOf request).length ≤ 65536 := of_decide_eq_true hfits
  rw [decodeRequest, refuse_of_not (fun h => h rfl), ok_bind, Cursor.new_eq_past]
  -- a verb's fields are read in the order its body writes them; what is left to show each time is
  -- that no position leaves 64 bits
  cases request with
  | usage => rfl
  | compute => rfl
  | list path | stat path | makeDirectory path | remove path =>
    have hsmall : (pathField path).length < 2 ^ 64 := Nat.lt_of_le_of_lt hlength (by decide)
    show ((Cursor.past [] (pathField path)).path _ >>= fun _ => _) = _
    rw [path_alone _ path hsmall]
    rfl
  | move path destination =>
    have hbody : bodyOf (.move path destination) =
        pathField path ++ (pathField destination ++ []) := by rw [bodyOf, List.append_nil]
    rw [hbody] at hlength ⊢
    simp only [List.length_append, List.length_nil] at hlength
    show ((Cursor.past [] _).path _ >>= fun _ => _) = _
    rw [Cursor.path_past]
    · show ((Cursor.past _ _).path _ >>= fun _ => _) = _
      rw [Cursor.path_past]
      · rfl
      · simp only [List.length_append, List.length_nil]
        omega
    · simp only [List.length_append, List.length_nil]
      omega
  | read path offset length =>
    have hbody : bodyOf (.read path offset length) =
        pathField path ++ (Bytes.toBe 8 offset.toNat ++ (Bytes.toBe 4 length.toNat ++ [])) := by
      rw [bodyOf, List.append_nil, List.append_assoc]
    rw [hbody] at hlength ⊢
    simp only [List.length_append, List.length_nil, Bytes.length_toBe] at hlength
    show ((Cursor.past [] _).path _ >>= fun _ => _) = _
    rw [Cursor.path_past]
    · show ((Cursor.past _ _).offset _ >>= fun _ => _) = _
      rw [Cursor.offset_past]
      · show ((Cursor.past _ _).length _ >>= fun _ => _) = _
        rw [Cursor.length_past]
        · rfl
        · simp only [List.length_append, List.length_nil, Bytes.length_toBe]
          omega
      · simp only [List.length_append, List.length_nil, Bytes.length_toBe]
        omega
    · simp only [List.length_append, List.length_nil, Bytes.length_toBe]
      omega
  | write path offset content truncate =>
    have hbody : bodyOf (.write path offset content truncate) =
        pathField path ++ (Bytes.toBe 8 offset.toNat ++
          ([if truncate then truncateFlag else noFlags] ++ (field content ++ []))) := by
      rw [bodyOf, List.append_nil, List.append_assoc, List.append_assoc]
    rw [hbody] at hlength ⊢
    simp only [List.length_append, List.length_nil, List.length_singleton, Bytes.length_toBe,
      length_field] at hlength
    show ((Cursor.past [] _).path _ >>= fun _ => _) = _
    rw [Cursor.path_past]
    · show ((Cursor.past _ _).offset _ >>= fun _ => _) = _
      rw [Cursor.offset_past]
      · show ((Cursor.past _ _).byte _ >>= fun _ => _) = _
        rw [Cursor.byte_past]
        · show ((Cursor.past _ _).field _ >>= fun _ => _) = _
          rw [Cursor.field_past]
          · cases truncate <;> rfl
          · omega
          · simp only [List.length_append, List.length_nil, List.length_singleton,
              Bytes.length_toBe]
            omega
        · simp only [List.length_append, List.length_nil, Bytes.length_toBe, length_field]
          omega
      · simp only [List.length_append, List.length_nil, List.length_singleton, length_field]
        omega
    · simp only [List.length_append, List.length_nil, List.length_singleton, Bytes.length_toBe,
        length_field]
      omega

/-! ### A frame comes apart where its header ends -/

/-- The header of a frame. -/
def headerOf (code : UInt8) (bodyLength : ℕ) : List UInt8 :=
  frameMagic ++ [code] ++ Bytes.toBe 4 bodyLength

theorem length_headerOf (code : UInt8) (bodyLength : ℕ) :
    (headerOf code bodyLength).length = frameHeaderBytes := by
  rw [headerOf, List.length_append, Bytes.length_toBe]
  rfl

/-- A header is read back where the length fits. -/
theorem decodeFrameHeader_headerOf {ε : Type} (refusal : String → ε) (code : UInt8) {n : ℕ}
    (hn : n ≤ bodyMaxBytes) :
    decodeFrameHeader refusal (headerOf code n) = .ok { code := code, bodyLength := n } := by
  have hvalue : Bytes.ofBe (Bytes.toBe 4 n) = n :=
    Bytes.ofBe_toBe_of_lt (Nat.lt_of_le_of_lt hn (by decide))
  have hlength := length_headerOf code n
  obtain ⟨b0, b1, b2, b3, hbytes⟩ : ∃ b0 b1 b2 b3, Bytes.toBe 4 n = [b0, b1, b2, b3] := by
    have h4 := Bytes.length_toBe 4 n
    match Bytes.toBe 4 n, h4 with
    | [b0, b1, b2, b3], _ => exact ⟨b0, b1, b2, b3, rfl⟩
  have hmagic : headerOf code n = frameMagic ++ code :: Bytes.toBe 4 n := by
    rw [headerOf, List.append_assoc]
    rfl
  rw [decodeFrameHeader, refuse_of_not (not_not_intro hlength), ok_bind,
    slice_of_le (by decide) (by rw [hlength]; decide), ok_bind, hmagic]
  show (refuse ((frameMagic ++ code :: Bytes.toBe 4 n).take frameMagic.length ≠ frameMagic) _ >>=
    fun _ => _) = _
  rw [List.take_left, refuse_of_not (not_not_intro rfl), ok_bind, hbytes]
  rw [hbytes] at hvalue
  show (refuse (bodyMaxBytes < Bytes.ofBe [b0, b1, b2, b3]) _ >>= fun _ =>
    .ok (FrameHeader.mk code (Bytes.ofBe [b0, b1, b2, b3]))) = _
  rw [hvalue, refuse_of_not (Nat.not_lt.mpr hn), ok_bind]

/-- **A request comes back** from the two parts of its own encoding. -/
theorem decode_encodeRequest {request : GuestFilesystemRequest}
    (hfits : fitsOneRequest request = true) :
    ∃ header, decodeRequestHeader ((encodeRequest request).take frameHeaderBytes) = .ok header ∧
      decodeRequest header ((encodeRequest request).drop frameHeaderBytes) = .ok request := by
  have hsize : (bodyOf request).length ≤ bodyMaxBytes := of_decide_eq_true hfits
  have hlength := length_headerOf request.verb (bodyOf request).length
  have htake : (encodeRequest request).take frameHeaderBytes =
      headerOf request.verb (bodyOf request).length := List.take_left' hlength
  have hdrop : (encodeRequest request).drop frameHeaderBytes = bodyOf request :=
    List.drop_left' hlength
  refine ⟨⟨request.verb, (bodyOf request).length⟩, ?_, ?_⟩
  · rw [htake, decodeRequestHeader, decodeFrameHeader_headerOf _ _ hsize]
  · rw [hdrop, decodeRequest_of_bodyOf hfits]

/-- The content a request carries. -/
def GuestFilesystemRequest.content : GuestFilesystemRequest → List UInt8
  | write _ _ content _ => content
  | _ => []

/-- **Every request fits** that carries no more than a chunk. -/
theorem fitsOneRequest_of_chunk {request : GuestFilesystemRequest}
    (hcontent : request.content.length ≤ guestFilesystemChunkBytes) :
    fitsOneRequest request = true := by
  have hpath (path : GuestPath) : (pathField path).length ≤ 4100 := by
    have := path.size_le
    rw [maxGuestPathLength] at this
    rw [length_pathField]
    omega
  rw [fitsOneRequest, decide_eq_true_eq, bodyMaxBytes]
  cases request with
  | usage | compute => exact Nat.zero_le _
  | list path | stat path | makeDirectory path | remove path =>
    exact (hpath path).trans (by decide)
  | move path destination =>
    have := hpath path
    have := hpath destination
    rw [bodyOf, List.length_append]
    omega
  | read path offset length =>
    have := hpath path
    simp only [bodyOf, List.length_append, Bytes.length_toBe]
    omega
  | write path offset content truncate =>
    have := hpath path
    have hcontent : content.length ≤ 32768 := hcontent
    simp only [bodyOf, List.length_append, List.length_singleton, Bytes.length_toBe, length_field]
    omega

/-! ### Every reader ends -/

section Ends

variable {ε : Type}

theorem ends_decodeFrameHeader (refusal : String → ε) (header : List UInt8) :
    (decodeFrameHeader refusal header).Ends := by
  refine (ends_refuse _ _).bind fun _ hlength => ?_
  have hlength : header.length = 9 := Decidable.of_not_not (refuse_eq_ok_iff.mp hlength)
  refine (ends_slice (by decide) (by omega)).bind fun _ _ => ?_
  refine (ends_refuse _ _).bind fun _ _ => ?_
  refine (ends_index (by rw [hlength]; decide)).bind fun _ _ => ?_
  refine (ends_index (by rw [hlength]; decide)).bind fun _ _ => ?_
  refine (ends_index (by rw [hlength]; decide)).bind fun _ _ => ?_
  refine (ends_index (by rw [hlength]; decide)).bind fun _ _ => ?_
  refine (ends_refuse _ _).bind fun _ _ => ?_
  exact (ends_index (by rw [hlength]; decide)).bind fun _ _ => ends_ok _

theorem ends_u64At {body : List UInt8} {offset : ℕ} (h : offset + 8 ≤ body.length) :
    (u64At body offset : Checked ε UInt64).Ends :=
  (ends_slice (Nat.le_add_right _ _) h).bind fun _ _ => ends_ok _

/-- What the time library is relied on for: an instant is rendered in ASCII, a year of at least
four digits before fields of a fixed width. -/
def RendersInstants (render : ℤ → String) : Prop :=
  ∀ epochMs, (∀ c ∈ (render epochMs).toList, c.toNat < 128) ∧ 24 ≤ (render epochMs).toList.length

/-- The first bytes of a text of ASCII are its first characters. -/
theorem textPrefix_of_ascii {chars : List Char} (hascii : ∀ c ∈ chars, c.toNat < 128) {bytes : ℕ}
    (hlong : bytes ≤ chars.length) :
    (textPrefix (String.ofList chars) bytes : Checked ε String) =
      .ok (String.ofList (chars.take bytes)) := by
  have hbytes := Bytes.ofText_of_ascii hascii
  have hfront : (Bytes.ofText (String.ofList chars)).take bytes =
      Bytes.ofText (String.ofList (chars.take bytes)) := by
    rw [hbytes, Bytes.ofText_of_ascii fun c hc => hascii c (List.mem_of_mem_take hc),
      List.map_take]
  rw [textPrefix, slice_zero (by rw [hbytes, List.length_map]; exact hlong), ok_bind, hfront]
  simp only [Bytes.toText?_ofText]
  rfl

theorem ends_textPrefix {text : String} (hascii : ∀ c ∈ text.toList, c.toNat < 128) {bytes : ℕ}
    (hlong : bytes ≤ text.toList.length) : (textPrefix text bytes : Checked ε String).Ends := by
  have h := textPrefix_of_ascii (ε := ε) hascii hlong
  rw [String.ofList_toList] at h
  rw [h]
  exact ends_ok _

theorem epochTimestamp_eq :
    (epochTimestamp : Checked ε Timestamp) = .ok ⟨"1970-01-01T00:00:00Z"⟩ := by
  have hparsed : Timestamp.parse? "1970-01-01T00:00:00Z" = some ⟨"1970-01-01T00:00:00Z"⟩ := by
    decide
  rw [epochTimestamp, hparsed]

variable {render : ℤ → String} (hrender : RendersInstants render)
include hrender

theorem ends_timestampFrom (seconds : ℤ) :
    (timestampFrom render seconds : Checked ε Timestamp).Ends := by
  have hepoch : (epochTimestamp : Checked ε Timestamp).Ends := by
    rw [epochTimestamp_eq]
    exact ends_ok _
  rw [timestampFrom]
  split
  · refine Ends.bind ?_ fun instant _ => ?_
    · rw [chronoSeconds]
      split
      · exact ends_ok _
      · obtain ⟨hascii, hlong⟩ := hrender (seconds * 1000)
        exact (ends_textPrefix hascii (Nat.le_trans (by decide) hlong)).bind fun _ _ => ends_ok _
    · cases instant with
      | some instant => exact ends_ok _
      | none => exact hepoch
  · exact hepoch

theorem ends_detailsAt {body : List UInt8} {offset : ℕ} (h : offset + 17 ≤ body.length) :
    (detailsAt render body offset : Checked ε FilesystemDetails).Ends := by
  refine (ends_index (by omega)).bind fun _ _ => ?_
  refine (ends_u64At (by omega)).bind fun _ _ => ?_
  refine (ends_u64At (by omega)).bind fun _ _ => ?_
  exact (ends_timestampFrom hrender _).bind fun _ _ => ends_ok _

end Ends

/-- The name of an entry is found in the body or missed: the next offset is further on, and the
entry's details are in front of it. -/
theorem ends_entryName (body : List UInt8) (offset : ℕ) : (entryName body offset).Ends := by
  refine (ends_refuse _ _).bind fun _ hlong => ?_
  have hlong := refuse_eq_ok_iff.mp hlong
  refine (ends_index (by omega)).bind fun nameLength _ => ?_
  refine (ends_refuse _ _).bind fun _ hname => ?_
  have hname := not_or.mp (refuse_eq_ok_iff.mp hname)
  exact (ends_slice (Nat.le_add_right _ _) (by omega)).bind fun _ _ => ends_ok _

theorem next_of_entryName {body : List UInt8} {offset : ℕ} {name : String} {next : ℕ}
    (h : entryName body offset = .ok (name, next)) :
    offset < next ∧ next ≤ body.length ∧ offset + detailsBytes ≤ body.length := by
  obtain ⟨_, hlong, h⟩ := bind_eq_ok_iff.mp h
  obtain ⟨nameLength, _, h⟩ := bind_eq_ok_iff.mp h
  obtain ⟨_, hname, h⟩ := bind_eq_ok_iff.mp h
  obtain ⟨_, _, h⟩ := bind_eq_ok_iff.mp h
  have hlong := refuse_eq_ok_iff.mp hlong
  have hname := not_or.mp (refuse_eq_ok_iff.mp hname)
  cases h
  refine ⟨?_, ?_, ?_⟩ <;> omega

/-- The rounds of the loop suffice: each moves the offset on. -/
theorem ends_entriesFrom {render : ℤ → String} (hrender : RendersInstants render)
    (body : List UInt8) (atRoot : Bool) {rounds offset : ℕ} (entries : List FilesystemEntry)
    (truncated : Bool) (hoffset : offset ≤ body.length)
    (hrounds : body.length < offset + rounds) :
    (entriesFrom render body atRoot rounds offset entries truncated).Ends := by
  induction rounds generalizing offset entries with
  | zero => omega
  | succ rounds ih =>
    rw [entriesFrom]
    split
    · refine (ends_entryName body offset).bind fun ⟨name, next⟩ hentry => ?_
      obtain ⟨hnext, hend, hdetails⟩ := next_of_entryName hentry
      simp only
      split
      · exact ends_ok _
      · split
        · exact ih entries hend (by omega)
        · refine (ends_detailsAt hrender hdetails).bind fun details _ => ?_
          exact ih _ hend (by omega)
    · exact ends_ok _

theorem ends_decodeListing {render : ℤ → String} (hrender : RendersInstants render)
    (body : List UInt8) (path : GuestPath) : (decodeListing render body path).Ends := by
  refine (ends_refuse _ _).bind fun _ hne => ?_
  have hpos : 0 < body.length := List.length_pos_iff.mpr (refuse_eq_ok_iff.mp hne)
  refine (ends_index hpos).bind fun _ _ => ?_
  exact (ends_entriesFrom hrender body _ [] _ hpos (by omega)).bind fun _ _ => ends_ok _

namespace Cursor

variable (cursor : Cursor) (reason : String)

theorem ends_take (count : ℕ) : (cursor.take count reason).Ends := by
  refine (ends_refuse _ _).bind fun _ _ => ?_
  refine (ends_refuse _ _).bind fun _ hlong => ?_
  have hlong := Nat.le_of_not_lt (refuse_eq_ok_iff.mp hlong)
  exact (ends_slice (Nat.le_add_right _ _) hlong).bind fun _ _ => ends_ok _

theorem length_of_take {cursor : Cursor} {count : ℕ} {bytes : List UInt8} {cursor' : Cursor}
    (h : cursor.take count reason = .ok (bytes, cursor')) : bytes.length = count := by
  obtain ⟨_, _, h⟩ := bind_eq_ok_iff.mp h
  obtain ⟨_, hlong, h⟩ := bind_eq_ok_iff.mp h
  have hlong := Nat.le_of_not_lt (refuse_eq_ok_iff.mp hlong)
  rw [slice_of_le (Nat.le_add_right _ _) hlong] at h
  cases h
  rw [List.length_take, List.length_drop]
  omega

theorem ends_number (width : ℕ) : (cursor.number width reason).Ends :=
  (cursor.ends_take reason width).bind fun _ _ => (ends_refuse _ _).bind fun _ _ => ends_ok _

theorem ends_field : (cursor.field reason).Ends :=
  (cursor.ends_number reason 4).bind fun _ _ => ends_take _ reason _

theorem ends_path : (cursor.path reason).Ends :=
  (cursor.ends_field reason).bind fun _ _ => (ends_okOr _ _).bind fun _ _ =>
    (ends_okOr _ _).bind fun _ _ => ends_ok _

theorem ends_offset : (cursor.offset reason).Ends :=
  (cursor.ends_number reason 8).bind fun _ _ => ends_ok _

theorem ends_length : (cursor.length reason).Ends :=
  (cursor.ends_number reason 4).bind fun _ _ => ends_ok _

theorem ends_byte : (cursor.byte reason).Ends := by
  refine (cursor.ends_take reason 1).bind fun ⟨bytes, _⟩ htake => ?_
  have hone := length_of_take reason htake
  exact (ends_index (by rw [hone]; decide)).bind fun _ _ => ends_ok _

end Cursor

theorem ends_decodeRequest (header : FrameHeader) (body : List UInt8) :
    (decodeRequest header body).Ends := by
  refine (ends_refuse _ _).bind fun _ _ => ?_
  have hpath (cursor : Cursor) (reason : String) {f : GuestPath × Cursor → _}
      (hf : ∀ next, (f next).Ends) :
      (cursor.path reason >>= f : Checked MalformedRequest GuestFilesystemRequest).Ends :=
    (cursor.ends_path reason).bind fun next _ => hf next
  repeat' split
  · exact hpath _ _ fun _ => ends_ok _
  · exact hpath _ _ fun _ => ends_ok _
  · refine hpath _ _ fun _ => ?_
    refine (Cursor.ends_offset _ _).bind fun _ _ => ?_
    exact (Cursor.ends_length _ _).bind fun _ _ => ends_ok _
  · refine hpath _ _ fun _ => ?_
    refine (Cursor.ends_offset _ _).bind fun _ _ => ?_
    refine (Cursor.ends_byte _ _).bind fun _ _ => ?_
    exact (Cursor.ends_field _ _).bind fun _ _ => ends_ok _
  · exact hpath _ _ fun _ => ends_ok _
  · exact hpath _ _ fun _ => ends_ok _
  · exact hpath _ _ fun _ => hpath _ _ fun _ => ends_ok _
  · exact ends_ok _
  · exact ends_ok _
  · exact ends_error _

theorem ends_decodeDetails {render : ℤ → String} (hrender : RendersInstants render)
    (body : List UInt8) : (decodeDetails render body).Ends := by
  refine (ends_refuse _ _).bind fun _ hlong => ends_detailsAt hrender ?_
  exact Nat.le_of_not_lt (refuse_eq_ok_iff.mp hlong)

theorem ends_decodeWritten (body : List UInt8) : (decodeWritten body).Ends := by
  refine (ends_refuse _ _).bind fun _ hlong => ?_
  have hlong := Nat.le_of_not_lt (refuse_eq_ok_iff.mp hlong)
  refine (ends_index (by omega)).bind fun _ _ => ?_
  refine (ends_index (by omega)).bind fun _ _ => ?_
  refine (ends_index (by omega)).bind fun _ _ => ?_
  exact (ends_index (by omega)).bind fun _ _ => ends_ok _

theorem ends_decodeUsage (body : List UInt8) : (decodeUsage body).Ends := by
  refine (ends_refuse _ _).bind fun _ hlong => ?_
  have hlong := Nat.le_of_not_lt (refuse_eq_ok_iff.mp hlong)
  refine (ends_u64At (by omega)).bind fun _ _ => ?_
  exact (ends_u64At (by omega)).bind fun _ _ => ends_ok _

theorem ends_decodeCompute (body : List UInt8) : (decodeCompute body).Ends := by
  refine (ends_refuse _ _).bind fun _ hlong => ?_
  have hlong := Nat.le_of_not_lt (refuse_eq_ok_iff.mp hlong)
  refine (ends_u64At (by omega)).bind fun _ _ => ?_
  refine (ends_u64At (by omega)).bind fun _ _ => ?_
  refine (ends_u64At (by omega)).bind fun _ _ => ?_
  exact (ends_u64At (by omega)).bind fun _ _ => ends_ok _

/-! ### Requests -/

/-- **Requests round trip and reading is total**: a request that fits one frame is read back from
the nine header bytes and the rest of its encoding; a request of valid paths that carries no more
than a chunk fits; and on any bytes every reader ends in a value or in an error. -/
theorem requests_round_trip {render : ℤ → String} (hrender : RendersInstants render) :
    (∀ request, fitsOneRequest request = true →
      ∃ header, decodeRequestHeader ((encodeRequest request).take frameHeaderBytes) = .ok header ∧
        decodeRequest header ((encodeRequest request).drop frameHeaderBytes) = .ok request) ∧
    (∀ request : GuestFilesystemRequest,
      request.content.length ≤ guestFilesystemChunkBytes → fitsOneRequest request = true) ∧
    (∀ bytes, (decodeRequestHeader bytes).Ends ∧ (decodeHeader bytes).Ends) ∧
    (∀ header body, (decodeRequest header body).Ends) ∧
    (∀ body, (decodeDetails render body).Ends ∧ (decodeUsage body).Ends ∧
      (decodeCompute body).Ends ∧ (decodeWritten body).Ends) ∧
    (∀ body path, (decodeListing render body path).Ends) := by
  refine ⟨fun _ => decode_encodeRequest, fun _ => fitsOneRequest_of_chunk, fun bytes => ?_,
    ends_decodeRequest, fun body => ?_, ends_decodeListing hrender⟩
  · exact ⟨ends_decodeFrameHeader _ bytes, ends_decodeFrameHeader _ bytes⟩
  · exact ⟨ends_decodeDetails hrender body, ends_decodeUsage body, ends_decodeCompute body,
      ends_decodeWritten body⟩

/-- The root of a guest's volume. -/
def rootPath : GuestPath := ⟨"/", by decide⟩

/-- A clock that stands at the epoch. -/
def renderEpoch : ℤ → String := fun _ => "1970-01-01T00:00:00.000Z"

theorem requests_round_trip_epoch :
    (∃ header, decodeRequestHeader ((encodeRequest (.list rootPath)).take frameHeaderBytes) =
        .ok header ∧
      decodeRequest header ((encodeRequest (.list rootPath)).drop frameHeaderBytes) =
        .ok (.list rootPath)) ∧
    fitsOneRequest (.write rootPath 0 [1, 2, 3] true) = true ∧
    (decodeDetails renderEpoch (List.replicate 17 0)).Ends := by
  have hrender : RendersInstants renderEpoch := by
    have hall : ("1970-01-01T00:00:00.000Z".toList.all fun c => decide (c.toNat < 128)) = true := by
      decide
    have hlong : 24 ≤ "1970-01-01T00:00:00.000Z".toList.length := by decide
    exact fun _ => ⟨fun c hc => of_decide_eq_true (List.all_eq_true.mp hall c hc), hlong⟩
  obtain ⟨hround, hfits, -, -, hends, -⟩ := requests_round_trip hrender
  exact ⟨hround _ (by decide), hfits _ (by decide), (hends _).1⟩

end Nibrunner.GuestFilesystem
