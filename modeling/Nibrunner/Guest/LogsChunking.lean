import Nibrunner.Guest.Logs

/-!
# A log does not depend on how it is read

The decoder of log frames is a `StreamReader`: what a round of its loop said of some bytes it says
again when more have come (`nextFrame_cases` lists what it can say). So a connection is read as
the same frames however the socket cuts it.

* `chunking_independent`: a stream of encoded frames is read as these frames, and never more than
  the start of one is left over; of a stream of any bytes every cut gives the same, but that the
  frames which came in the chunk an error is in are lost.
-/

namespace Nibrunner.GuestLogs

open Checked

/-! ### One frame -/

/-- The header of a frame. -/
def headerOf (kind : UInt8) (length : ℕ) : List UInt8 := frameMagic ++ [kind] ++ Bytes.toBe 4 length

theorem encodeFrame_eq (kind : UInt8) (payload : List UInt8) :
    encodeFrame kind payload = headerOf kind payload.length ++ payload := rfl

theorem length_headerOf (kind : UInt8) (length : ℕ) :
    (headerOf kind length).length = frameHeaderBytes := by
  rw [headerOf, List.length_append, Bytes.length_toBe]
  rfl

theorem length_encodeFrame (kind : UInt8) (payload : List UInt8) :
    (encodeFrame kind payload).length = frameHeaderBytes + payload.length := by
  rw [encodeFrame_eq, List.length_append, length_headerOf]

/-- A header is read as the length that was written in it. -/
theorem payloadLength_headerOf {kind : UInt8} {length : ℕ} (h : length ≤ maxFramePayloadBytes) :
    payloadLength (headerOf kind length) = .ok length := by
  have hsmall : length < 2 ^ 32 := Nat.lt_of_le_of_lt h (by decide)
  have hvalue : Bytes.ofBe (Bytes.toBe 4 length) = length := Bytes.ofBe_toBe_of_lt hsmall
  have hfour := Bytes.length_toBe 4 length
  rw [headerOf]
  match Bytes.toBe 4 length, hfour, hvalue with
  | [b0, b1, b2, b3], _, hvalue =>
    show (refuse (maxFramePayloadBytes < Bytes.ofBe [b0, b1, b2, b3]) _ >>= fun _ =>
      .ok (Bytes.ofBe [b0, b1, b2, b3])) = _
    rw [hvalue, refuse_of_not (Nat.not_lt.mpr h), ok_bind]

/-- A header that is read with a length is the one of some kind and that length. -/
theorem headerOf_of_payloadLength {header : List UInt8} {length : ℕ}
    (hnine : header.length = frameHeaderBytes) (h : payloadLength header = .ok length) :
    length ≤ maxFramePayloadBytes ∧ ∃ kind, header = headerOf kind length := by
  obtain ⟨magic, hslice, h⟩ := bind_eq_ok_iff.mp h
  obtain ⟨_, hmagic, h⟩ := bind_eq_ok_iff.mp h
  have hmagic : magic = frameMagic := Decidable.of_not_not (refuse_eq_ok_iff.mp hmagic)
  match header, hnine with
  | [m0, m1, m2, m3, kind, b0, b1, b2, b3], _ =>
    have h : (refuse (maxFramePayloadBytes < Bytes.ofBe [b0, b1, b2, b3])
        (InvalidGuestLogFrame.mk "payload exceeds the limit") >>= fun _ =>
          Checked.ok (Bytes.ofBe [b0, b1, b2, b3])) = .ok length := h
    obtain ⟨_, hsmall, h⟩ := bind_eq_ok_iff.mp h
    have hsmall := Nat.le_of_not_lt (refuse_eq_ok_iff.mp hsmall)
    cases hslice
    cases h
    have hback : Bytes.toBe 4 (Bytes.ofBe [b0, b1, b2, b3]) = [b0, b1, b2, b3] :=
      Bytes.toBe_ofBe [b0, b1, b2, b3]
    have hmagic : [m0, m1, m2, m3] = frameMagic := hmagic
    refine ⟨hsmall, kind, ?_⟩
    show [m0, m1, m2, m3] ++ [kind] ++ [b0, b1, b2, b3] =
      frameMagic ++ [kind] ++ Bytes.toBe 4 (Bytes.ofBe [b0, b1, b2, b3])
    rw [hmagic, hback]

theorem ends_payloadLength {header : List UInt8} (hnine : header.length = frameHeaderBytes) :
    (payloadLength header).Ends := by
  have hnine : header.length = 9 := hnine
  refine (ends_slice (by decide) (by omega)).bind fun _ _ => ?_
  refine (ends_refuse _ _).bind fun _ _ => ?_
  refine (ends_index (by rw [hnine]; decide)).bind fun _ _ => ?_
  refine (ends_index (by omega)).bind fun _ _ => ?_
  refine (ends_index (by omega)).bind fun _ _ => ?_
  refine (ends_index (by omega)).bind fun _ _ => ?_
  exact (ends_refuse _ _).bind fun _ _ => ends_ok _

theorem ends_u32At {payload : List UInt8} {offset : ℕ} (h : offset + 4 ≤ payload.length) :
    (u32At payload offset).Ends := by
  refine (ends_index (by omega)).bind fun _ _ => ?_
  refine (ends_index (by omega)).bind fun _ _ => ?_
  refine (ends_index (by omega)).bind fun _ _ => ?_
  exact (ends_index (by omega)).bind fun _ _ => ends_ok _

theorem ends_exitFrom (kind : UInt8) (endedWith : Int32) : (exitFrom kind endedWith).Ends := by
  rw [exitFrom]
  split
  · exact ends_ok _
  · split
    · exact ends_ok _
    · exact ends_error _

theorem ends_decodeRestart (payload : List UInt8) : (decodeRestart payload).Ends := by
  refine (ends_refuse _ _).bind fun _ hlong => ?_
  have hlong : 21 ≤ payload.length := Nat.le_of_not_lt (refuse_eq_ok_iff.mp hlong)
  refine (ends_u32At (by omega)).bind fun _ _ => ?_
  refine (ends_index (by omega)).bind fun _ _ => ?_
  refine (ends_exitFrom _ _).bind fun _ _ => ?_
  refine (ends_slice (by decide) hlong).bind fun _ _ => ?_
  refine (ends_slice hlong (Nat.le_refl _)).bind fun _ _ => ?_
  refine (ends_okOr _ _).bind fun _ _ => ?_
  refine (ends_u32At (by omega)).bind fun _ _ => ?_
  exact (ends_u32At (by omega)).bind fun _ _ => ends_ok _

theorem ends_frameFrom (kind : UInt8) (payload : List UInt8) : (frameFrom kind payload).Ends := by
  rw [frameFrom]
  split
  · exact ends_ok _
  · split
    · exact ends_ok _
    · split
      · exact (ends_refuse _ _).bind fun _ _ => ends_ok _
      · split
        · exact (ends_decodeRestart payload).bind fun _ _ => ends_ok _
        · exact ends_error _

/-! ### What is written is read back -/

theorem u32At_append (front : List UInt8) (n : UInt32) (back : List UInt8) :
    u32At (front ++ Bytes.toBe 4 n.toNat ++ back) front.length = .ok n := by
  have hvalue := Bytes.u32_toBe n
  have hfour := Bytes.length_toBe 4 n.toNat
  match Bytes.toBe 4 n.toNat, hfour, hvalue with
  | [b0, b1, b2, b3], _, hvalue =>
    have h0 : (index (front ++ [b0, b1, b2, b3] ++ back) front.length :
        Checked InvalidGuestLogFrame _) = .ok b0 := by
      simpa using index_append front b0 ([b1, b2, b3] ++ back)
    have h1 : (index (front ++ [b0, b1, b2, b3] ++ back) (front.length + 1) :
        Checked InvalidGuestLogFrame _) = .ok b1 := by
      simpa using index_append (front ++ [b0]) b1 ([b2, b3] ++ back)
    have h2 : (index (front ++ [b0, b1, b2, b3] ++ back) (front.length + 2) :
        Checked InvalidGuestLogFrame _) = .ok b2 := by
      simpa using index_append (front ++ [b0, b1]) b2 (b3 :: back)
    have h3 : (index (front ++ [b0, b1, b2, b3] ++ back) (front.length + 3) :
        Checked InvalidGuestLogFrame _) = .ok b3 := by
      simpa using index_append (front ++ [b0, b1, b2]) b3 back
    rw [u32At, h0, ok_bind, h1, ok_bind, h2, ok_bind, h3, ok_bind, hvalue]
    rfl

theorem exitFrom_exitOf (exit : TenantExit) :
    exitFrom (exitOf exit).1 (exitOf exit).2 = .ok exit := by
  cases exit <;> rfl

theorem length_restartPayload (restart : TenantRestart) :
    (restartPayload restart).length = restartHeaderBytes + restart.reason.text.utf8ByteSize := by
  show (Bytes.toBe 4 _ ++ Bytes.toBe 4 _ ++ [_] ++ Bytes.toBe 4 _ ++ Bytes.toBe 8 _ ++
    Bytes.ofText restart.reason.text).length = _
  simp only [List.length_append, Bytes.length_toBe, Bytes.length_ofText, List.length_singleton,
    restartHeaderBytes]

/-- The fields of a restart are read from where they are written. -/
theorem decodeRestart_fields {attempt budget : UInt32} {kind : UInt8} {endedWith : Int32}
    {exit : TenantExit} {backoffMs : UInt64} {reason : StateMessage}
    (hexit : exitFrom kind endedWith = .ok exit) :
    decodeRestart (Bytes.toBe 4 attempt.toNat ++ Bytes.toBe 4 budget.toNat ++ [kind] ++
        Bytes.toBe 4 endedWith.toUInt32.toNat ++ Bytes.toBe 8 backoffMs.toNat ++
          Bytes.ofText reason.text) =
      .ok ⟨attempt, budget, exit, reason, backoffMs⟩ := by
  have ha := Bytes.length_toBe 4 attempt.toNat
  have hb := Bytes.length_toBe 4 budget.toNat
  have hc := Bytes.length_toBe 4 endedWith.toUInt32.toNat
  have hd := Bytes.length_toBe 8 backoffMs.toNat
  have hattempt := fun back => u32At_append [] attempt back
  have hbudget := fun back => u32At_append (Bytes.toBe 4 attempt.toNat) budget back
  have hended := fun back => u32At_append
    (Bytes.toBe 4 attempt.toNat ++ Bytes.toBe 4 budget.toNat ++ [kind]) endedWith.toUInt32 back
  -- of the fields only their lengths matter for where the next one begins
  generalize Bytes.toBe 4 attempt.toNat = a at *
  generalize Bytes.toBe 4 budget.toNat = b at *
  generalize Bytes.toBe 4 endedWith.toUInt32.toNat = c at *
  generalize hbackoff : Bytes.toBe 8 backoffMs.toNat = d at *
  generalize htext : Bytes.ofText reason.text = text
  have hhead : (a ++ b ++ [kind] ++ c ++ d).length = restartHeaderBytes := by
    simp [ha, hb, hc, hd, restartHeaderBytes]
  have hlong : restartHeaderBytes ≤ (a ++ b ++ [kind] ++ c ++ d ++ text).length := by
    rw [List.length_append, hhead]
    exact Nat.le_add_right _ _
  have hkind : (index (a ++ b ++ [kind] ++ c ++ d ++ text) 8 :
      Checked InvalidGuestLogFrame _) = .ok kind := by
    have h := index_append (ε := InvalidGuestLogFrame) (a ++ b) kind (c ++ d ++ text)
    simpa [ha, hb] using h
  have hbackoffSlice : (slice (a ++ b ++ [kind] ++ c ++ d ++ text) 13 restartHeaderBytes :
      Checked InvalidGuestLogFrame _) = .ok d := by
    have h := slice_append (ε := InvalidGuestLogFrame) (a ++ b ++ [kind] ++ c) d text
    simpa [ha, hb, hc, hd, restartHeaderBytes] using h
  have hreason : (slice (a ++ b ++ [kind] ++ c ++ d ++ text) restartHeaderBytes
      (a ++ b ++ [kind] ++ c ++ d ++ text).length :
      Checked InvalidGuestLogFrame _) = .ok text := by
    rw [slice_length hlong, List.drop_left' hhead]
  have hended : u32At (a ++ b ++ [kind] ++ c ++ d ++ text) 9 = .ok endedWith.toUInt32 := by
    have h := hended (d ++ text)
    simpa [ha, hb] using h
  have hattempt : u32At (a ++ b ++ [kind] ++ c ++ d ++ text) 0 = .ok attempt := by
    have h := hattempt (b ++ [kind] ++ c ++ d ++ text)
    simpa using h
  have hbudget : u32At (a ++ b ++ [kind] ++ c ++ d ++ text) 4 = .ok budget := by
    have h := hbudget ([kind] ++ c ++ d ++ text)
    simpa [ha] using h
  rw [decodeRestart, refuse_of_not (Nat.not_lt.mpr hlong), ok_bind, hended, ok_bind, hkind,
    ok_bind, Int32.toInt32_toUInt32, hexit, ok_bind, hbackoffSlice, ok_bind, hreason, ok_bind,
    ← htext, Bytes.toText?_ofText, okOr_some, ok_bind, htext, hattempt, ok_bind, hbudget, ok_bind,
    ← hbackoff, Bytes.u64_toBe, StateMessage.new_text, pure_eq]

theorem decodeRestart_restartPayload (restart : TenantRestart) :
    decodeRestart (restartPayload restart) = .ok restart :=
  decodeRestart_fields (exitFrom_exitOf restart.exit)

theorem frameFrom_gap (payload : List UInt8) :
    frameFrom kindGap payload =
      (refuse (payload.length ≠ gapPayloadBytes) ⟨"invalid gap payload length"⟩ >>= fun _ =>
        .ok (GuestLogFrame.gap (UInt64.ofNat (Bytes.ofBe payload)))) := rfl

theorem frameFrom_restart (payload : List UInt8) :
    frameFrom kindRestart payload =
      (decodeRestart payload >>= fun restart => .ok (GuestLogFrame.restart restart)) := rfl

/-! ### A round of the loop -/

theorem nextFrame_of_lt {bytes : List UInt8} (h : bytes.length < frameHeaderBytes) :
    nextFrame bytes = .ok none := by
  rw [nextFrame, if_pos h]
  rfl

theorem nextFrame_of_error {bytes : List UInt8} {e : InvalidGuestLogFrame}
    (hnine : frameHeaderBytes ≤ bytes.length)
    (h : payloadLength (bytes.take frameHeaderBytes) = .error e) :
    nextFrame bytes = .error e := by
  rw [nextFrame, if_neg (Nat.not_lt.mpr hnine), slice_zero hnine, ok_bind, h, error_bind]

theorem nextFrame_of_short {bytes : List UInt8} {length : ℕ}
    (hnine : frameHeaderBytes ≤ bytes.length)
    (h : payloadLength (bytes.take frameHeaderBytes) = .ok length)
    (hshort : bytes.length < frameHeaderBytes + length) : nextFrame bytes = .ok none := by
  rw [nextFrame, if_neg (Nat.not_lt.mpr hnine), slice_zero hnine, ok_bind, h, ok_bind]
  exact if_pos hshort

/-- A frame that has come whole is read, and what is behind it is left. -/
theorem nextFrame_encodeFrame {kind : UInt8} {payload rest : List UInt8}
    (hfits : payload.length ≤ maxFramePayloadBytes) :
    nextFrame (encodeFrame kind payload ++ rest) =
      frameFrom kind payload >>= fun frame => .ok (some (frame, rest)) := by
  have hnine := length_headerOf kind payload.length
  have hwhole : (encodeFrame kind payload ++ rest).length =
      frameHeaderBytes + payload.length + rest.length := by
    rw [List.length_append, length_encodeFrame]
  have htake : (encodeFrame kind payload ++ rest).take frameHeaderBytes =
      headerOf kind payload.length := by
    rw [encodeFrame_eq, List.append_assoc, List.take_left' hnine]
  have hslice : (slice (encodeFrame kind payload ++ rest) frameHeaderBytes
      (frameHeaderBytes + payload.length) : Checked InvalidGuestLogFrame _) = .ok payload := by
    have h := slice_append (ε := InvalidGuestLogFrame) (headerOf kind payload.length) payload rest
    rwa [hnine] at h
  have hdrop : (encodeFrame kind payload ++ rest).drop (frameHeaderBytes + payload.length) =
      rest := List.drop_left' (length_encodeFrame kind payload)
  have hkind : (index (headerOf kind payload.length) kindOffset :
      Checked InvalidGuestLogFrame _) = .ok kind := by
    rw [headerOf, List.append_assoc]
    exact index_append frameMagic kind _
  rw [nextFrame, if_neg (by omega), slice_zero (by omega), ok_bind, htake,
    payloadLength_headerOf hfits, ok_bind]
  show (if (encodeFrame kind payload ++ rest).length < frameHeaderBytes + payload.length then _
    else _) = _
  rw [if_neg (by omega), hslice, ok_bind, hkind, ok_bind, hdrop]
  rfl

/-- What there can be at the front of some bytes: less than a frame, a header that is refused, or
a whole frame. -/
theorem nextFrame_cases (bytes : List UInt8) :
    (nextFrame bytes = .ok none ∧ bytes.length < frameHeaderBytes + maxFramePayloadBytes) ∨
      (frameHeaderBytes ≤ bytes.length ∧
        ∃ e, payloadLength (bytes.take frameHeaderBytes) = .error e) ∨
      ∃ kind payload rest, payload.length ≤ maxFramePayloadBytes ∧
        bytes = encodeFrame kind payload ++ rest := by
  rcases Nat.lt_or_ge bytes.length frameHeaderBytes with hlt | hnine
  · exact .inl ⟨nextFrame_of_lt hlt, by omega⟩
  · have hheader : (bytes.take frameHeaderBytes).length = frameHeaderBytes := by
      rw [List.length_take]
      omega
    rcases ends_iff.mp (ends_payloadLength hheader) with ⟨length, hlength⟩ | herror
    · obtain ⟨hsmall, kind, hkind⟩ := headerOf_of_payloadLength hheader hlength
      rcases Nat.lt_or_ge bytes.length (frameHeaderBytes + length) with hshort | hwhole
      · exact .inl ⟨nextFrame_of_short hnine hlength hshort, by omega⟩
      · have hpayload : ((bytes.drop frameHeaderBytes).take length).length = length := by
          rw [List.length_take, List.length_drop]
          omega
        refine .inr (.inr ⟨kind, (bytes.drop frameHeaderBytes).take length,
          (bytes.drop frameHeaderBytes).drop length, hpayload.trans_le hsmall, ?_⟩)
        rw [encodeFrame_eq, hpayload, ← hkind, List.append_assoc, List.take_append_drop,
          List.take_append_drop]
    · exact .inr (.inl ⟨hnine, herror⟩)

/-- A frame is read from its own bytes. -/
theorem nextFrame_eq_some_iff {bytes rest : List UInt8} {frame : GuestLogFrame} :
    nextFrame bytes = .ok (some (frame, rest)) ↔
      ∃ kind payload, payload.length ≤ maxFramePayloadBytes ∧ frameFrom kind payload = .ok frame ∧
        bytes = encodeFrame kind payload ++ rest := by
  constructor
  · intro h
    rcases nextFrame_cases bytes with ⟨hnone, -⟩ | ⟨hnine, e, herror⟩ |
      ⟨kind, payload, behind, hfits, rfl⟩
    · rw [hnone] at h
      cases h
    · rw [nextFrame_of_error hnine herror] at h
      cases h
    · rw [nextFrame_encodeFrame hfits] at h
      obtain ⟨read, hread, h⟩ := bind_eq_ok_iff.mp h
      cases h
      exact ⟨kind, payload, hfits, hread, rfl⟩
  · rintro ⟨kind, payload, hfits, hread, rfl⟩
    rw [nextFrame_encodeFrame hfits, hread, ok_bind]

theorem encodeFrame_ne_nil (kind : UInt8) (payload : List UInt8) :
    encodeFrame kind payload ≠ [] := by
  intro h
  have hlength := length_encodeFrame kind payload
  rw [h, List.length_nil, frameHeaderBytes] at hlength
  omega

theorem nextFrame_error_append {bytes : List UInt8} {e : InvalidGuestLogFrame}
    (more : List UInt8) (h : nextFrame bytes = .error e) :
    nextFrame (bytes ++ more) = .error e := by
  rcases nextFrame_cases bytes with ⟨hnone, -⟩ | ⟨hnine, e', herror⟩ |
    ⟨kind, payload, rest, hfits, rfl⟩
  · rw [hnone] at h
    cases h
  · rw [nextFrame_of_error hnine herror] at h
    cases h
    refine nextFrame_of_error (by rw [List.length_append]; omega) ?_
    rwa [List.take_append_of_le_length hnine]
  · rw [nextFrame_encodeFrame hfits] at h
    rw [List.append_assoc, nextFrame_encodeFrame hfits]
    rcases ends_iff.mp (ends_frameFrom kind payload) with ⟨frame, hframe⟩ | ⟨e', he⟩
    · rw [hframe] at h
      cases h
    · rw [he] at h ⊢
      exact h

/-- The loop over the frames, as a reader of a stream. -/
def frames : StreamReader InvalidGuestLogFrame GuestLogFrame UInt8 where
  next := nextFrame
  ends bytes := by
    rcases nextFrame_cases bytes with ⟨hnone, -⟩ | ⟨hnine, e, herror⟩ |
      ⟨kind, payload, rest, hfits, rfl⟩
    · rw [hnone]
      exact ends_ok _
    · rw [nextFrame_of_error hnine herror]
      exact ends_error _
    · rw [nextFrame_encodeFrame hfits]
      exact (ends_frameFrom kind payload).bind fun _ _ => ends_ok _
  some_split h := by
    obtain ⟨kind, payload, hfits, hread, rfl⟩ := nextFrame_eq_some_iff.mp h
    exact ⟨encodeFrame kind payload, encodeFrame_ne_nil kind payload, rfl,
      nextFrame_eq_some_iff.mpr ⟨kind, payload, hfits, hread, (List.append_nil _).symm⟩⟩
  some_append more h := by
    obtain ⟨kind, payload, hfits, hread, rfl⟩ := nextFrame_eq_some_iff.mp h
    exact nextFrame_eq_some_iff.mpr ⟨kind, payload, hfits, hread, List.append_assoc ..⟩
  error_append more h := nextFrame_error_append more h

/-- The rounds are enough, and they read what the reader reads. -/
theorem decodeRounds_eq {rounds : ℕ} {rest : List UInt8} (h : rest.length < rounds) :
    decodeRounds rounds rest =
      (frames.read rest).2 >>= fun left => .ok ((frames.read rest).1, left) := by
  induction rounds generalizing rest with
  | zero => exact absurd h (Nat.not_lt_zero _)
  | succ rounds ih =>
    rw [decodeRounds]
    match hnext : nextFrame rest with
    | .ok none =>
      have hread : frames.next rest = .ok none := hnext
      rw [StreamReader.read_of_none hread]
      rfl
    | .error e =>
      have hread : frames.next rest = .error e := hnext
      rw [StreamReader.read_of_error hread]
      rfl
    | .stuck => exact absurd hnext (frames.ends rest)
    | .ok (some (frame, behind)) =>
      have hread : frames.next rest = .ok (some (frame, behind)) := hnext
      have hlt := StreamReader.length_lt hread
      rw [StreamReader.read_of_some hread]
      show (decodeRounds rounds behind >>= fun read => .ok (frame :: read.1, read.2)) = _
      rw [ih (by omega)]
      match (frames.read behind).2 with
      | .ok left => rfl
      | .error e => rfl
      | .stuck => rfl

theorem decodeFrames_eq : decodeFrames = frames.decode := by
  funext buffered chunk
  exact decodeRounds_eq (Nat.lt_succ_self _)

/-! ### Encoded frames -/

/-- The bytes a guest writes for a frame. -/
def encode : GuestLogFrame → List UInt8
  | .data stream bytes => encodeFrame (kindOf stream) bytes
  | .gap droppedBytes => encodeGap droppedBytes
  | .restart restart => encodeRestart restart

/-- Data of no more than a frame may hold. -/
def Fits : GuestLogFrame → Prop
  | .data _ bytes => bytes.length ≤ maxFramePayloadBytes
  | _ => True

/-- A frame is written as a kind and a payload that are read as the frame. -/
theorem encode_eq {frame : GuestLogFrame} (h : Fits frame) :
    ∃ kind payload, payload.length ≤ maxFramePayloadBytes ∧ frameFrom kind payload = .ok frame ∧
      encode frame = encodeFrame kind payload := by
  cases frame with
  | data stream bytes =>
    refine ⟨kindOf stream, bytes, h, ?_, rfl⟩
    cases stream <;> rfl
  | gap droppedBytes =>
    have height : (Bytes.toBe 8 droppedBytes.toNat).length = gapPayloadBytes :=
      Bytes.length_toBe 8 _
    refine ⟨kindGap, Bytes.toBe 8 droppedBytes.toNat, by rw [height]; decide, ?_, rfl⟩
    rw [frameFrom_gap, refuse_of_not (not_not_intro height), ok_bind, Bytes.u64_toBe]
  | restart restart =>
    refine ⟨kindRestart, restartPayload restart, ?_, ?_, rfl⟩
    · have htext := Bytes.utf8ByteSize_le restart.reason.text
      have hshort := restart.reason.short
      have hlength := length_restartPayload restart
      rw [maxStateMessageLength] at hshort
      rw [hlength, maxFramePayloadBytes, restartHeaderBytes]
      omega
    · rw [frameFrom_restart, decodeRestart_restartPayload, ok_bind]

theorem next_encode {frame : GuestLogFrame} (h : Fits frame) :
    frames.next (encode frame) = .ok (some (frame, [])) := by
  obtain ⟨kind, payload, hfits, hread, hencode⟩ := encode_eq h
  exact nextFrame_eq_some_iff.mpr
    ⟨kind, payload, hfits, hread, by rw [hencode, List.append_nil]⟩

/-- A frame that has not come whole is waited for. -/
theorem next_of_prefix {frame : GuestLogFrame} (h : Fits frame) {front : List UInt8}
    (hfront : front <+: encode frame) (hne : front ≠ encode frame) :
    frames.next front = .ok none := by
  obtain ⟨kind, payload, hfits, -, hencode⟩ := encode_eq h
  rw [hencode] at hfront hne
  have hshort : front.length < frameHeaderBytes + payload.length := by
    rw [← length_encodeFrame kind payload]
    exact Nat.lt_of_le_of_ne hfront.length_le fun h => hne (hfront.eq_of_length h)
  show nextFrame front = .ok none
  rcases Nat.lt_or_ge front.length frameHeaderBytes with hlt | hnine
  · exact nextFrame_of_lt hlt
  · have hheader : front.take frameHeaderBytes = headerOf kind payload.length := by
      obtain ⟨back, hback⟩ := hfront
      have htake : (front ++ back).take frameHeaderBytes = headerOf kind payload.length := by
        rw [hback, encodeFrame_eq, List.take_left' (length_headerOf _ _)]
      rwa [List.take_append_of_le_length hnine] at htake
    exact nextFrame_of_short hnine (hheader ▸ payloadLength_headerOf hfits) hshort

/-! ### Chunks -/

theorem next_nil : frames.next [] = .ok none := by
  show nextFrame [] = .ok none
  exact nextFrame_of_lt (by decide)

/-- What a connection is read as while nothing in it is broken. -/
theorem pump_of_read_ok {chunks : List (List UInt8)} {left : List UInt8}
    (h : (frames.read chunks.flatten).2 = .ok left) : pump chunks = frames.read chunks.flatten := by
  rw [pump, decodeFrames_eq]
  exact StreamReader.feed_of_read_ok next_nil h

/-- What is left over is less than a frame. -/
theorem length_left_lt {bytes left : List UInt8} (h : (frames.read bytes).2 = .ok left) :
    left.length < frameHeaderBytes + maxFramePayloadBytes := by
  have hnext : nextFrame left = .ok none := StreamReader.next_of_read_ok h
  rcases nextFrame_cases left with ⟨-, hlt⟩ | ⟨hnine, e, herror⟩ |
    ⟨kind, payload, rest, hfits, rfl⟩
  · exact hlt
  · rw [nextFrame_of_error hnine herror] at hnext
    cases hnext
  · rw [nextFrame_encodeFrame hfits] at hnext
    obtain ⟨frame, -, hsome⟩ := bind_eq_ok_iff.mp hnext
    cases hsome

/-- What a stream gives, cut in some way: the frames it holds and what is left over, or, where it
is broken, the frames it holds less those of the chunk it is broken in, which that chunk would have
given had it ended before the break. -/
def Gives (chunks : List (List UInt8)) (held : List GuestLogFrame) :
    Checked InvalidGuestLogFrame (List UInt8) → Prop
  | .ok left =>
    pump chunks = (held, .ok left) ∧ left.length < frameHeaderBytes + maxFramePayloadBytes
  | .error e =>
    ∃ past chunk future given left lost,
      chunks = past ++ chunk :: future ∧ pump past = (given, .ok left) ∧
        decodeFrames left chunk = .error e ∧ pump chunks = (given, .error e) ∧
          held = given ++ lost ∧
            ∃ part behind left', chunk = part ++ behind ∧
              decodeFrames left part = .ok (lost, left')
  | .stuck => False

theorem gives_read (chunks : List (List UInt8)) :
    Gives chunks (frames.read chunks.flatten).1 (frames.read chunks.flatten).2 := by
  match hread : (frames.read chunks.flatten).2 with
  | .ok left => exact ⟨(pump_of_read_ok hread).trans (Prod.ext rfl hread), length_left_lt hread⟩
  | .stuck => exact absurd hread (StreamReader.ends_read _)
  | .error e =>
    have hwhole : (frames.read ([] ++ chunks.flatten)).2 = .error e := hread
    obtain ⟨past, chunk, future, given, left, hchunks, hpast, hfeed, hbroken, hheld⟩ :=
      StreamReader.feed_of_read_error next_nil hwhole
    rw [List.nil_append] at hpast hheld
    have hleft : (frames.read past.flatten).2 = .ok left := congrArg Prod.snd hpast
    obtain ⟨part, behind, left', hcut, hpart⟩ :=
      StreamReader.read_cut (StreamReader.next_of_read_ok hleft) hbroken
    rw [← decodeFrames_eq] at hfeed
    refine ⟨past, chunk, future, given, left, (frames.read (left ++ chunk)).1, hchunks,
      (pump_of_read_ok hleft).trans hpast, ?_, hfeed, hheld, part, behind, left', hcut, ?_⟩
    · rw [decodeFrames_eq, StreamReader.decode_of_read_error hbroken]
    · have hok : (frames.read (left ++ part)).2 = .ok left' := congrArg Prod.snd hpart
      rw [decodeFrames_eq, StreamReader.decode_of_read_ok hok, hpart]

/-- **Decoding does not depend on chunking.** However the encodings of some frames are cut, they
are read as these frames, with nothing left over, and on the way never more than the start of one;
and what a stream of any bytes gives is the same for every cut, less the frames of the chunk it is
broken in. -/
theorem chunking_independent :
    (∀ sent : List GuestLogFrame, (∀ frame ∈ sent, Fits frame) →
      ∀ chunks, chunks.flatten = sent.flatMap encode →
        pump chunks = (sent, .ok []) ∧
          ∀ past, past <+: chunks → ∃ given rest left,
            sent = given ++ rest ∧ pump past = (given, .ok left) ∧
              StreamReader.IsStart encode left rest) ∧
      ∀ stream, ∃ held ended, ∀ chunks, chunks.flatten = stream → Gives chunks held ended := by
  refine ⟨fun sent hsent chunks hchunks => ⟨?_, fun past hpast => ?_⟩, fun stream => ?_⟩
  · have hread : frames.read chunks.flatten = (sent, .ok []) :=
      hchunks ▸ StreamReader.read_flatMap next_nil fun frame hframe =>
        next_encode (hsent frame hframe)
    rw [pump_of_read_ok (congrArg Prod.snd hread), hread]
  · have hflat : past.flatten <+: sent.flatMap encode := by
      obtain ⟨future, rfl⟩ := hpast
      rw [List.flatten_append] at hchunks
      exact ⟨_, hchunks⟩
    obtain ⟨given, rest, left, hsplit, hread, hleft⟩ :=
      StreamReader.read_of_prefix next_nil (fun frame hframe => next_encode (hsent frame hframe))
        (fun frame hframe front => next_of_prefix (hsent frame hframe)) hflat
    refine ⟨given, rest, left, hsplit, ?_, hleft⟩
    rw [pump_of_read_ok (congrArg Prod.snd hread), hread]
  · refine ⟨(frames.read stream).1, (frames.read stream).2, fun chunks hchunks => ?_⟩
    have hgives := gives_read chunks
    rw [hchunks] at hgives
    exact hgives

end Nibrunner.GuestLogs
