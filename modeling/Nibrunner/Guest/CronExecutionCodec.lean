import Mathlib.Algebra.Order.BigOperators.Group.List
import Mathlib.Algebra.Order.Group.Nat
import Nibrunner.Guest.CronExecution

/-!
# One encoding for each message

Every reader is characterised by what it accepts: the bytes it takes are the encoding of the value
it returns, and the encoding of a value is accepted whatever stands behind it
(`takeLength_eq_ok_iff`, `takeString_eq_ok_iff`, `takeStrings_eq_ok_iff`). The two halves of the
protocol then agree:

* `codec_bijective`: a header and a body are accepted with a message exactly when they are its
  encoding, a message has an encoding exactly when it may be sent, and every reader ends.
* `not_encodes_what_fits`: an encoding that fits is not enough, for a request may not have more
  variables than a cron job has.
-/

namespace Nibrunner.CronExecution

open Checked MalformedExecution

/-! ### What each reader accepts -/

theorem takeLength_of_le {bytes : List UInt8} (h : 4 ≤ bytes.length) :
    takeLength bytes = .ok (Bytes.ofBe (bytes.take 4), bytes.drop 4) := by
  have hfour : (bytes.take 4).length = 4 := by
    rw [List.length_take]
    omega
  rw [takeLength, refuse_of_not (Nat.not_lt.mpr h), ok_bind, slice_zero h, ok_bind,
    refuse_of_not (not_not_intro hfour), ok_bind, slice_length h]
  rfl

theorem takeLength_of_lt {bytes : List UInt8} (h : bytes.length < 4) :
    takeLength bytes = .error malformedExecution := by
  rw [takeLength, refuse, if_pos h]
  rfl

/-- A length is the four bytes it is written in. -/
theorem takeLength_eq_ok_iff {bytes : List UInt8} {n : ℕ} {rest : List UInt8} :
    takeLength bytes = .ok (n, rest) ↔ n < 2 ^ 32 ∧ bytes = Bytes.toBe 4 n ++ rest := by
  constructor
  · intro h
    rcases Nat.lt_or_ge bytes.length 4 with hlt | hge
    · rw [takeLength_of_lt hlt] at h
      cases h
    · rw [takeLength_of_le hge] at h
      cases h
      have hfour : (bytes.take 4).length = 4 := by
        rw [List.length_take]
        omega
      have hvalue := Bytes.ofBe_lt (bytes.take 4)
      have hback := Bytes.toBe_ofBe (bytes.take 4)
      rw [hfour] at hvalue hback
      exact ⟨hvalue, by rw [hback, List.take_append_drop]⟩
  · rintro ⟨hn, rfl⟩
    have hfour := Bytes.length_toBe 4 n
    rw [takeLength_of_le (by rw [List.length_append, hfour]; omega), List.take_left' hfour,
      List.drop_left' hfour, Bytes.ofBe_toBe_of_lt hn]

/-- A text is its length and its bytes. -/
theorem takeString_eq_ok_iff {bytes : List UInt8} {text : String} {rest : List UInt8} :
    takeString bytes = .ok (text, rest) ↔
      text.utf8ByteSize < 2 ^ 32 ∧ bytes = textField text ++ rest := by
  constructor
  · intro h
    obtain ⟨⟨n, left⟩, hlength, hread⟩ := bind_eq_ok_iff.mp h
    obtain ⟨hn, rfl⟩ := takeLength_eq_ok_iff.mp hlength
    obtain ⟨_, hlong, hread⟩ := bind_eq_ok_iff.mp hread
    have hlong := Nat.le_of_not_lt (refuse_eq_ok_iff.mp hlong)
    rw [slice_zero hlong, ok_bind] at hread
    obtain ⟨value, hvalue, hread⟩ := bind_eq_ok_iff.mp hread
    rw [slice_length hlong, ok_bind, pure_eq] at hread
    cases hread
    have hbytes := Bytes.ofText_of_toText? (okOr_eq_ok_iff.mp hvalue)
    -- the text has as many bytes as its length field said, which is the field it is written with
    have hsize : text.utf8ByteSize = n := by
      rw [← Bytes.length_ofText, hbytes, List.length_take]
      omega
    refine ⟨hsize ▸ hn, ?_⟩
    rw [textField, hsize, hbytes, List.append_assoc, List.take_append_drop]
  · rintro ⟨hsize, rfl⟩
    have hlength : takeLength (textField text ++ rest) =
        .ok (text.utf8ByteSize, Bytes.ofText text ++ rest) :=
      takeLength_eq_ok_iff.mpr ⟨hsize, by rw [textField, List.append_assoc]⟩
    have hlong : text.utf8ByteSize ≤ (Bytes.ofText text ++ rest).length := by
      rw [List.length_append, Bytes.length_ofText]
      omega
    rw [takeString, hlength, ok_bind]
    show (refuse ((Bytes.ofText text ++ rest).length < text.utf8ByteSize) _ >>= fun _ => _) = _
    rw [refuse_of_not (Nat.not_lt.mpr hlong), ok_bind, slice_zero hlong, ok_bind,
      List.take_left' (Bytes.length_ofText text), Bytes.toText?_ofText, okOr_some, ok_bind,
      slice_length hlong, ok_bind, List.drop_left' (Bytes.length_ofText text), pure_eq]

/-- Texts are their encodings one after another. -/
theorem takeStrings_eq_ok_iff {count : ℕ} {bytes : List UInt8} {texts : List String}
    {rest : List UInt8} :
    takeStrings count bytes = .ok (texts, rest) ↔
      texts.length = count ∧ (∀ text ∈ texts, text.utf8ByteSize < 2 ^ 32) ∧
        bytes = texts.flatMap textField ++ rest := by
  induction count generalizing bytes texts with
  | zero =>
    rw [takeStrings, pure_eq]
    constructor
    · intro h
      cases h
      exact ⟨rfl, by simp, rfl⟩
    · rintro ⟨hnil, -, rfl⟩
      rw [List.eq_nil_of_length_eq_zero hnil]
      rfl
  | succ count ih =>
    rw [takeStrings]
    constructor
    · intro h
      obtain ⟨⟨text, left⟩, htext, hread⟩ := bind_eq_ok_iff.mp h
      obtain ⟨hsize, rfl⟩ := takeString_eq_ok_iff.mp htext
      obtain ⟨⟨others, last⟩, hothers, hread⟩ := bind_eq_ok_iff.mp hread
      cases hread
      obtain ⟨hcount, hsizes, rfl⟩ := ih.mp hothers
      exact ⟨congrArg Nat.succ hcount, List.forall_mem_cons.mpr ⟨hsize, hsizes⟩,
        by rw [List.flatMap_cons, List.append_assoc]⟩
    · rintro ⟨hcount, hsizes, rfl⟩
      obtain ⟨text, others, rfl⟩ := List.exists_cons_of_length_eq_add_one hcount
      obtain ⟨hsize, hsizes⟩ := List.forall_mem_cons.mp hsizes
      rw [List.flatMap_cons, List.append_assoc, takeString_eq_ok_iff.mpr ⟨hsize, rfl⟩, ok_bind]
      show (takeStrings count (others.flatMap textField ++ rest) >>= fun _ => _) = _
      rw [ih.mpr ⟨Nat.succ.inj hcount, hsizes, rfl⟩]
      rfl

/-! ### Headers -/

/-- The header of a frame. -/
def headerOf (code : UInt8) (bodyLength : ℕ) : List UInt8 :=
  magic ++ [code] ++ Bytes.toBe 4 bodyLength

theorem frame_eq (code : UInt8) (body : List UInt8) :
    frame code body = headerOf code body.length ++ body := rfl

theorem length_headerOf (code : UInt8) (bodyLength : ℕ) :
    (headerOf code bodyLength).length = headerBytes := by
  rw [headerOf, List.length_append, Bytes.length_toBe]
  rfl

/-- A header is the magic, its code and its length. -/
theorem decodeHeader_eq_ok_iff {bytes : List UInt8} {header : FrameHeader} :
    decodeHeader bytes = .ok header ↔
      header.bodyLength < 2 ^ 32 ∧ bytes = headerOf header.code header.bodyLength := by
  constructor
  · intro h
    obtain ⟨_, hlength, hread⟩ := bind_eq_ok_iff.mp h
    have hlength : bytes.length = 9 := Decidable.of_not_not (refuse_eq_ok_iff.mp hlength)
    obtain ⟨front, hfront, hread⟩ := bind_eq_ok_iff.mp hread
    obtain ⟨_, hmagic, hread⟩ := bind_eq_ok_iff.mp hread
    have hmagic : front = magic := Decidable.of_not_not (refuse_eq_ok_iff.mp hmagic)
    obtain ⟨length, hfour, hread⟩ := bind_eq_ok_iff.mp hread
    obtain ⟨_, _, hread⟩ := bind_eq_ok_iff.mp hread
    obtain ⟨code, hcode, hread⟩ := bind_eq_ok_iff.mp hread
    -- nine bytes: the magic, the code and the four of the length
    match bytes, hlength with
    | [m0, m1, m2, m3, _, b0, b1, b2, b3], _ =>
      cases hfront
      cases hfour
      cases hcode
      cases hread
      have hvalue : Bytes.ofBe [b0, b1, b2, b3] < 2 ^ 32 := by
        simpa using Bytes.ofBe_lt [b0, b1, b2, b3]
      have hback : Bytes.toBe 4 (Bytes.ofBe [b0, b1, b2, b3]) = [b0, b1, b2, b3] :=
        Bytes.toBe_ofBe [b0, b1, b2, b3]
      refine ⟨hvalue, ?_⟩
      have hmagic : [m0, m1, m2, m3] = magic := hmagic
      show [m0, m1, m2, m3] ++ [code] ++ [b0, b1, b2, b3] =
        magic ++ [code] ++ Bytes.toBe 4 (Bytes.ofBe [b0, b1, b2, b3])
      rw [hmagic, hback]
  · rintro ⟨hsmall, rfl⟩
    obtain ⟨code, n⟩ := header
    have hvalue : Bytes.ofBe (Bytes.toBe 4 n) = n := Bytes.ofBe_toBe_of_lt hsmall
    have hfour := Bytes.length_toBe 4 n
    show decodeHeader (magic ++ [code] ++ Bytes.toBe 4 n) = _
    match Bytes.toBe 4 n, hfour, hvalue with
    | [b0, b1, b2, b3], _, hvalue =>
      show Checked.ok (FrameHeader.mk code (Bytes.ofBe [b0, b1, b2, b3])) = _
      rw [hvalue]

/-! ### Requests -/

theorem length_textField (text : String) : (textField text).length = 4 + text.utf8ByteSize := by
  rw [textField, List.length_append, Bytes.length_toBe, Bytes.length_ofText]

/-- The length that is checked is that of the body. -/
theorem length_requestBody (request : ExecutionRequest) :
    (requestBody request).length = requestLength request := by
  have hentries : (request.environment.flatMap textField).length =
      (request.environment.map fun entry => 4 + entry.utf8ByteSize).sum := by
    rw [List.length_flatMap]
    exact congrArg List.sum (List.map_congr_left fun entry _ => length_textField entry)
  rw [requestBody, List.length_append, List.length_append, length_textField, Bytes.length_toBe,
    hentries, requestLength]
  omega

theorem encodeRequest_eq_ok_iff {request : ExecutionRequest} {bytes : List UInt8} :
    encodeRequest request = .ok bytes ↔
      validRequest request = true ∧ requestLength request ≤ maxRequestBytes ∧
        bytes = frame 0 (requestBody request) := by
  rw [encodeRequest]
  by_cases hvalid : validRequest request = true
  · by_cases hfits : maxRequestBytes < requestLength request
    · simp [hvalid, hfits, Nat.not_le.mpr hfits]
    · simp [hvalid, hfits, Nat.le_of_not_lt hfits, eq_comm]
  · simp [hvalid]

/-- A valid request holds no text too long for its length field. -/
theorem size_lt_of_fits {request : ExecutionRequest}
    (hfits : requestLength request ≤ maxRequestBytes) :
    request.command.utf8ByteSize < 2 ^ 32 ∧
      ∀ entry ∈ request.environment, entry.utf8ByteSize < 2 ^ 32 := by
  have hmax : maxRequestBytes < 2 ^ 32 := by decide
  rw [requestLength] at hfits
  refine ⟨by omega, fun entry hentry => ?_⟩
  have hle : 4 + entry.utf8ByteSize ≤
      (request.environment.map fun entry => 4 + entry.utf8ByteSize).sum :=
    List.le_sum_of_mem (List.mem_map_of_mem hentry)
  omega

/-- A body is accepted with the request it is the body of, and with no other. -/
theorem decodeRequest_eq_ok_iff {header : FrameHeader} {body : List UInt8}
    {request : ExecutionRequest} :
    decodeRequest header body = .ok request ↔
      header.code = 0 ∧ header.bodyLength = body.length ∧ body.length ≤ maxRequestBytes ∧
        validRequest request = true ∧ body = requestBody request := by
  constructor
  · intro h
    obtain ⟨_, hheader, hread⟩ := bind_eq_ok_iff.mp h
    have hheader := refuse_eq_ok_iff.mp hheader
    obtain ⟨⟨command, left⟩, hcommand, hread⟩ := bind_eq_ok_iff.mp hread
    obtain ⟨-, hbody⟩ := takeString_eq_ok_iff.mp hcommand
    obtain ⟨⟨count, entries⟩, hcount, hread⟩ := bind_eq_ok_iff.mp hread
    obtain ⟨-, hleft⟩ := takeLength_eq_ok_iff.mp hcount
    obtain ⟨_, _, hread⟩ := bind_eq_ok_iff.mp hread
    obtain ⟨⟨environment, rest⟩, hentries, hread⟩ := bind_eq_ok_iff.mp hread
    obtain ⟨hlength, -, hentries⟩ := takeStrings_eq_ok_iff.mp hentries
    obtain ⟨_, hchecked, hread⟩ := bind_eq_ok_iff.mp hread
    have hchecked := refuse_eq_ok_iff.mp hchecked
    cases hread
    simp only [not_or, ne_eq, Decidable.not_not, Bool.not_eq_false] at hheader hchecked
    obtain ⟨hcode, hfits, hsame⟩ := hheader
    obtain ⟨hrest, hvalid⟩ := hchecked
    -- nothing is left behind the entries, so the body is the command, their count and the entries
    refine ⟨hcode, hsame.symm, by omega, hvalid, ?_⟩
    rw [hbody, hleft, hentries, hrest, requestBody, hlength, List.append_nil, List.append_assoc]
  · rintro ⟨hcode, hsame, hfits, hvalid, rfl⟩
    rw [length_requestBody] at hfits
    obtain ⟨hcommand, hentries⟩ := size_lt_of_fits hfits
    have hcount : request.environment.length ≤ maxCronEnvironmentVariables := by
      simp only [validRequest, Bool.and_eq_true, decide_eq_true_eq] at hvalid
      exact hvalid.1.2
    have hcommand : takeString (requestBody request) = .ok (request.command,
        Bytes.toBe 4 request.environment.length ++ request.environment.flatMap textField) :=
      takeString_eq_ok_iff.mpr ⟨hcommand, by rw [requestBody, List.append_assoc]⟩
    have hlength : takeLength (Bytes.toBe 4 request.environment.length ++
        request.environment.flatMap textField) =
          .ok (request.environment.length, request.environment.flatMap textField) :=
      takeLength_eq_ok_iff.mpr ⟨Nat.lt_of_le_of_lt hcount (by decide), rfl⟩
    have hentries : takeStrings request.environment.length
        (request.environment.flatMap textField) = .ok (request.environment, []) :=
      takeStrings_eq_ok_iff.mpr ⟨rfl, hentries, (List.append_nil _).symm⟩
    rw [decodeRequest, refuse_of_not (by simp [hcode, hsame, length_requestBody, hfits]), ok_bind,
      hcommand, ok_bind]
    show (takeLength _ >>= fun _ => _) = _
    rw [hlength, ok_bind]
    show (refuse (maxCronEnvironmentVariables < request.environment.length) _ >>= fun _ => _) = _
    rw [refuse_of_not (Nat.not_lt.mpr hcount), ok_bind, hentries, ok_bind]
    show (refuse (([] : List UInt8) ≠ [] ∨ validRequest request = false) _ >>= fun _ =>
      .ok request) = _
    rw [refuse_of_not (by simp [hvalid]), ok_bind]

/-- **What is accepted is an encoding, and every encoding is accepted.** -/
theorem decodes_request_iff {front body : List UInt8} {request : ExecutionRequest} :
    (∃ header, decodeRequestHeader front = .ok header ∧
        decodeRequest header body = .ok request) ↔
      front.length = headerBytes ∧ encodeRequest request = .ok (front ++ body) := by
  constructor
  · rintro ⟨header, hheader, hbody⟩
    obtain ⟨read, hread, hchecked⟩ := bind_eq_ok_iff.mp hheader
    obtain ⟨_, _, hchecked⟩ := bind_eq_ok_iff.mp hchecked
    cases hchecked
    obtain ⟨-, rfl⟩ := decodeHeader_eq_ok_iff.mp hread
    obtain ⟨hcode, hlength, hfits, hvalid, rfl⟩ := decodeRequest_eq_ok_iff.mp hbody
    refine ⟨length_headerOf _ _, encodeRequest_eq_ok_iff.mpr ⟨hvalid, ?_, ?_⟩⟩
    · rwa [length_requestBody] at hfits
    · rw [frame_eq, hcode, hlength]
  · rintro ⟨hfront, hencoded⟩
    obtain ⟨hvalid, hfits, hbytes⟩ := encodeRequest_eq_ok_iff.mp hencoded
    rw [frame_eq] at hbytes
    obtain ⟨rfl, rfl⟩ := List.append_inj hbytes (hfront.trans (length_headerOf _ _).symm)
    rw [← length_requestBody] at hfits
    have hsmall : (requestBody request).length < 2 ^ 32 := Nat.lt_of_le_of_lt hfits (by decide)
    refine ⟨⟨0, (requestBody request).length⟩, ?_,
      decodeRequest_eq_ok_iff.mpr ⟨rfl, rfl, hfits, hvalid, rfl⟩⟩
    have hheader : decodeHeader (headerOf 0 (requestBody request).length) =
        .ok ⟨0, (requestBody request).length⟩ := decodeHeader_eq_ok_iff.mpr ⟨hsmall, rfl⟩
    rw [decodeRequestHeader, hheader, ok_bind, refuse_of_not (by simp [hfits])]
    rfl

/-! ### Replies -/

namespace ExecutionFrame

/-- The code a reply is sent under. -/
def code : ExecutionFrame → UInt8
  | started => 1
  | stdout _ => 2
  | stderr _ => 3
  | exit .. => 4
  | rejected _ => 5

/-- The body of a reply. -/
def body : ExecutionFrame → List UInt8
  | started => []
  | stdout bytes | stderr bytes => bytes
  | exit code signal => Bytes.toBe 4 code.toNat ++ Bytes.toBe 4 signal.toNat
  | rejected reason => [reason.code]

end ExecutionFrame

theorem replyFrame_eq (reply : ExecutionFrame) :
    replyFrame reply = frame reply.code reply.body := by
  cases reply <;> rfl

/-- What may be written is as long as its reader asks. -/
theorem replyLength_of_writable {reply : ExecutionFrame} (h : unwritable reply = false) :
    replyLength reply.code reply.body.length = true := by
  cases reply with
  | started => rfl
  | stdout bytes | stderr bytes =>
    rw [unwritable, Bool.not_eq_false'] at h
    exact h
  | exit code signal =>
    rw [ExecutionFrame.body, List.length_append, Bytes.length_toBe, Bytes.length_toBe]
    rfl
  | rejected reason => rfl

theorem length_body_of_writable {reply : ExecutionFrame} (h : unwritable reply = false) :
    reply.body.length < 2 ^ 32 := by
  cases reply with
  | started => decide
  | stdout bytes | stderr bytes =>
    rw [unwritable, Bool.not_eq_false', Bool.and_eq_true, decide_eq_true_eq, decide_eq_true_eq] at h
    exact Nat.lt_of_le_of_lt h.2 (by decide)
  | exit code signal =>
    rw [ExecutionFrame.body, List.length_append, Bytes.length_toBe, Bytes.length_toBe]
    decide
  | rejected reason => exact Nat.lt_of_le_of_lt (Nat.le_refl 1) (by decide)

theorem decodeReplyHeader_of_writable {reply : ExecutionFrame} (h : unwritable reply = false) :
    decodeReplyHeader (headerOf reply.code reply.body.length) =
      .ok ⟨reply.code, reply.body.length⟩ := by
  have hheader : decodeHeader (headerOf reply.code reply.body.length) =
      .ok ⟨reply.code, reply.body.length⟩ :=
    decodeHeader_eq_ok_iff.mpr ⟨length_body_of_writable h, rfl⟩
  rw [decodeReplyHeader, hheader, ok_bind,
    refuse_of_not (by simp [replyLength_of_writable h])]
  rfl

theorem encodeReply_eq_ok_iff {reply : ExecutionFrame} {bytes : List UInt8} :
    encodeReply reply = .ok bytes ↔ unwritable reply = false ∧ bytes = replyFrame reply := by
  by_cases hwritable : unwritable reply = true
  · rw [encodeReply, refuse, if_pos hwritable]
    simp [hwritable]
  · have hwritable : unwritable reply = false := Bool.not_eq_true _ ▸ hwritable
    have hfront : headerBytes ≤ (replyFrame reply).length := by
      rw [replyFrame_eq, frame_eq, List.length_append, length_headerOf]
      exact Nat.le_add_right _ _
    have htake : (replyFrame reply).take headerBytes =
        headerOf reply.code reply.body.length := by
      rw [replyFrame_eq, frame_eq, List.take_left' (length_headerOf _ _)]
    have hread := decodeReplyHeader_of_writable hwritable
    rw [encodeReply, refuse_of_not (by simp [hwritable]), ok_bind]
    show (slice (replyFrame reply) 0 headerBytes >>= fun _ => _) = _ ↔ _
    rw [slice_zero hfront, ok_bind, htake, hread, ok_bind, pure_eq]
    simp [hwritable, eq_comm]

/-- The writer's check of an exit is its reader's. -/
theorem unwritable_exit {code signal : UInt32} :
    unwritable (.exit code signal) = true ↔
      maxExitCode < code ∨ maxSignal < signal ∨ signal ≠ 0 ∧ code ≠ 0 := by
  simp [unwritable, or_assoc, and_comm]

/-- The body of an exit, read. -/
theorem decodeReply_exit {header : FrameHeader} {body : List UInt8} (hcode : header.code = 4)
    (hlength : header.bodyLength = body.length) (hsize : body.length = 8)
    {reply : ExecutionFrame} :
    decodeReply header body = .ok reply ↔
      ∃ code signal : UInt32, reply = .exit code signal ∧ unwritable reply = false ∧
        body = reply.body := by
  have hfront : (body.take 4).length = 4 := by rw [List.length_take]; omega
  have hback : (body.drop 4).length = 4 := by rw [List.length_drop]; omega
  -- past the checks on its length, an exit is two numbers
  have hread : decodeReply header body = (do
      refuse
        (maxExitCode < UInt32.ofNat (Bytes.ofBe (body.take 4)) ∨
          maxSignal < UInt32.ofNat (Bytes.ofBe (body.drop 4)) ∨
            UInt32.ofNat (Bytes.ofBe (body.drop 4)) ≠ 0 ∧
              UInt32.ofNat (Bytes.ofBe (body.take 4)) ≠ 0)
        malformedExecution
      return .exit (UInt32.ofNat (Bytes.ofBe (body.take 4)))
        (UInt32.ofNat (Bytes.ofBe (body.drop 4)))) := by
    have hnil : body ≠ [] := by
      rintro rfl
      cases hsize
    rw [decodeReply, refuse_of_not (not_not_intro hlength.symm), ok_bind, if_neg (by simp [hnil]),
      if_neg (by simp [hcode]), if_pos ⟨hcode, hsize⟩, slice_zero (by omega), ok_bind,
      slice_length (by omega), ok_bind, refuse_of_not (by simp [hfront, hback]), ok_bind]
  rw [hread]
  constructor
  · intro h
    obtain ⟨_, hchecked, hread⟩ := bind_eq_ok_iff.mp h
    have hchecked := refuse_eq_ok_iff.mp hchecked
    cases hread
    refine ⟨_, _, rfl, ?_, ?_⟩
    · rwa [← unwritable_exit, Bool.not_eq_true] at hchecked
    · rw [ExecutionFrame.body, Bytes.toBe_u32 hfront, Bytes.toBe_u32 hback, List.take_append_drop]
  · rintro ⟨code, signal, rfl, hwritable, hbody⟩
    have htake : body.take 4 = Bytes.toBe 4 code.toNat := by
      rw [hbody, ExecutionFrame.body, List.take_left' (Bytes.length_toBe _ _)]
    have hdrop : body.drop 4 = Bytes.toBe 4 signal.toNat := by
      rw [hbody, ExecutionFrame.body, List.drop_left' (Bytes.length_toBe _ _)]
    have hchecked := mt unwritable_exit.mpr (Bool.not_eq_true _ ▸ hwritable)
    rw [htake, hdrop, Bytes.u32_toBe, Bytes.u32_toBe, refuse_of_not hchecked]
    rfl

/-- The reason of a rejection is the byte it is sent as. -/
theorem rejection_of_code {byte : UInt8} {reply : ExecutionFrame} :
    ((if byte = 1 then return .rejected .malformed
      else if byte = 2 then return .rejected .spawnFailed
      else if byte = 3 then return .rejected .busy
      else .error malformedExecution : Checked MalformedExecution ExecutionFrame) = .ok reply) ↔
      ∃ reason : Rejection, reply = .rejected reason ∧ byte = reason.code := by
  constructor
  · intro h
    split at h
    · cases h
      exact ⟨.malformed, rfl, ‹_›⟩
    · split at h
      · cases h
        exact ⟨.spawnFailed, rfl, ‹_›⟩
      · split at h
        · cases h
          exact ⟨.busy, rfl, ‹_›⟩
        · cases h
  · rintro ⟨reason, rfl, rfl⟩
    cases reason <;> rfl

/-- A body is accepted with the reply it is the body of, and with no other. -/
theorem decodeReply_eq_ok_iff {header : FrameHeader} {body : List UInt8}
    {reply : ExecutionFrame} :
    decodeReply header body = .ok reply ↔
      header.bodyLength = body.length ∧ header.code = reply.code ∧ unwritable reply = false ∧
        body = reply.body := by
  constructor
  · intro h
    obtain ⟨_, hlength, hread⟩ := bind_eq_ok_iff.mp h
    have hlength : body.length = header.bodyLength :=
      Decidable.of_not_not (refuse_eq_ok_iff.mp hlength)
    refine ⟨hlength.symm, ?_⟩
    -- the kinds of body in the order `decode_reply` tries them
    split at hread
    · rename_i hstarted
      cases hread
      exact ⟨hstarted.1, rfl, hstarted.2⟩
    · split at hread
      · rename_i houtput
        obtain ⟨hcode, hsize⟩ := houtput
        have hwritable : (!(1 ≤ body.length && body.length ≤ maxOutputBytes)) = false := by
          simp [hsize]
        rw [pure_eq] at hread
        split at hread
        · rename_i hstdout
          cases hread
          exact ⟨hstdout, hwritable, rfl⟩
        · rename_i hstdout
          cases hread
          exact ⟨hcode.resolve_left hstdout, hwritable, rfl⟩
      · split at hread
        · rename_i hexit
          obtain ⟨hcode, hsize⟩ := hexit
          obtain ⟨code, signal, rfl, hwritable, hbody⟩ :=
            (decodeReply_exit hcode hlength.symm hsize).mp h
          exact ⟨hcode, hwritable, hbody⟩
        · split at hread
          · rename_i hrejected
            obtain ⟨hcode, hsize⟩ := hrejected
            obtain ⟨byte, rfl⟩ := List.length_eq_one_iff.mp hsize
            obtain ⟨reason, rfl, rfl⟩ := rejection_of_code.mp hread
            exact ⟨hcode, rfl, rfl⟩
          · cases hread
  · rintro ⟨hlength, hcode, hwritable, rfl⟩
    have houtput : ∀ bytes : List UInt8, (!(1 ≤ bytes.length && bytes.length ≤ maxOutputBytes)) =
        false → 1 ≤ bytes.length ∧ bytes.length ≤ maxOutputBytes := by
      intro bytes h
      simpa only [Bool.not_eq_false', Bool.and_eq_true, decide_eq_true_eq] using h
    cases reply with
    | exit code signal =>
      have hsize : (ExecutionFrame.exit code signal).body.length = 8 := by
        rw [ExecutionFrame.body, List.length_append, Bytes.length_toBe, Bytes.length_toBe]
      exact (decodeReply_exit hcode hlength hsize).mpr ⟨code, signal, rfl, hwritable, rfl⟩
    | started =>
      rw [decodeReply, refuse_of_not (not_not_intro hlength.symm), ok_bind, hcode]
      rfl
    | stdout bytes =>
      rw [decodeReply, refuse_of_not (not_not_intro hlength.symm), ok_bind, hcode,
        if_neg (by simp [ExecutionFrame.code]), if_pos ⟨.inl rfl, houtput bytes hwritable⟩]
      rfl
    | stderr bytes =>
      rw [decodeReply, refuse_of_not (not_not_intro hlength.symm), ok_bind, hcode,
        if_neg (by simp [ExecutionFrame.code]), if_pos ⟨.inr rfl, houtput bytes hwritable⟩]
      rfl
    | rejected reason =>
      rw [decodeReply, refuse_of_not (not_not_intro hlength.symm), ok_bind, hcode]
      exact rejection_of_code.mpr ⟨reason, rfl, rfl⟩

/-- What is accepted is an encoding, and every encoding is accepted. -/
theorem decodes_reply_iff {front body : List UInt8} {reply : ExecutionFrame} :
    (∃ header, decodeReplyHeader front = .ok header ∧ decodeReply header body = .ok reply) ↔
      front.length = headerBytes ∧ encodeReply reply = .ok (front ++ body) := by
  constructor
  · rintro ⟨header, hheader, hbody⟩
    obtain ⟨read, hread, hchecked⟩ := bind_eq_ok_iff.mp hheader
    obtain ⟨_, _, hchecked⟩ := bind_eq_ok_iff.mp hchecked
    cases hchecked
    obtain ⟨-, rfl⟩ := decodeHeader_eq_ok_iff.mp hread
    obtain ⟨hlength, hcode, hwritable, rfl⟩ := decodeReply_eq_ok_iff.mp hbody
    refine ⟨length_headerOf _ _, encodeReply_eq_ok_iff.mpr ⟨hwritable, ?_⟩⟩
    rw [replyFrame_eq, frame_eq, hcode, hlength]
  · rintro ⟨hfront, hencoded⟩
    obtain ⟨hwritable, hbytes⟩ := encodeReply_eq_ok_iff.mp hencoded
    rw [replyFrame_eq, frame_eq] at hbytes
    obtain ⟨rfl, rfl⟩ := List.append_inj hbytes (hfront.trans (length_headerOf _ _).symm)
    exact ⟨_, decodeReplyHeader_of_writable hwritable,
      decodeReply_eq_ok_iff.mpr ⟨rfl, rfl, hwritable, rfl⟩⟩

/-! ### Ending -/

theorem ends_takeLength (bytes : List UInt8) : (takeLength bytes).Ends := by
  rcases Nat.lt_or_ge bytes.length 4 with hlt | hge
  · rw [takeLength_of_lt hlt]
    exact ends_error _
  · rw [takeLength_of_le hge]
    exact ends_ok _

theorem ends_takeString (bytes : List UInt8) : (takeString bytes).Ends := by
  refine (ends_takeLength bytes).bind fun (length, left) _ => ?_
  refine (ends_refuse _ _).bind fun _ hlong => ?_
  have hlong := Nat.le_of_not_lt (refuse_eq_ok_iff.mp hlong)
  refine (ends_slice (Nat.zero_le _) hlong).bind fun value _ => ?_
  refine (ends_okOr _ _).bind fun text _ => ?_
  exact (ends_slice hlong (Nat.le_refl _)).bind fun rest _ => ends_ok _

theorem ends_takeStrings (count : ℕ) (bytes : List UInt8) : (takeStrings count bytes).Ends := by
  induction count generalizing bytes with
  | zero => exact ends_ok _
  | succ count ih =>
    exact (ends_takeString bytes).bind fun read _ =>
      (ih read.2).bind fun _ _ => ends_ok _

theorem ends_decodeHeader (bytes : List UInt8) : (decodeHeader bytes).Ends := by
  refine (ends_refuse _ _).bind fun _ hlength => ?_
  have hlength : bytes.length = 9 := Decidable.of_not_not (refuse_eq_ok_iff.mp hlength)
  refine (ends_slice (by decide) (by omega)).bind fun front _ => ?_
  refine (ends_refuse _ _).bind fun _ _ => ?_
  refine (ends_slice (by decide) (by omega)).bind fun length _ => ?_
  refine (ends_refuse _ _).bind fun _ _ => ?_
  exact (ends_index (by omega)).bind fun code _ => ends_ok _

theorem ends_decodeRequestHeader (bytes : List UInt8) : (decodeRequestHeader bytes).Ends :=
  (ends_decodeHeader bytes).bind fun _ _ => (ends_refuse _ _).bind fun _ _ => ends_ok _

theorem ends_decodeReplyHeader (bytes : List UInt8) : (decodeReplyHeader bytes).Ends :=
  (ends_decodeHeader bytes).bind fun _ _ => (ends_refuse _ _).bind fun _ _ => ends_ok _

theorem ends_decodeRequest (header : FrameHeader) (body : List UInt8) :
    (decodeRequest header body).Ends := by
  refine (ends_refuse _ _).bind fun _ _ => ?_
  refine (ends_takeString body).bind fun command _ => ?_
  refine (ends_takeLength command.2).bind fun count _ => ?_
  refine (ends_refuse _ _).bind fun _ _ => ?_
  refine (ends_takeStrings count.1 count.2).bind fun environment _ => ?_
  exact (ends_refuse _ _).bind fun _ _ => ends_ok _

theorem ends_decodeReply (header : FrameHeader) (body : List UInt8) :
    (decodeReply header body).Ends := by
  refine (ends_refuse _ _).bind fun _ _ => ?_
  split
  · exact ends_ok _
  · split
    · exact ends_ok _
    · split
      · rename_i hexit
        refine (ends_slice (by decide) (by omega)).bind fun code _ => ?_
        refine (ends_slice (by omega) (Nat.le_refl _)).bind fun signal _ => ?_
        refine (ends_refuse _ _).bind fun _ _ => ?_
        exact (ends_refuse _ _).bind fun _ _ => ends_ok _
      · split
        · rename_i hrejected
          refine (ends_index (by omega)).bind fun reason _ => ?_
          split
          · exact ends_ok _
          · split
            · exact ends_ok _
            · split
              · exact ends_ok _
              · exact ends_error _
        · exact ends_error _

/-! ### The two halves -/

/-- What may be sent as a request. -/
structure WellFormed (request : ExecutionRequest) : Prop where
  command_ne : request.command ≠ ""
  command_size : request.command.utf8ByteSize ≤ maxCronCommandLength
  command_nul : Char.ofNat 0 ∉ request.command.toList
  entries : ∀ entry ∈ request.environment, environmentEntry entry = true

theorem validRequest_iff {request : ExecutionRequest} :
    validRequest request = true ↔
      WellFormed request ∧ request.environment.length ≤ maxCronEnvironmentVariables := by
  simp only [validRequest, Bool.and_eq_true, decide_eq_true_eq, Bool.not_eq_true',
    List.contains_eq_mem, decide_eq_false_iff_not, List.all_eq_true]
  constructor
  · rintro ⟨⟨⟨⟨hne, hsize⟩, hnul⟩, hcount⟩, hentries⟩
    exact ⟨⟨hne, hsize, hnul, hentries⟩, hcount⟩
  · rintro ⟨⟨hne, hsize, hnul, hentries⟩, hcount⟩
    exact ⟨⟨⟨⟨hne, hsize⟩, hnul⟩, hcount⟩, hentries⟩

/-- What may be sent as a reply. -/
def WellFormedReply : ExecutionFrame → Prop
  | .stdout bytes | .stderr bytes => 1 ≤ bytes.length ∧ bytes.length ≤ maxOutputBytes
  | .exit code signal => code ≤ maxExitCode ∧ signal ≤ maxSignal ∧ (code = 0 ∨ signal = 0)
  | _ => True

theorem unwritable_eq_false_iff {reply : ExecutionFrame} :
    unwritable reply = false ↔ WellFormedReply reply := by
  cases reply with
  | started | rejected reason => simp [unwritable, WellFormedReply]
  | stdout bytes | stderr bytes =>
    simp only [unwritable, WellFormedReply, Bool.not_eq_false', Bool.and_eq_true,
      decide_eq_true_eq]
  | exit code signal =>
    rw [← Bool.not_eq_true, unwritable_exit, WellFormedReply, not_or, not_or, UInt32.not_lt,
      UInt32.not_lt]
    have hone : ¬(signal ≠ 0 ∧ code ≠ 0) ↔ code = 0 ∨ signal = 0 := by
      rw [Decidable.not_and_iff_not_or_not, Decidable.not_not, Decidable.not_not, or_comm]
    rw [hone]

/-- A writer and a reader of frames that agree: what may be written, how it is written, and which
header and body are read as what. -/
structure Canonical {α : Type} (valid : α → Prop) (writes : α → List UInt8 → Prop)
    (reads : List UInt8 → List UInt8 → α → Prop) : Prop where
  writes_iff : ∀ a, (∃ bytes, writes a bytes) ↔ valid a
  reads_of_writes : ∀ a bytes, writes a bytes →
    reads (bytes.take headerBytes) (bytes.drop headerBytes) a
  writes_of_reads : ∀ front body a, reads front body a → writes a (front ++ body)

/-- A header and a body are read as a request. -/
def ReadsRequest (front body : List UInt8) (request : ExecutionRequest) : Prop :=
  ∃ header, decodeRequestHeader front = .ok header ∧ decodeRequest header body = .ok request

/-- A header and a body are read as a reply. -/
def ReadsReply (front body : List UInt8) (reply : ExecutionFrame) : Prop :=
  ∃ header, decodeReplyHeader front = .ok header ∧ decodeReply header body = .ok reply

/-- **The codec is a bijection on what may be sent.** A request is written exactly when it is well
formed, has no more variables than a cron job, and fits; a reply exactly when it is well formed;
what is written is read back, what is read is what would be written, and every reader ends. -/
theorem codec_bijective :
    Canonical
        (fun request => WellFormed request ∧
          request.environment.length ≤ maxCronEnvironmentVariables ∧
            (requestBody request).length ≤ maxRequestBytes)
        (fun request bytes => encodeRequest request = .ok bytes) ReadsRequest ∧
      Canonical WellFormedReply (fun reply bytes => encodeReply reply = .ok bytes) ReadsReply ∧
      (∀ bytes, (decodeRequestHeader bytes).Ends ∧ (decodeReplyHeader bytes).Ends) ∧
      ∀ header body, (decodeRequest header body).Ends ∧ (decodeReply header body).Ends := by
  -- the first nine bytes of a frame are its header
  have hfront : ∀ code body, (frame code body).take headerBytes = headerOf code body.length := by
    intro code body
    rw [frame_eq, List.take_left' (length_headerOf _ _)]
  refine ⟨⟨fun request => ?_, fun request bytes hbytes => ?_, fun front body request h => ?_⟩,
    ⟨fun reply => ?_, fun reply bytes hbytes => ?_, fun front body reply h => ?_⟩,
    fun bytes => ⟨ends_decodeRequestHeader bytes, ends_decodeReplyHeader bytes⟩,
    fun header body => ⟨ends_decodeRequest header body, ends_decodeReply header body⟩⟩
  · rw [length_requestBody]
    constructor
    · rintro ⟨bytes, hbytes⟩
      obtain ⟨hvalid, hfits, -⟩ := encodeRequest_eq_ok_iff.mp hbytes
      obtain ⟨hformed, hcount⟩ := validRequest_iff.mp hvalid
      exact ⟨hformed, hcount, hfits⟩
    · rintro ⟨hformed, hcount, hfits⟩
      exact ⟨_, encodeRequest_eq_ok_iff.mpr ⟨validRequest_iff.mpr ⟨hformed, hcount⟩, hfits, rfl⟩⟩
  · obtain ⟨-, -, hframe⟩ := encodeRequest_eq_ok_iff.mp hbytes
    refine decodes_request_iff.mpr ⟨?_, by rwa [List.take_append_drop]⟩
    rw [hframe, hfront, length_headerOf]
  · exact (decodes_request_iff.mp h).2
  · constructor
    · rintro ⟨bytes, hbytes⟩
      exact unwritable_eq_false_iff.mp (encodeReply_eq_ok_iff.mp hbytes).1
    · intro hformed
      exact ⟨_, encodeReply_eq_ok_iff.mpr ⟨unwritable_eq_false_iff.mpr hformed, rfl⟩⟩
  · obtain ⟨-, hframe⟩ := encodeReply_eq_ok_iff.mp hbytes
    refine decodes_reply_iff.mpr ⟨?_, by rwa [List.take_append_drop]⟩
    rw [hframe, replyFrame_eq, hfront, length_headerOf]
  · exact (decodes_reply_iff.mp h).2

/-- **To be well formed and to fit is not enough**: a request of many small variables fits, and is
refused for their number. -/
theorem not_encodes_what_fits :
    ¬∀ request : ExecutionRequest, (∃ bytes, encodeRequest request = .ok bytes) ↔
      WellFormed request ∧ (requestBody request).length ≤ maxRequestBytes := by
  intro h
  let request : ExecutionRequest := ⟨"x", List.replicate 257 "A="⟩
  have hformed : WellFormed request := by
    refine ⟨by decide, by decide, by decide, fun entry hentry => ?_⟩
    rw [List.eq_of_mem_replicate hentry]
    decide
  have hfits : (requestBody request).length ≤ maxRequestBytes := by
    have hentries : (request.environment.map fun entry => 4 + entry.utf8ByteSize).sum =
        257 * (4 + "A=".utf8ByteSize) := by
      rw [List.map_replicate, List.sum_replicate]
      rfl
    rw [length_requestBody, requestLength, hentries]
    decide
  obtain ⟨bytes, hbytes⟩ := (h request).mpr ⟨hformed, hfits⟩
  have hcount := (validRequest_iff.mp (encodeRequest_eq_ok_iff.mp hbytes).1).2
  rw [List.length_replicate] at hcount
  exact absurd hcount (by decide)

end Nibrunner.CronExecution
