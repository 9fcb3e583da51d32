import Nibrunner.Cron.Exchange

/-!
# The turns of a cron exchange

Host and guest take turns: after each reply but the last a guest waits for the byte that
acknowledges it, and its host sends that byte when nothing is left to read. `GuestPhase` says what
the guest's side is at in such a turn, at any cut of the bytes. The guest's own steps keep it
(`GuestPhase.moves`), and so do the host's (`GuestPhase.send`, `GuestPhase.acknowledge`,
`GuestPhase.finish`).
-/

namespace Nibrunner.CronExchange

open Bytes CronExecution Cron Run
open GuestLogs (TenantLogStream)

/-! ### Reading -/

theorem length_replyFrame (reply : ExecutionFrame) :
    (replyFrame reply).length = headerBytes + reply.body.length := by
  rw [replyFrame_eq, frame_eq, List.length_append, length_headerOf]

theorem replyFrame_ne_nil (reply : ExecutionFrame) : replyFrame reply ≠ [] := by
  intro h
  have hlength := length_replyFrame reply
  rw [h, headerBytes, List.length_nil] at hlength
  omega

/-- A reader that holds the beginning of a frame goes on exactly when it holds all of it. -/
theorem receive_of_start {reply : ExecutionFrame} (hwritable : unwritable reply = false)
    {buffer : List UInt8} (hstart : buffer <+: replyFrame reply) (atEnd : Bool) :
    receive? buffer atEnd =
      if buffer = replyFrame reply then some (.ok (reply, []))
      else if atEnd then some (.error .disconnected) else none := by
  have hlength := length_replyFrame reply
  obtain ⟨rest, hrest⟩ := hstart
  have hsum := congrArg List.length hrest
  rw [List.length_append, hlength] at hsum
  by_cases hall : buffer = replyFrame reply
  · have hbuffer : buffer = headerOf reply.code reply.body.length ++ reply.body := by
      rw [hall, replyFrame_eq, frame_eq]
    have hfront := length_headerOf reply.code reply.body.length
    have htake : buffer.take headerBytes = headerOf reply.code reply.body.length := by
      rw [hbuffer, List.take_left' hfront]
    have hdrop : buffer.drop headerBytes = reply.body := by
      rw [hbuffer, List.drop_left' hfront]
    have hend : buffer.drop (headerBytes + reply.body.length) = [] :=
      List.drop_eq_nil_of_le (by rw [hall, hlength])
    have hbody : decodeReply ⟨reply.code, reply.body.length⟩ reply.body = .ok reply :=
      decodeReply_eq_ok_iff.mpr ⟨rfl, rfl, hwritable, rfl⟩
    rw [if_pos hall, receive?, if_neg (by rw [hall, hlength]; omega), htake,
      decodeReplyHeader_of_writable hwritable]
    simp only
    rw [if_neg (by rw [hall, hlength]; omega), if_neg (by rw [hend]; exact fun h => h rfl), hdrop,
      List.take_length, hbody, hend]
  · have hshort : buffer.length < headerBytes + reply.body.length := by
      refine Nat.lt_of_le_of_ne (by omega) fun hsame => hall ?_
      have hnil : rest = [] := List.length_eq_zero_iff.mp (by omega)
      rw [← hrest, hnil, List.append_nil]
    rw [if_neg hall, receive?]
    split
    · rfl
    · rename_i hheader
      have htake : buffer.take headerBytes = headerOf reply.code reply.body.length := by
        have hfront := congrArg (List.take headerBytes) hrest
        rwa [List.take_append_of_le_length (Nat.le_of_not_lt hheader), replyFrame_eq, frame_eq,
          List.take_left' (length_headerOf _ _)] at hfront
      rw [htake, decodeReplyHeader_of_writable hwritable]
      simp only
      rw [if_pos hshort]

/-- The guest reads a request exactly when it has all of it. -/
theorem readRequest_of_start {request : ExecutionRequest} {bytes : List UInt8}
    (hbytes : encodeRequest request = .ok bytes) {got : List UInt8} (hstart : got <+: bytes) :
    readRequest? got = if got = bytes then some (.ok request) else none := by
  obtain ⟨hvalid, hfits, rfl⟩ := encodeRequest_eq_ok_iff.mp hbytes
  have hfits' := hfits
  rw [← length_requestBody] at hfits'
  have hheader : decodeRequestHeader (headerOf 0 (requestBody request).length) =
      .ok ⟨0, (requestBody request).length⟩ := by
    have hread : decodeHeader (headerOf 0 (requestBody request).length) =
        .ok ⟨0, (requestBody request).length⟩ :=
      decodeHeader_eq_ok_iff.mpr ⟨Nat.lt_of_le_of_lt hfits' (by decide), rfl⟩
    rw [decodeRequestHeader, hread, Checked.ok_bind, Checked.refuse_of_not (by simp [hfits'])]
    rfl
  have hbody : decodeRequest ⟨0, (requestBody request).length⟩ (requestBody request) =
      .ok request := decodeRequest_eq_ok_iff.mpr ⟨rfl, rfl, hfits', hvalid, rfl⟩
  obtain ⟨rest, hrest⟩ := hstart
  have hsum := congrArg List.length hrest
  rw [List.length_append, frame_eq, List.length_append, length_headerOf] at hsum
  have htake (hlong : headerBytes ≤ got.length) :
      got.take headerBytes = headerOf 0 (requestBody request).length := by
    have hfront := congrArg (List.take headerBytes) hrest
    rwa [List.take_append_of_le_length hlong, frame_eq,
      List.take_left' (length_headerOf _ _)] at hfront
  rw [readRequest?]
  by_cases hall : got = frame 0 (requestBody request)
  · have hlength : got.length = headerBytes + (requestBody request).length := by
      rw [hall, frame_eq, List.length_append, length_headerOf]
    have hdrop : got.drop headerBytes = requestBody request := by
      rw [hall, frame_eq, List.drop_left' (length_headerOf _ _)]
    rw [if_pos hall, if_neg (by omega), htake (by omega), hheader]
    simp only
    rw [if_neg (by omega), hdrop, hbody]
  · have hshort : got.length < headerBytes + (requestBody request).length := by
      refine Nat.lt_of_le_of_ne (by omega) fun hsame => hall ?_
      have hnil : rest = [] := List.length_eq_zero_iff.mp (by omega)
      rw [← hrest, hnil, List.append_nil]
    rw [if_neg hall]
    split
    · rfl
    · rename_i hlong
      rw [htake (Nat.le_of_not_lt hlong), hheader]
      simp only
      rw [if_pos hshort]

section Connect

variable {port : ℕ}

/-- The digits of a port, as bytes. -/
private def digitBytes (port : ℕ) : List UInt8 :=
  (Nat.toDigits 10 port).map fun c => c.val.toUInt8

private theorem digitBytes_spec {byte : UInt8} (h : byte ∈ digitBytes port) :
    isAsciiDigit byte = true ∧ byte ≠ newline := by
  obtain ⟨c, hc, rfl⟩ := List.mem_map.mp h
  have hdigit := Nat.isDigit_of_mem_toDigits (by decide) (by decide) hc
  have hall : ∀ n < 58, 48 ≤ n → isAsciiDigit (Char.ofNat n).val.toUInt8 = true ∧
      (Char.ofNat n).val.toUInt8 ≠ newline := by decide
  rw [Char.isDigit, Bool.and_eq_true, decide_eq_true_eq, decide_eq_true_eq] at hdigit
  have hlow : 48 ≤ c.toNat := UInt32.le_iff_toNat_le.mp hdigit.1
  have hhigh : c.toNat ≤ 57 := UInt32.le_iff_toNat_le.mp hdigit.2
  have hbyte := hall c.toNat (by omega) hlow
  rwa [Char.ofNat_toNat] at hbyte

private theorem chars_digitBytes :
    (digitBytes port).map (fun byte => Char.ofNat byte.toNat) = Nat.toDigits 10 port := by
  rw [digitBytes, List.map_map]
  refine (List.map_congr_left fun c hc => ?_).trans (List.map_id _)
  have hdigit := Nat.isDigit_of_mem_toDigits (by decide) (by decide) hc
  rw [Char.isDigit, Bool.and_eq_true, decide_eq_true_eq, decide_eq_true_eq] at hdigit
  have hhigh : c.toNat ≤ 57 := UInt32.le_iff_toNat_le.mp hdigit.2
  have hbyte : c.val.toUInt8.toNat = c.toNat := by
    rw [UInt32.toNat_toUInt8]
    exact Nat.mod_eq_of_lt (Nat.lt_of_le_of_lt hhigh (by decide))
  rw [Function.comp_apply, hbyte, Char.ofNat_toNat, id_eq]

private theorem connectReply_eq (port : ℕ) :
    Exchange.connectReply port = [0x4f, 0x4b, 0x20] ++ digitBytes port ++ [newline] := rfl

private theorem length_digitBytes (hport : port < 2 ^ 32) : (digitBytes port).length ≤ 10 := by
  rw [digitBytes, List.length_map]
  exact (Nat.length_toDigits_le_iff (by decide) (by decide)).mpr
    (Nat.lt_of_lt_of_le hport (by decide))

theorem connected_connectReply (hpos : 0 < port) (hport : port < 2 ^ 32) :
    connected (Exchange.connectReply port) = true := by
  have hnumber : connectNumber? (Exchange.connectReply port) = some (digitBytes port) := by
    show (if (digitBytes port ++ [newline]).getLast? = some newline then
      some (digitBytes port ++ [newline]).dropLast else none) = _
    rw [if_pos List.getLast?_concat, List.dropLast_concat]
  have hlength := length_digitBytes hport
  have hne : digitBytes port ≠ [] := by
    rw [digitBytes, ne_eq, List.map_eq_nil_iff]
    exact Nat.toDigits_ne_nil
  have hdigits : (digitBytes port).all isAsciiDigit = true :=
    List.all_eq_true.mpr fun byte h => (digitBytes_spec h).1
  rw [connected, hnumber]
  simp only
  rw [chars_digitBytes, Nat.ofDigitChars_ten_toDigits, hdigits, decide_eq_true hne,
    decide_eq_true hlength, decide_eq_true hport, decide_eq_true hpos]
  rfl

/-- The line of the relay's reply is taken exactly when all of it is there. -/
theorem connectLine_of_start (hport : port < 2 ^ 32) {buffer pending said : List UInt8}
    (h : buffer ++ pending = Exchange.connectReply port ++ said) (atEnd : Bool)
    (hend : atEnd = true → pending = []) :
    connectLine? buffer atEnd = none ∧ pending ≠ [] ∨
      ∃ rest, buffer = Exchange.connectReply port ++ rest ∧ rest ++ pending = said ∧
        connectLine? buffer atEnd = some (Exchange.connectReply port, rest) := by
  have hlength : (Exchange.connectReply port).length ≤ 14 := by
    have hdigits := length_digitBytes hport
    rw [connectReply_eq, List.length_append, List.length_append, List.length_singleton]
    simp only [List.length_cons, List.length_nil]
    omega
  have hfree : newline ∉ [0x4f, 0x4b, 0x20] ++ digitBytes port := by
    intro hmem
    rcases List.mem_append.mp hmem with hmem | hmem
    · exact absurd hmem (by decide)
    · exact (digitBytes_spec hmem).2 rfl
  have hcut : Exchange.connectReply port <+: buffer ∨ buffer <+: Exchange.connectReply port :=
    List.prefix_or_prefix_of_prefix (List.prefix_append _ said) (h ▸ List.prefix_append _ _)
  by_cases hall : Exchange.connectReply port <+: buffer
  · obtain ⟨rest, rfl⟩ := hall
    refine .inr ⟨rest, rfl, ?_, ?_⟩
    · rw [List.append_assoc] at h
      exact List.append_cancel_left h
    · -- the first line feed ends the reply
      have hindex : (Exchange.connectReply port ++ rest.take (64 - (Exchange.connectReply
          port).length)).idxOf newline + 1 = (Exchange.connectReply port).length := by
        rw [connectReply_eq, List.append_assoc, List.idxOf_append_of_notMem hfree,
          List.singleton_append, List.idxOf_cons_self]
        simp only [List.length_append, List.length_cons, List.length_nil]
      have hfront : (Exchange.connectReply port ++ rest).take connectReplyMaxBytes =
          Exchange.connectReply port ++ rest.take (64 - (Exchange.connectReply port).length) := by
        rw [connectReplyMaxBytes, List.take_append, List.take_of_length_le (by omega)]
      have hmem : newline ∈ Exchange.connectReply port ++
          rest.take (64 - (Exchange.connectReply port).length) :=
        List.mem_append_left _ (by rw [connectReply_eq]; simp)
      rw [connectLine?]
      simp only
      rw [hfront, if_pos hmem, hindex, List.take_left' rfl, List.drop_left' rfl]
  · have hsub : buffer <+: [0x4f, 0x4b, 0x20] ++ digitBytes port := by
      refine (List.prefix_concat_iff.mp (hcut.resolve_left hall)).resolve_left fun hsame => ?_
      rw [hsame] at hall
      exact hall List.prefix_rfl
    have hnotMem : newline ∉ buffer.take connectReplyMaxBytes := fun hmem =>
      hfree (hsub.subset (List.mem_of_mem_take hmem))
    have hshort : buffer.length < connectReplyMaxBytes :=
      Nat.lt_of_le_of_lt ((hcut.resolve_left hall).length_le.trans hlength) (by decide)
    have hpending : pending ≠ [] := by
      rintro rfl
      rw [List.append_nil] at h
      exact hall (h ▸ List.prefix_append _ _)
    have hopen : atEnd = false := by
      rw [← Bool.not_eq_true]
      exact fun htrue => hpending (hend htrue)
    refine .inl ⟨?_, hpending⟩
    rw [connectLine?]
    simp only
    rw [if_neg hnotMem, if_neg (Nat.not_le.mpr hshort), hopen, if_neg (by simp)]

end Connect


/-! ### Turns -/

/-- Whose turn it is: of both before the host took a first reply, of the host when it is to
acknowledge one, and of the guest when the host waits for the next. -/
inductive Turn where
  | opening
  | host
  | guest
deriving DecidableEq

/-- The replies a guest may be giving, what follows them, and what they tell. -/
inductive Reply (request : ExecutionRequest) (received : List (TenantLogStream × List UInt8))
    (unsent : List UInt8) (g : Guest) (toGuest : Socket UInt8) :
    Turn → ExecutionFrame → AfterReply → Prop where
  | started (hrequest : g.request = some request) (hprinted : g.printed = received)
      (hunsent : unsent = []) (hread : toGuest.pending = []) :
      Reply request received unsent g toGuest .opening .started (.forward [])
  | refused (reason : Rejection)
      (hrequest : g.request = none ∨ unsent = [] ∧ g.request = some request)
      (hprinted : g.printed = received) :
      Reply request received unsent g toGuest .opening (.rejected reason)
        (.leave (.refused reason))
  | output (pipe : TenantLogStream) (bytes : List UInt8) (pipes : List TenantLogStream)
      (hrequest : g.request = some request) (hprinted : g.printed = received ++ [(pipe, bytes)])
      (hwritable : unwritable (outputFrame pipe bytes) = false) (hread : toGuest.pending = []) :
      Reply request received unsent g toGuest .guest (outputFrame pipe bytes) (.forward pipes)
  | exited (status : CronExitStatus) (hrequest : g.request = some request)
      (hprinted : g.printed = received) (hclosed : g.stdout = false ∧ g.stderr = false)
      (hexited : g.exited = true)
      (hwritable : unwritable (.exit status.code status.signal) = false) :
      Reply request received unsent g toGuest .guest (.exit status.code status.signal)
        (.leave (.exited status))

/-- The host is to blame for no end of the guest's but by hanging up. -/
def FairEnd (toGuest : Socket UInt8) (why : GuestEnd) : Prop :=
  why ≠ .badAck ∧ (why = .aborted ∨ why = .unacknowledged → toGuest.ended = true)

/-- What the guest's side is at: the request that is still to be read, the turn, what of its reply
was said. -/
inductive GuestPhase (request : ExecutionRequest) (bytes : List UInt8)
    (received : List (TenantLogStream × List UInt8)) (unsent : List UInt8) (g : Guest)
    (toGuest : Socket UInt8) : Turn → List UInt8 → Bool → Prop where
  | reading (got : List UInt8) (hstage : g.stage = .listening ∧ got = [] ∨ g.stage = .reading got)
      (hgot : got ++ (toGuest.pending ++ unsent) = bytes) (hshort : got ≠ bytes)
      (hrequest : g.request = none) (hprinted : g.printed = received) :
      GuestPhase request bytes received unsent g toGuest .opening [] false
  | spawning (hstage : g.stage = .spawning) (hrequest : g.request = some request)
      (hprinted : g.printed = received) (hunsent : unsent = []) (hread : toGuest.pending = []) :
      GuestPhase request bytes received unsent g toGuest .opening [] false
  | sending {turn : Turn} {said : List UInt8} (frame : ExecutionFrame) (after : AfterReply)
      (rest : List UInt8) (hstage : g.stage = .sending rest after)
      (hsaid : said ++ rest = replyFrame frame) (hrest : rest ≠ [])
      (hreply : Reply request received unsent g toGuest turn frame after) :
      GuestPhase request bytes received unsent g toGuest turn said false
  | awaiting {turn : Turn} {said : List UInt8} (frame : ExecutionFrame)
      (pipes : List TenantLogStream) (hstage : g.stage = .awaiting pipes)
      (hsaid : said = replyFrame frame)
      (hreply : Reply request received unsent g toGuest turn frame (.forward pipes)) :
      GuestPhase request bytes received unsent g toGuest turn said false
  | heard (pipes : List TenantLogStream) (hstage : g.stage = .awaiting pipes)
      (hrequest : g.request = some request) (hprinted : g.printed = received)
      (hread : toGuest.pending = []) :
      GuestPhase request bytes received unsent g toGuest .host [] false
  | acknowledged (pipes : List TenantLogStream) (hstage : g.stage = .awaiting pipes)
      (hrequest : g.request = some request) (hprinted : g.printed = received)
      (hread : toGuest.pending = [ack]) :
      GuestPhase request bytes received unsent g toGuest .guest [] false
  | forwarding (pipes : List TenantLogStream) (hstage : g.stage = .forwarding pipes)
      (hrequest : g.request = some request) (hprinted : g.printed = received)
      (hread : toGuest.pending = []) :
      GuestPhase request bytes received unsent g toGuest .guest [] false
  | finishing (hstage : g.stage = .finishing) (hrequest : g.request = some request)
      (hprinted : g.printed = received) (hclosed : g.stdout = false ∧ g.stderr = false)
      (hexited : g.exited = true) (hread : toGuest.pending = []) :
      GuestPhase request bytes received unsent g toGuest .guest [] false
  | silent {turn : Turn} (why : GuestEnd) (hstage : g.stage = .gone why)
      (hwhy : FairEnd toGuest why)
      (hrequest : g.request = none ∨ g.request = some request) (hprinted : g.printed = received) :
      GuestPhase request bytes received unsent g toGuest turn [] true
  | broken {turn : Turn} {said : List UInt8} (frame : ExecutionFrame) (after : AfterReply)
      (why : GuestEnd) (hstage : g.stage = .gone why) (hwhy : FairEnd toGuest why)
      (hsaid : said <+: replyFrame frame)
      (hlast : ∀ last, after = .leave last → said = replyFrame frame → why = last)
      (hreply : Reply request received unsent g toGuest turn frame after) :
      GuestPhase request bytes received unsent g toGuest turn said true

/-! ### The guest's steps -/

section GuestSteps

variable {request : ExecutionRequest} {bytes : List UInt8}
  {received : List (TenantLogStream × List UInt8)} {unsent : List UInt8} {turn : Turn}
  {said : List UInt8} {s : Exchange}

/-- A reply is the same wherever the guest is at, and whether or not the host hung up. -/
theorem Reply.elsewhere {g : Guest} {toGuest : Socket UInt8} {frame : ExecutionFrame}
    {after : AfterReply} (h : Reply request received unsent g toGuest turn frame after)
    (stage : GuestStage) (ended : Bool) :
    Reply request received unsent { g with stage := stage } { toGuest with ended := ended } turn
      frame after := by
  cases h with
  | started hrequest hprinted hunsent hread => exact .started hrequest hprinted hunsent hread
  | refused reason hrequest hprinted => exact .refused reason hrequest hprinted
  | output pipe bytes pipes hrequest hprinted hwritable hread =>
    exact .output pipe bytes pipes hrequest hprinted hwritable hread
  | exited status hrequest hprinted hclosed hexited hwritable =>
    exact .exited status hrequest hprinted hclosed hexited hwritable

theorem Reply.atStage {g : Guest} {toGuest : Socket UInt8} {frame : ExecutionFrame}
    {after : AfterReply} (h : Reply request received unsent g toGuest turn frame after)
    (stage : GuestStage) :
    Reply request received unsent { g with stage := stage } toGuest turn frame after :=
  h.elsewhere stage toGuest.ended

theorem Reply.writable {g : Guest} {toGuest : Socket UInt8} {frame : ExecutionFrame}
    {after : AfterReply} (h : Reply request received unsent g toGuest turn frame after) :
    unwritable frame = false := by
  cases h with
  | started | refused => rfl
  | output _ _ _ _ _ hwritable => exact hwritable
  | exited _ _ _ _ _ hwritable => exact hwritable

/-- A step of the guest: the host is where it was, and what the guest says is behind what it
said. -/
structure GuestMoves (request : ExecutionRequest) (bytes : List UInt8)
    (received : List (TenantLogStream × List UInt8)) (unsent : List UInt8) (turn : Turn)
    (said : List UInt8) (s t : Exchange) : Prop where
  host : t.host = s.host
  hangs : t.toGuest.ended = s.toGuest.ended
  speaks : ∃ more, t.toHost.pending = s.toHost.pending ++ more ∧
    GuestPhase request bytes received unsent t.guest t.toGuest turn (said ++ more)
      t.toHost.ended

/-- Nothing is said. -/
theorem GuestMoves.quiet {t : Exchange} (host : t.host = s.host)
    (hangs : t.toGuest.ended = s.toGuest.ended) (hpending : t.toHost.pending = s.toHost.pending)
    (h : GuestPhase request bytes received unsent t.guest t.toGuest turn said t.toHost.ended) :
    GuestMoves request bytes received unsent turn said s t :=
  ⟨host, hangs, [], by rw [hpending, List.append_nil], by rwa [List.append_nil]⟩

/-- The guest may end anywhere. -/
theorem GuestPhase.leave {g : Guest} {toGuest : Socket UInt8} {ended : Bool}
    (h : GuestPhase request bytes received unsent g toGuest turn said ended)
    (hgone : ∀ why, g.stage ≠ .gone why) {why : GuestEnd} (hwhy : FairEnd toGuest why) :
    GuestPhase request bytes received unsent { g with stage := .gone why } toGuest turn said
      true := by
  cases h with
  | reading got hstage hgot hshort hrequest hprinted =>
    exact .silent why rfl hwhy (.inl hrequest) hprinted
  | spawning hstage hrequest hprinted => exact .silent why rfl hwhy (.inr hrequest) hprinted
  | sending frame after rest hstage hsaid hrest hreply =>
    refine .broken frame after why rfl hwhy ⟨rest, hsaid⟩ (fun last _ hfull => ?_)
      (hreply.atStage _)
    rw [hfull, List.append_right_eq_self] at hsaid
    exact absurd hsaid hrest
  | awaiting frame pipes hstage hsaid hreply =>
    exact .broken frame _ why rfl hwhy (hsaid ▸ List.prefix_rfl) (fun last h => by cases h)
      (hreply.atStage _)
  | heard pipes hstage hrequest hprinted => exact .silent why rfl hwhy (.inr hrequest) hprinted
  | acknowledged pipes hstage hrequest hprinted | forwarding pipes hstage hrequest hprinted =>
    exact .silent why rfl hwhy (.inr hrequest) hprinted
  | finishing hstage hrequest hprinted => exact .silent why rfl hwhy (.inr hrequest) hprinted
  | silent why hstage | broken frame after why hstage => exact absurd hstage (hgone why)

theorem GuestPhase.moves_leave
    (h : GuestPhase request bytes received unsent s.guest s.toGuest turn said s.toHost.ended)
    (hgone : ∀ why, s.guest.stage ≠ .gone why) {why : GuestEnd} (hwhy : FairEnd s.toGuest why) :
    GuestMoves request bytes received unsent turn said s (s.leave why) :=
  .quiet rfl rfl rfl (h.leave hgone hwhy)

/-- A reply that may be given is begun. -/
theorem Reply.moves {frame : ExecutionFrame} {after : AfterReply} {t : Exchange}
    (h : Reply request received unsent t.guest t.toGuest turn frame after)
    (host : t.host = s.host) (hangs : t.toGuest.ended = s.toGuest.ended)
    (hpending : t.toHost = s.toHost) (hopen : s.toHost.ended = false) :
    GuestMoves request bytes received unsent turn [] s (t.reply frame after) := by
  have hencode : encodeReply frame = .ok (replyFrame frame) :=
    encodeReply_eq_ok_iff.mpr ⟨h.writable, rfl⟩
  have hreply : t.reply frame after =
      { t with guest := { t.guest with stage := .sending (replyFrame frame) after } } := by
    rw [Exchange.reply, hencode]
  rw [hreply]
  refine .quiet host hangs (congrArg _ hpending) ?_
  dsimp only
  rw [hpending, hopen]
  exact .sending frame after _ rfl (List.nil_append _) (replyFrame_ne_nil frame) (h.atStage _)

theorem fairEnd_failed (toGuest : Socket UInt8) : FairEnd toGuest .failed :=
  ⟨by decide, fun h => absurd h (by decide)⟩

/-- A request comes in. -/
theorem GuestPhase.moves_recv (hbytes : encodeRequest request = .ok bytes) {got : List UInt8}
    (hgot : got ++ (s.toGuest.pending ++ unsent) = bytes)
    (hrequest : s.guest.request = none) (hprinted : s.guest.printed = received)
    (hopen : s.toHost.ended = false) (n : ℕ) :
    GuestMoves request bytes received unsent .opening [] s (s.recv got n) := by
  have hrefuse {t : Exchange} (hguest : t.guest.request = none ∧ t.guest.printed = received)
      (host : t.host = s.host) (hangs : t.toGuest.ended = s.toGuest.ended)
      (hpending : t.toHost = s.toHost) :
      GuestMoves request bytes received unsent .opening [] s (t.refuse .malformed) :=
    (Reply.refused .malformed (.inl hguest.1) hguest.2).moves host hangs hpending hopen
  rw [Exchange.recv]
  split
  · exact hrefuse ⟨hrequest, hprinted⟩ rfl rfl rfl
  · dsimp only
    generalize min n (wanted got) = n
    have hsplit : got ++ s.toGuest.pending.take n ++ ((s.toGuest.drop n).pending ++ unsent) =
        bytes := by
      rw [← hgot, List.append_assoc, ← List.append_assoc (List.take n _),
        Socket.take_append_pending]
    rw [readRequest_of_start hbytes (hsplit ▸ List.prefix_append _ _)]
    by_cases hall : got ++ s.toGuest.pending.take n = bytes
    · -- all was read, so nothing is left to read or to send
      rw [if_pos hall]
      have hnil : (s.toGuest.drop n).pending ++ unsent = [] := by
        rw [hall, List.append_right_eq_self] at hsplit
        exact hsplit
      obtain ⟨hread, hunsent⟩ := List.append_eq_nil_iff.mp hnil
      refine .quiet rfl rfl rfl ?_
      dsimp only
      rw [hopen]
      exact .spawning rfl rfl hprinted hunsent hread
    · rw [if_neg hall]
      refine .quiet rfl rfl rfl ?_
      dsimp only
      rw [hopen]
      exact .reading _ (.inr rfl) hsplit hall hrequest hprinted

/-- A reply goes on. -/
theorem GuestPhase.moves_send {frame : ExecutionFrame} {after : AfterReply} {rest : List UInt8}
    (hsaid : said ++ rest = replyFrame frame)
    (hreply : Reply request received unsent s.guest s.toGuest turn frame after)
    (hwhy : ∀ why, after = .leave why → FairEnd s.toGuest why) (hopen : s.toHost.ended = false)
    (n : ℕ) :
    GuestMoves request bytes received unsent turn said s (s.sendReply rest after n) := by
  have hsaid' : said ++ rest.take n ++ rest.drop n = replyFrame frame := by
    rw [List.append_assoc, List.take_append_drop, hsaid]
  unfold Exchange.sendReply
  dsimp only
  by_cases hrest : rest.drop n ≠ []
  · rw [if_pos hrest]
    refine ⟨rfl, rfl, rest.take n, rfl, ?_⟩
    dsimp only [Socket.ended_write]
    rw [hopen]
    exact .sending frame after _ rfl hsaid' hrest (hreply.atStage _)
  · rw [if_neg hrest]
    rw [ne_eq, Decidable.not_not] at hrest
    rw [hrest, List.append_nil] at hsaid'
    cases after with
    | forward pipes =>
      refine ⟨rfl, rfl, rest.take n, rfl, ?_⟩
      dsimp only [Socket.ended_write]
      rw [hopen]
      exact .awaiting frame pipes rfl hsaid' (hreply.atStage _)
    | leave why =>
      refine ⟨rfl, rfl, rest.take n, rfl, ?_⟩
      refine .broken frame _ why rfl (hwhy why rfl) (hsaid' ▸ List.prefix_rfl) ?_
        (hreply.atStage _)
      rintro last hlast -
      cases hlast
      rfl

/-- A round of `forward`. -/
theorem GuestPhase.moves_poll (hrequest : s.guest.request = some request)
    (hprinted : s.guest.printed = received)
    (hread : s.toGuest.pending = []) (hopen : s.toHost.ended = false) (exits : Bool)
    (ready : TenantLogStream → Bool) :
    GuestMoves request bytes received unsent .guest [] s (s.poll exits ready) := by
  rw [Exchange.poll]
  dsimp only
  split
  · rename_i hdone
    rw [Bool.and_eq_true, Bool.and_eq_true, Bool.not_eq_true', Bool.not_eq_true'] at hdone
    refine .quiet rfl rfl rfl ?_
    dsimp only
    rw [hopen]
    exact .finishing rfl hrequest hprinted ⟨hdone.1.2, hdone.2⟩ hdone.1.1 hread
  · split
    · rename_i hreadable
      have hended := (Socket.isReadable_iff.mp hreadable).resolve_left (fun h => h hread)
      refine .quiet rfl rfl rfl ?_
      exact .silent .aborted rfl ⟨by decide, fun _ => hended⟩ (.inr hrequest) hprinted
    · refine .quiet rfl rfl rfl ?_
      dsimp only
      rw [hopen]
      exact .forwarding _ rfl hrequest hprinted hread

/-- A pipe is read. -/
theorem GuestPhase.moves_read {pipe : TenantLogStream} {pipes : List TenantLogStream}
    (hrequest : s.guest.request = some request) (hprinted : s.guest.printed = received)
    (hread : s.toGuest.pending = []) (hopen : s.toHost.ended = false)
    (output : Option (List UInt8)) :
    GuestMoves request bytes received unsent .guest [] s (s.readPipe pipe pipes output) := by
  cases output with
  | none =>
    refine .quiet rfl rfl rfl ?_
    dsimp only [Exchange.readPipe]
    rw [hopen]
    exact .forwarding pipes rfl hrequest hprinted hread
  | some output =>
    rw [Exchange.readPipe]
    dsimp only
    by_cases hnil : output.take maxOutputBytes = []
    · rw [if_pos hnil]
      refine .quiet rfl rfl rfl ?_
      dsimp only
      rw [hopen]
      cases pipe with
      | stdout | stderr => exact .forwarding pipes rfl hrequest hprinted hread
    · rw [if_neg hnil]
      have hwritable : unwritable (outputFrame pipe (output.take maxOutputBytes)) = false := by
        have hsize : 1 ≤ (output.take maxOutputBytes).length ∧
            (output.take maxOutputBytes).length ≤ maxOutputBytes :=
          ⟨List.length_pos_iff.mpr hnil, List.length_take_le _ _⟩
        cases pipe with
        | stdout | stderr =>
          rw [outputFrame, unwritable, decide_eq_true hsize.1, decide_eq_true hsize.2]
          rfl
      have hreply : Reply request received unsent
          { s.guest with
            printed := s.guest.printed ++ [(pipe, output.take maxOutputBytes)] } s.toGuest .guest
          (outputFrame pipe (output.take maxOutputBytes)) (.forward pipes) :=
        .output pipe _ pipes hrequest (by rw [hprinted]) hwritable hread
      exact hreply.moves (t := { s with guest := _ }) rfl rfl rfl hopen

/-- What the guest does, at whatever it is at. -/
theorem GuestPhase.moves (hbytes : encodeRequest request = .ok bytes)
    (h : GuestPhase request bytes received unsent s.guest s.toGuest turn said s.toHost.ended)
    (action : GuestAction) :
    GuestMoves request bytes received unsent turn said s (s.stepGuest action) := by
  have hstay : GuestMoves request bytes received unsent turn said s s := .quiet rfl rfl rfl h
  have hfail (hgone : ∀ why, s.guest.stage ≠ .gone why) :
      GuestMoves request bytes received unsent turn said s (s.leave .failed) :=
    h.moves_leave hgone (fairEnd_failed _)
  generalize hopen : s.toHost.ended = ended at h
  cases h with
  | reading got hstage hgot hshort hrequest hprinted =>
    have hrefuse (reason : Rejection) :
        GuestMoves request bytes received unsent .opening [] s (s.refuse reason) :=
      (Reply.refused reason (.inl hrequest) hprinted).moves rfl rfl rfl hopen
    rcases hstage with ⟨hstage, rfl⟩ | hstage
    · cases action with
      | accept serving =>
        cases serving with
        | worker =>
          simp only [Exchange.stepGuest, hstage]
          refine .quiet rfl rfl rfl ?_
          dsimp only
          rw [hopen]
          exact .reading [] (.inr rfl) hgot hshort hrequest hprinted
        | busy | forkFailed =>
          simp only [Exchange.stepGuest, hstage]
          exact hrefuse _
      | _ =>
        simp only [Exchange.stepGuest, hstage]
        first | exact hstay | exact hfail (by simp [hstage])
    · cases action with
      | recv n =>
        simp only [Exchange.stepGuest, hstage]
        exact moves_recv hbytes hgot hrequest hprinted hopen n
      | fail =>
        simp only [Exchange.stepGuest, hstage]
        exact hrefuse _
      | _ =>
        simp only [Exchange.stepGuest, hstage]
        first | exact hstay | exact hfail (by simp [hstage])
  | spawning hstage hrequest hprinted hunsent hread =>
    cases action with
    | spawn succeeds =>
      cases succeeds with
      | true =>
        simp only [Exchange.stepGuest, hstage]
        exact (Reply.started (g := { s.guest with stdout := true, stderr := true }) hrequest
          hprinted hunsent hread).moves (t := { s with guest := _ }) rfl rfl rfl hopen
      | false =>
        simp only [Exchange.stepGuest, hstage]
        exact (Reply.refused _ (.inr ⟨hunsent, hrequest⟩) hprinted).moves rfl rfl rfl hopen
    | _ =>
      simp only [Exchange.stepGuest, hstage]
      first | exact hstay | exact hfail (by simp [hstage])
  | sending frame after rest hstage hsaid hrest hreply =>
    cases action with
    | send n =>
      simp only [Exchange.stepGuest, hstage]
      refine moves_send hsaid hreply (fun why hwhy => ?_) hopen n
      subst hwhy
      cases hreply with
      | refused | exited => exact ⟨by simp, by simp⟩
    | _ =>
      simp only [Exchange.stepGuest, hstage]
      first | exact hstay | exact hfail (by simp [hstage])
  | awaiting frame pipes hstage hsaid hreply =>
    cases action with
    | recvAck =>
      have hread : s.toGuest.pending = [] := by
        cases hreply with
        | started _ _ _ hread => exact hread
        | output _ _ _ _ _ _ hread => exact hread
      simp only [Exchange.stepGuest, hstage, Exchange.recvAck, hread]
      split
      · rename_i hended
        refine .quiet rfl rfl rfl ?_
        exact .broken frame _ _ rfl ⟨by decide, fun _ => hended⟩ (hsaid ▸ List.prefix_rfl)
          (fun last h => by cases h) (hreply.atStage _)
      · exact hstay
    | _ =>
      simp only [Exchange.stepGuest, hstage]
      first | exact hstay | exact hfail (by simp [hstage])
  | heard pipes hstage hrequest hprinted hread =>
    cases action with
    | recvAck =>
      simp only [Exchange.stepGuest, hstage, Exchange.recvAck, hread]
      split
      · rename_i hended
        refine .quiet rfl rfl rfl ?_
        exact .silent _ rfl ⟨by decide, fun _ => hended⟩ (.inr hrequest) hprinted
      · exact hstay
    | _ =>
      simp only [Exchange.stepGuest, hstage]
      first | exact hstay | exact hfail (by simp [hstage])
  | acknowledged pipes hstage hrequest hprinted hread =>
    cases action with
    | recvAck =>
      simp only [Exchange.stepGuest, hstage, Exchange.recvAck, hread, if_true]
      refine .quiet rfl rfl rfl ?_
      dsimp only
      rw [hopen]
      exact .forwarding pipes rfl hrequest hprinted (by rw [Socket.pending_drop, hread]; rfl)
    | _ =>
      simp only [Exchange.stepGuest, hstage]
      first | exact hstay | exact hfail (by simp [hstage])
  | forwarding pipes hstage hrequest hprinted hread =>
    cases pipes with
    | nil =>
      cases action with
      | poll exits ready =>
        simp only [Exchange.stepGuest, hstage]
        exact moves_poll hrequest hprinted hread hopen exits ready
      | _ =>
        simp only [Exchange.stepGuest, hstage]
        first | exact hstay | exact hfail (by simp [hstage])
    | cons pipe pipes =>
      cases action with
      | read output =>
        simp only [Exchange.stepGuest, hstage]
        exact moves_read hrequest hprinted hread hopen output
      | _ =>
        simp only [Exchange.stepGuest, hstage]
        first | exact hstay | exact hfail (by simp [hstage])
  | finishing hstage hrequest hprinted hclosed hexited hread =>
    cases action with
    | reap status =>
      simp only [Exchange.stepGuest, hstage]
      by_cases hwritable :
          unwritable (.exit status.toExit.code status.toExit.signal) = false
      · exact (Reply.exited status.toExit hrequest hprinted hclosed hexited hwritable).moves rfl rfl
          rfl hopen
      · rw [Exchange.reply]
        split
        · rename_i hencode
          exact absurd (encodeReply_eq_ok_iff.mp hencode).1 hwritable
        · exact hfail (by simp [hstage])
    | _ =>
      simp only [Exchange.stepGuest, hstage]
      first | exact hstay | exact hfail (by simp [hstage])
  | silent why hstage | broken frame after why hstage =>
    simp only [Exchange.stepGuest, hstage]
    exact hstay

end GuestSteps

/-! ### The host's steps -/

section HostSteps

variable {request : ExecutionRequest} {bytes : List UInt8}
  {received : List (TenantLogStream × List UInt8)} {unsent : List UInt8} {turn : Turn}
  {said : List UInt8} {g : Guest} {toGuest : Socket UInt8} {ended : Bool}

theorem FairEnd.finish {why : GuestEnd} (h : FairEnd toGuest why) : FairEnd toGuest.finish why :=
  ⟨h.1, fun _ => rfl⟩

theorem Reply.finish {frame : ExecutionFrame} {after : AfterReply}
    (h : Reply request received unsent g toGuest turn frame after) :
    Reply request received unsent g toGuest.finish turn frame after :=
  h.elsewhere g.stage true

/-- The host hangs up. -/
theorem GuestPhase.finish
    (h : GuestPhase request bytes received unsent g toGuest turn said ended) :
    GuestPhase request bytes received unsent g toGuest.finish turn said ended := by
  cases h with
  | reading got hstage hgot hshort hrequest hprinted =>
    exact .reading got hstage hgot hshort hrequest hprinted
  | spawning hstage hrequest hprinted hunsent hread =>
    exact .spawning hstage hrequest hprinted hunsent hread
  | sending frame after rest hstage hsaid hrest hreply =>
    exact .sending frame after rest hstage hsaid hrest hreply.finish
  | awaiting frame pipes hstage hsaid hreply =>
    exact .awaiting frame pipes hstage hsaid hreply.finish
  | heard pipes hstage hrequest hprinted hread => exact .heard pipes hstage hrequest hprinted hread
  | acknowledged pipes hstage hrequest hprinted hread =>
    exact .acknowledged pipes hstage hrequest hprinted hread
  | forwarding pipes hstage hrequest hprinted hread =>
    exact .forwarding pipes hstage hrequest hprinted hread
  | finishing hstage hrequest hprinted hclosed hexited hread =>
    exact .finishing hstage hrequest hprinted hclosed hexited hread
  | silent why hstage hwhy hrequest hprinted =>
    exact .silent why hstage hwhy.finish hrequest hprinted
  | broken frame after why hstage hwhy hsaid hlast hreply =>
    exact .broken frame after why hstage hwhy.finish hsaid hlast hreply.finish

/-- Some of the request is sent. -/
theorem GuestPhase.send (h : GuestPhase request bytes received unsent g toGuest .opening said ended)
    (n : ℕ) :
    GuestPhase request bytes received (unsent.drop n) g (toGuest.write (unsent.take n)) .opening
      said ended := by
  have hreply {frame : ExecutionFrame} {after : AfterReply}
      (h : Reply request received unsent g toGuest .opening frame after) :
      Reply request received (unsent.drop n) g (toGuest.write (unsent.take n)) .opening frame
        after := by
    cases h with
    | started hrequest hprinted hunsent hread =>
      subst hunsent
      exact .started hrequest hprinted List.drop_nil (by simp [hread])
    | refused reason hrequest hprinted =>
      refine .refused reason (hrequest.imp_right fun h => ⟨?_, h.2⟩) hprinted
      rw [h.1, List.drop_nil]
  cases h with
  | reading got hstage hgot hshort hrequest hprinted =>
    refine .reading got hstage ?_ hshort hrequest hprinted
    rw [Socket.pending_write, List.append_assoc, List.take_append_drop]
    exact hgot
  | spawning hstage hrequest hprinted hunsent hread =>
    subst hunsent
    exact .spawning hstage hrequest hprinted List.drop_nil (by simp [hread])
  | sending frame after rest hstage hsaid hrest h =>
    exact .sending frame after rest hstage hsaid hrest (hreply h)
  | awaiting frame pipes hstage hsaid h => exact .awaiting frame pipes hstage hsaid (hreply h)
  | silent why hstage hwhy hrequest hprinted => exact .silent why hstage hwhy hrequest hprinted
  | broken frame after why hstage hwhy hsaid hlast h =>
    exact .broken frame after why hstage hwhy hsaid hlast (hreply h)

/-- The host acknowledges. -/
theorem GuestPhase.acknowledge
    (h : GuestPhase request bytes received [] g toGuest .host said ended) :
    said = [] ∧
      GuestPhase request bytes received [] g (toGuest.write [ack]) .guest [] ended := by
  cases h with
  | heard pipes hstage hrequest hprinted hread =>
    exact ⟨rfl, .acknowledged pipes hstage hrequest hprinted (by simp [hread])⟩
  | silent why hstage hwhy hrequest hprinted =>
    exact ⟨rfl, .silent why hstage hwhy hrequest hprinted⟩
  | sending frame after rest hstage hsaid hrest hreply | awaiting frame pipes hstage hsaid hreply
  | broken frame after why hstage hwhy hsaid hlast hreply => cases hreply

/-- A guest that said all of a reply waits for the host, or is gone. -/
inductive Waits (g : Guest) (toGuest : Socket UInt8) : AfterReply → Bool → Prop where
  | awaiting (pipes : List TenantLogStream) (hstage : g.stage = .awaiting pipes) :
      Waits g toGuest (.forward pipes) false
  | gone {after : AfterReply} (why : GuestEnd) (hstage : g.stage = .gone why)
      (hwhy : FairEnd toGuest why) (hlast : ∀ last, after = .leave last → why = last) :
      Waits g toGuest after true

/-- What was said is the beginning of one reply, and at its end the guest waits. -/
theorem GuestPhase.hears
    (h : GuestPhase request bytes received unsent g toGuest turn said ended) :
    ∃ frame, unwritable frame = false ∧ said <+: replyFrame frame ∧
      (said = replyFrame frame →
        ∃ after, Reply request received unsent g toGuest turn frame after ∧
          Waits g toGuest after ended) := by
  have hsilent : ∃ frame, unwritable frame = false ∧ [] <+: replyFrame frame ∧
      ([] = replyFrame frame →
        ∃ after, Reply request received unsent g toGuest turn frame after ∧
          Waits g toGuest after ended) :=
    ⟨.started, rfl, List.nil_prefix, fun h => absurd h.symm (replyFrame_ne_nil _)⟩
  cases h with
  | reading | spawning | heard | acknowledged | forwarding | finishing | silent => exact hsilent
  | sending frame after rest hstage hsaid hrest hreply =>
    refine ⟨frame, hreply.writable, ⟨rest, hsaid⟩, fun hfull => ?_⟩
    rw [hfull, List.append_right_eq_self] at hsaid
    exact absurd hsaid hrest
  | awaiting frame pipes hstage hsaid hreply =>
    exact ⟨frame, hreply.writable, hsaid ▸ List.prefix_rfl,
      fun _ => ⟨_, hreply, .awaiting _ hstage⟩⟩
  | broken frame after why hstage hwhy hsaid hlast hreply =>
    exact ⟨frame, hreply.writable, hsaid, fun hfull =>
      ⟨after, hreply, .gone why hstage hwhy fun last h => hlast last h hfull⟩⟩

/-- A guest that speaks before it has read its request refuses it. -/
theorem GuestPhase.refuses (h : GuestPhase request bytes received unsent g toGuest turn said ended)
    (hunsent : unsent ≠ []) (hsaid : said ≠ []) (hturn : turn = .opening) :
    g.request = none ∧
      ((∃ rest why, g.stage = .sending rest (.leave why)) ∨ ∃ why, g.stage = .gone why) := by
  subst hturn
  have hreply {frame : ExecutionFrame} {after : AfterReply}
      (h : Reply request received unsent g toGuest .opening frame after) :
      g.request = none ∧ ∃ why, after = .leave why := by
    cases h with
    | started _ _ h => exact absurd h hunsent
    | refused reason hrequest =>
      exact ⟨hrequest.resolve_right fun h => hunsent h.1, _, rfl⟩
  cases h with
  | reading | spawning | silent => exact absurd rfl hsaid
  | sending frame after rest hstage _ _ h =>
    obtain ⟨hrequest, why, rfl⟩ := hreply h
    exact ⟨hrequest, .inl ⟨rest, why, hstage⟩⟩
  | awaiting frame pipes hstage _ h =>
    obtain ⟨-, why, hafter⟩ := hreply h
    cases hafter
  | broken frame after why hstage _ _ _ h => exact ⟨(hreply h).1, .inr ⟨why, hstage⟩⟩

end HostSteps

end Nibrunner.CronExchange
