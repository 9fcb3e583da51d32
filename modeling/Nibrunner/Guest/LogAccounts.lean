import Mathlib.Data.List.Nodup
import Mathlib.Data.Nat.ModEq
import Nibrunner.ForStd.Run
import Nibrunner.Guest.Forwarder
import Nibrunner.Guest.LogsChunking

/-!
# The account of the tenant's output

Nothing a tenant prints is lost without a word: what the host has of it, what it was told it missed
and what it will be told make up what was handed in.

* `accounted_for`: **the account of every run**, whatever becomes of the dials and the writes, with
  the order of the frames on each connection.
* `not_accounted_for`: what is pending is a 64-bit counter, and a host that stays away until it
  wraps is told too little.

A call tries a frame at most twice, and the second try is on a connection that was dialed in
between. `Follows` is what any part of a call keeps that delivers no frame handed in; a gap moves
bytes from the counter to what was announced and keeps the sum.
-/

namespace Nibrunner.GuestLogs

namespace Forwarding

/-- What holds of the frames that arrived, wherever the forwarder is. -/
structure Recorded (s : Forwarding) : Prop where
  known (a : Arrival) (ha : a ∈ s.arrivals) : a.connection < s.pendingAt.length
  announcesFirst : s.AnnouncesFirst
  once : s.wholeCalls.Nodup

/-- A connection that is held has been told what was pending, and nothing is now. -/
def Ready (s : Forwarding) : Prop :=
  ∀ connection, s.connection = some connection →
    s.droppedBytes = 0 ∧ Told s.pendingAt s.arrivals connection

/-- What a part of a call keeps that delivers no frame handed in. -/
structure Follows (s s' : Forwarding) : Prop where
  recorded : s'.Recorded
  ready : s'.Ready
  handedIn : s'.handedIn = s.handedIn
  wholeCalls : s'.wholeCalls = s.wholeCalls
  dropped_le : s'.droppedBytes.toNat ≤ s.droppedBytes.toNat
  balance : s'.received + s'.droppedBytes.toNat = s.received + s.droppedBytes.toNat

end Forwarding

/-! ### Arrivals -/

section Arrivals

variable {pendingAt : List UInt64} {before : List Arrival} {a : Arrival}
  {connection : ConnectionId}

theorem Told.mono_arrivals (h : Told pendingAt before connection) (a : Arrival) :
    Told pendingAt (before ++ [a]) connection := by
  obtain ⟨pending, hp, hzero | ⟨b, hb, hgap⟩⟩ := h
  · exact ⟨pending, hp, .inl hzero⟩
  · exact ⟨pending, hp, .inr ⟨b, List.mem_append_left _ hb, hgap⟩⟩

theorem getElem?_concat_of_some {pending : UInt64} (h : pendingAt[connection]? = some pending)
    (p : UInt64) : (pendingAt ++ [p])[connection]? = some pending := by
  rw [List.getElem?_append_left (List.getElem?_eq_some_iff.mp h).choose]
  exact h

theorem Told.mono_pendingAt (h : Told pendingAt before connection) (p : UInt64) :
    Told (pendingAt ++ [p]) before connection := by
  obtain ⟨pending, hp, hcase⟩ := h
  exact ⟨pending, getElem?_concat_of_some hp p, hcase⟩

theorem Announced.mono_pendingAt (h : Announced pendingAt before a) (p : UInt64) :
    Announced (pendingAt ++ [p]) before a := by
  obtain ⟨connection, sent, bytes⟩ := a
  cases sent with
  | handedIn call frame => exact Told.mono_pendingAt h p
  | gap droppedBytes => exact ⟨getElem?_concat_of_some h.1 p, h.2⟩

theorem Announced.known (h : Announced pendingAt before a) : a.connection < pendingAt.length := by
  obtain ⟨connection, sent, bytes⟩ := a
  cases sent with
  | handedIn call frame =>
    obtain ⟨pending, hp, -⟩ := h
    exact (List.getElem?_eq_some_iff.mp hp).choose
  | gap droppedBytes => exact (List.getElem?_eq_some_iff.mp h.1).choose

theorem encodeFrame_pos (kind : UInt8) (payload : List UInt8) :
    0 < (encodeFrame kind payload).length := by
  rw [length_encodeFrame, frameHeaderBytes]
  omega

/-- A write that fails does not bring a frame whole. -/
theorem arriving_error_ne {frame : List UInt8} (h : 0 < frame.length) (delivered : ℕ) :
    (WriteAll.error delivered).arriving frame ≠ frame := by
  intro heq
  have hlen := congrArg List.length heq
  rw [WriteAll.arriving, List.length_take] at hlen
  omega

end Arrivals

namespace Forwarding

variable {s s' s'' : Forwarding} {a : Arrival} {connection : ConnectionId} {call : CallId}
  {frame : List UInt8}

theorem received_arrive : (s.arrive a).received = s.received + a.accounted := by
  simp [arrive, received]

theorem wholeCalls_arrive : (s.arrive a).wholeCalls = s.wholeCalls ++ a.wholeCall.toList := by
  cases h : a.wholeCall <;> simp [arrive, wholeCalls, h]

theorem Recorded.arrive (hs : s.Recorded) (ha : Announced s.pendingAt s.arrivals a)
    (honce : ∀ call, a.wholeCall = some call → call ∉ s.wholeCalls) : (s.arrive a).Recorded := by
  refine ⟨?_, ?_, ?_⟩
  · intro b hb
    rcases List.mem_append.mp hb with hb | hb
    · exact hs.known b hb
    · rw [List.mem_singleton.mp hb]
      exact ha.known
  · intro before b after heq
    rcases List.eq_nil_or_concat after with rfl | ⟨after, last, rfl⟩
    · obtain ⟨rfl, hlast⟩ := List.append_inj' heq rfl
      rw [← List.singleton_inj.mp hlast]
      exact ha
    · have hcut : s.arrivals ++ [a] = (before ++ b :: after) ++ [last] := heq.trans (by simp)
      exact hs.announcesFirst before b after (List.append_inj' hcut rfl).1
  · rw [wholeCalls_arrive]
    cases hw : a.wholeCall with
    | none => simpa using hs.once
    | some call =>
      refine List.nodup_append.mpr ⟨hs.once, List.nodup_singleton _, fun x hx y hy heq => ?_⟩
      obtain rfl : y = call := List.mem_singleton.mp hy
      exact honce y hw (heq ▸ hx)

namespace Follows

theorem refl (hs : s.Recorded) (hr : s.Ready) : Follows s s := ⟨hs, hr, rfl, rfl, le_rfl, rfl⟩

theorem trans (h : Follows s s') (h' : Follows s' s'') : Follows s s'' where
  recorded := h'.recorded
  ready := h'.ready
  handedIn := h'.handedIn.trans h.handedIn
  wholeCalls := h'.wholeCalls.trans h.wholeCalls
  dropped_le := h'.dropped_le.trans h.dropped_le
  balance := h'.balance.trans h.balance

end Follows

/-- What a frame that arrives whole brings. -/
theorem accounted_whole (connection : ConnectionId) (sent : Sent) :
    Arrival.accounted ⟨connection, sent, sent.frame⟩ =
      match sent with
      | .handedIn _ frame => frame.length - frameHeaderBytes
      | .gap droppedBytes => droppedBytes.toNat := if_pos (decide_eq_true rfl)

theorem deliver_ok {sent : Sent} (hc : s.connection = some connection) :
    s.deliver sent .ok =
      (true, s.arrive ⟨connection, sent, sent.frame⟩) := by
  rw [deliver, hc]
  rfl

theorem deliver_error {sent : Sent} (hc : s.connection = some connection) (delivered : ℕ) :
    s.deliver sent (.error delivered) =
      (false, (s.arrive ⟨connection, sent,
        (WriteAll.error delivered).arriving sent.frame⟩).disconnect) := by
  rw [deliver, hc]

/-! ### A fresh connection -/

/-- What arrives of a frame whose write fails changes nothing but the history. -/
theorem follows_lost (hs : s.Recorded) (ha : Announced s.pendingAt s.arrivals a)
    (hw : a.isWhole = false) : Follows s (s.arrive a).disconnect := by
  have hcall : a.wholeCall = none := by
    rw [Arrival.wholeCall, hw]
    split <;> rfl
  have hzero : a.accounted = 0 := by simp [Arrival.accounted, hw]
  refine ⟨?_, nofun, rfl, ?_, le_rfl, ?_⟩
  · have hr := hs.arrive ha (by simp [hcall])
    exact ⟨hr.known, hr.announcesFirst, hr.once⟩
  · exact wholeCalls_arrive.trans (by simp [hcall])
  · exact congrArg (· + s.droppedBytes.toNat) (received_arrive.trans (by rw [hzero, Nat.add_zero]))

/-- A dial that comes through, on which nothing was said yet. -/
theorem recorded_dial (hs : s.Recorded) (dialed : Bool) : (s.dial dialed).Recorded := by
  cases dialed with
  | false => exact ⟨hs.known, hs.announcesFirst, hs.once⟩
  | true =>
    refine ⟨fun a ha => ?_, fun before a after heq => ?_, hs.once⟩
    · rw [dial, if_pos rfl, List.length_append]
      exact Nat.lt_add_right _ (hs.known a ha)
    · exact (hs.announcesFirst before a after heq).mono_pendingAt _

/-- Declaring the gap on a connection that was just dialed. -/
theorem follows_declareGap (hs : s.Recorded) (outcome : WriteAll) :
    Follows s ((s.dial true).declareGap outcome).2 ∧
      ((s.dial true).declareGap outcome).1 =
        ((s.dial true).declareGap outcome).2.connection.isSome := by
  have hr := recorded_dial hs true
  have hc : (s.dial true).connection = some s.pendingAt.length := rfl
  have hpending : (s.dial true).pendingAt[s.pendingAt.length]? = some s.droppedBytes :=
    List.getElem?_concat_length ..
  have hnew (b : Arrival) (hb : b ∈ s.arrivals) : b.connection ≠ s.pendingAt.length :=
    Nat.ne_of_lt (hs.known b hb)
  rw [declareGap]
  split_ifs with hzero
  · -- nothing was pending at the dial, and nothing needs to be said
    refine ⟨⟨hr, ?_, rfl, rfl, le_rfl, rfl⟩, rfl⟩
    rintro c ⟨⟩
    exact ⟨hzero, s.droppedBytes, hpending, .inl hzero⟩
  · cases outcome with
    | ok =>
      -- what was pending becomes what was announced
      rw [deliver_ok hc]
      have hrec := hr.arrive (a := ⟨s.pendingAt.length, .gap s.droppedBytes,
        (Sent.gap s.droppedBytes).frame⟩) ⟨hpending, hnew⟩ nofun
      refine ⟨⟨⟨hrec.known, hrec.announcesFirst, hrec.once⟩, ?_, rfl, ?_, Nat.zero_le _, ?_⟩, rfl⟩
      · rintro c ⟨⟩
        exact ⟨rfl, s.droppedBytes, hpending, .inr ⟨_, List.mem_append_right _
          (List.mem_singleton.mpr rfl), rfl, rfl, decide_eq_true rfl⟩⟩
      · exact wholeCalls_arrive.trans (List.append_nil _)
      · exact received_arrive.trans (congrArg _ (accounted_whole _ _))
    | error delivered =>
      rw [deliver_error hc]
      have hlost := follows_lost hr (a := ⟨s.pendingAt.length, .gap s.droppedBytes,
        (WriteAll.error delivered).arriving (encodeGap s.droppedBytes)⟩) ⟨hpending, hnew⟩
        (decide_eq_false (arriving_error_ne (encodeFrame_pos _ _) delivered))
      exact ⟨⟨hlost.recorded, hlost.ready, hlost.handedIn, hlost.wholeCalls, hlost.dropped_le,
        hlost.balance⟩, rfl⟩

theorem follows_redial (hs : s.Recorded) (answers : Answers) :
    Follows s (s.redial answers).2 ∧
      (s.redial answers).1 = (s.redial answers).2.connection.isSome := by
  rw [redial]
  cases answers.dialed with
  | false =>
    have hr := recorded_dial hs false
    exact ⟨⟨⟨hr.known, hr.announcesFirst, hr.once⟩, nofun, rfl, rfl, le_rfl, rfl⟩, rfl⟩
  | true =>
    obtain ⟨hf, hsome⟩ := follows_declareGap hs answers.gap
    simp only [show (s.dial true).connection.isSome = true from rfl, if_true]
    generalize (s.dial true).declareGap answers.gap = r at hf hsome
    obtain ⟨declared, t⟩ := r
    cases declared <;>
    exact ⟨⟨⟨hf.recorded.known, hf.recorded.announcesFirst, hf.recorded.once⟩, hf.ready,
      hf.handedIn, hf.wholeCalls, hf.dropped_le, hf.balance⟩, hsome⟩

/-! ### The tries of a call -/

/-- What trying to deliver a frame comes to: it arrived whole on a connection that had been told
what was pending, or the connection is gone and the frame did not arrive whole. -/
def Tried (s : Forwarding) (call : CallId) (frame : List UInt8) : Bool × Forwarding → Prop
  | (true, s') => ∃ t connection, Follows s t ∧ t.connection = some connection ∧
      s' = t.arrive ⟨connection, .handedIn call frame, frame⟩
  | (false, s') => s'.connection = none ∧ Follows s s'

theorem Tried.after {t : Forwarding} {r : Bool × Forwarding} (h : Follows s t)
    (hr : Tried t call frame r) : Tried s call frame r := by
  obtain ⟨_ | _, s'⟩ := r
  · exact ⟨hr.1, h.trans hr.2⟩
  · obtain ⟨u, connection, hu, hc, heq⟩ := hr
    exact ⟨u, connection, h.trans hu, hc, heq⟩

theorem tried_deliver (call : CallId) (hs : s.Recorded) (hr : s.Ready)
    (hc : s.connection = some connection) (hpos : 0 < frame.length) (outcome : WriteAll) :
    Tried s call frame (s.deliver (.handedIn call frame) outcome) := by
  cases outcome with
  | ok =>
    rw [deliver_ok hc]
    exact ⟨s, connection, .refl hs hr, hc, rfl⟩
  | error delivered =>
    rw [deliver_error hc]
    exact ⟨rfl, follows_lost hs (hr connection hc).2
      (decide_eq_false (arriving_error_ne hpos delivered))⟩

theorem tried_resend (hs : s.Recorded) (hpos : 0 < frame.length) (answers : Answers) :
    Tried s call frame (s.resend (.handedIn call frame) answers) := by
  obtain ⟨hf, hsome⟩ := follows_redial hs answers
  rw [resend]
  generalize s.redial answers = r at hf hsome
  obtain ⟨_ | _, t⟩ := r
  · exact ⟨Option.isSome_eq_false_iff.mp hsome.symm |> Option.isNone_iff_eq_none.mp, hf⟩
  · obtain ⟨connection, hc⟩ := Option.isSome_iff_exists.mp hsome.symm
    exact (tried_deliver call hf.recorded hf.ready hc hpos answers.second).after hf

theorem tried_attempt (call : CallId) (hs : s.Recorded) (hr : s.Ready) (hpos : 0 < frame.length)
    (answers : Answers) : Tried s call frame (s.attempt (.handedIn call frame) answers) := by
  rw [attempt]
  split_ifs with hheld hdue
  · obtain ⟨connection, hc⟩ := Option.isSome_iff_exists.mp hheld
    have ht := tried_deliver call hs hr hc hpos answers.first
    generalize s.deliver (.handedIn call frame) answers.first = r at ht
    obtain ⟨_ | _, t⟩ := r
    · exact (tried_resend ht.2.recorded hpos answers).after ht.2
    · exact ht
  · exact tried_resend hs hpos answers
  · exact ⟨by simpa using hheld, .refl hs hr⟩

/-- What a call adds to the bytes that are pending, if its frame is given up. -/
structure GivesUp (s s' : Forwarding) (bytes : ℕ) : Prop where
  wholeCalls : s'.wholeCalls = s.wholeCalls
  balance : ∃ left : UInt64, left.toNat ≤ s.droppedBytes.toNat ∧
    s'.received + left.toNat = s.received + s.droppedBytes.toNat ∧
    s'.droppedBytes = left + UInt64.ofNat bytes

/-- What a call does whose frame arrives. -/
structure Delivers (s s' : Forwarding) (call : CallId) (bytes : ℕ) : Prop where
  wholeCalls : s'.wholeCalls = s.wholeCalls ++ [call]
  balance : s'.received + s'.droppedBytes.toNat = s.received + s.droppedBytes.toNat + bytes

theorem send_spec (hs : s.Recorded) (hr : s.Ready) (hcall : call ∉ s.wholeCalls)
    (hpos : 0 < frame.length) (answers : Answers) :
    (s.send call frame answers).Recorded ∧ (s.send call frame answers).Ready ∧
      (s.send call frame answers).handedIn = s.handedIn ∧
      (Delivers s (s.send call frame answers) call (frame.length - frameHeaderBytes) ∨
        GivesUp s (s.send call frame answers) (frame.length - frameHeaderBytes)) := by
  have ht := tried_attempt call hs hr hpos answers
  rw [send]
  generalize s.attempt (.handedIn call frame) answers = r at ht
  obtain ⟨_ | _, t⟩ := r
  · obtain ⟨hnone, hf⟩ := ht
    refine ⟨⟨hf.recorded.known, hf.recorded.announcesFirst, hf.recorded.once⟩, ?_, hf.handedIn,
      .inr ⟨hf.wholeCalls, t.droppedBytes, hf.dropped_le, hf.balance, rfl⟩⟩
    rintro connection hc
    cases hnone.symm.trans hc
  · obtain ⟨t, connection, hf, hc, rfl⟩ := ht
    obtain ⟨hzero, htold⟩ := hf.ready connection hc
    have hwhole : Arrival.wholeCall ⟨connection, .handedIn call frame, frame⟩ = some call :=
      if_pos (decide_eq_true rfl)
    refine ⟨hf.recorded.arrive htold ?_, ?_, hf.handedIn, .inl ⟨?_, ?_⟩⟩
    · rintro _ heq
      cases hwhole.symm.trans heq
      rw [hf.wholeCalls]
      exact hcall
    · rintro c hc'
      cases hc.symm.trans hc'
      exact ⟨hzero, htold.mono_arrivals _⟩
    · rw [wholeCalls_arrive, hwhole, hf.wholeCalls]
      rfl
    · have hb := hf.balance
      have hw := accounted_whole connection (.handedIn call frame)
      rw [received_arrive, show (t.arrive _).droppedBytes = t.droppedBytes from rfl]
      simp only [Sent.frame] at hw
      omega

/-! ### One call -/

/-- What holds between calls. -/
structure Consistent (s : Forwarding) : Prop where
  recorded : s.Recorded
  ready : s.Ready
  calls (call : CallId) (h : call ∈ s.wholeCalls) : call < s.handedIn.length

/-- The bytes a call hands in. -/
def Call.payload : Call → List UInt8
  | .write _ bytes _ => bytes
  | .restarted restart _ => restartPayload restart
  | .reconnectIfDue _ => []

/-- The bytes pending and those a call hands in fit the counter. -/
def Fits (s : Forwarding) (c : Call) : Prop := s.droppedBytes.toNat + c.payload.length < 2 ^ 64

/-- What a call adds to the account: the bytes it hands in, up to what the counter wraps at. -/
structure Adds (s s' : Forwarding) (bytes : ℕ) : Prop where
  modulo : s'.received + s'.droppedBytes.toNat ≡
    s.received + s.droppedBytes.toNat + bytes [MOD 2 ^ 64]
  exact (h : s.droppedBytes.toNat + bytes < 2 ^ 64) :
    s'.received + s'.droppedBytes.toNat = s.received + s.droppedBytes.toNat + bytes

theorem Adds.of_eq {bytes : ℕ}
    (h : s'.received + s'.droppedBytes.toNat = s.received + s.droppedBytes.toNat + bytes) :
    Adds s s' bytes := ⟨h ▸ Nat.ModEq.refl _, fun _ => h⟩

theorem GivesUp.adds {bytes : ℕ} (h : GivesUp s s' bytes) : Adds s s' bytes := by
  obtain ⟨left, hle, hleft, hdropped⟩ := h.balance
  have hsum : s'.droppedBytes.toNat = (left.toNat + bytes % 2 ^ 64) % 2 ^ 64 := by
    rw [hdropped, UInt64.toNat_add, UInt64.toNat_ofNat']
  constructor
  · rw [Nat.ModEq, hsum]
    omega
  · intro hfits
    omega

theorem Consistent.sends (hs : s.Consistent) (payload : List UInt8) (kind : UInt8)
    (answers : Answers) :
    ((s.handIn payload).send s.handedIn.length (encodeFrame kind payload) answers).Consistent ∧
      ((s.handIn payload).send s.handedIn.length (encodeFrame kind payload) answers).handedInBytes
        = s.handedInBytes + payload.length ∧
      Adds s ((s.handIn payload).send s.handedIn.length (encodeFrame kind payload) answers)
        payload.length := by
  have hnew : s.handedIn.length ∉ (s.handIn payload).wholeCalls :=
    fun h => absurd (hs.calls _ h) (Nat.lt_irrefl _)
  have hlen : (encodeFrame kind payload).length - frameHeaderBytes = payload.length := by
    rw [length_encodeFrame]
    omega
  obtain ⟨hrec, hready, hhanded, hcase⟩ := send_spec (s := s.handIn payload)
    ⟨hs.recorded.known, hs.recorded.announcesFirst, hs.recorded.once⟩ hs.ready hnew
    (encodeFrame_pos kind payload) answers
  rw [hlen] at hcase
  generalize (s.handIn payload).send s.handedIn.length (encodeFrame kind payload) answers = t
    at hrec hready hhanded hcase
  have hlength : t.handedIn.length = s.handedIn.length + 1 := by
    rw [hhanded, handIn, List.length_append, List.length_singleton]
  refine ⟨⟨hrec, hready, fun call hmem => ?_⟩, ?_, ?_⟩
  · rw [hlength]
    rcases hcase with hd | hg
    · rcases List.mem_append.mp (hd.wholeCalls ▸ hmem) with hold | hnow
      · exact Nat.lt_succ_of_lt (hs.calls call hold)
      · rw [List.mem_singleton.mp hnow]
        exact Nat.lt_succ_self _
    · exact Nat.lt_succ_of_lt (hs.calls call (hg.wholeCalls ▸ hmem))
  · rw [handedInBytes, hhanded, handIn]
    simp [handedInBytes]
  · rcases hcase with hd | hg
    · have ha : Adds (s.handIn payload) t payload.length := .of_eq hd.balance
      exact ⟨ha.modulo, ha.exact⟩
    · have ha := hg.adds
      exact ⟨ha.modulo, ha.exact⟩

theorem Consistent.step (hs : s.Consistent) (c : Call) :
    (s.step c).Consistent ∧ (s.step c).handedInBytes = s.handedInBytes + c.payload.length ∧
      Adds s (s.step c) c.payload.length := by
  cases c with
  | write stream bytes answers => exact hs.sends bytes (kindOf stream) answers
  | restarted restart answers => exact hs.sends (restartPayload restart) kindRestart answers
  | reconnectIfDue answers =>
    rw [Forwarding.step]
    split_ifs with hdue
    · obtain ⟨hf, -⟩ := follows_redial hs.recorded answers
      refine ⟨⟨hf.recorded, hf.ready, fun call hmem => ?_⟩, ?_, .of_eq hf.balance⟩
      · rw [hf.handedIn]
        exact hs.calls call (hf.wholeCalls ▸ hmem)
      · rw [handedInBytes, hf.handedIn]
        rfl
    · exact ⟨hs, rfl, .of_eq rfl⟩

theorem consistent_new (now : ℕ) : (new now).Consistent where
  recorded := ⟨nofun, fun before a after h => by simp [new] at h, List.nodup_nil⟩
  ready := nofun
  calls := nofun

/-! ### Every run -/

/-- **The tenant's bytes are accounted for.** However dials and writes come out: no frame that was
handed in arrives whole twice, what is pending is announced on a connection before any later frame,
and nothing is pending while a connection is held. The bytes that arrive, are announced and are
pending are those handed in, as far as the counter goes: exactly where no call finds it too full for
what it hands in. -/
theorem accounted_for (now : ℕ) (calls : List Call) :
    let s := Run.run step (new now) calls
    s.wholeCalls.Nodup ∧ s.AnnouncesFirst ∧ (s.connection.isSome → s.droppedBytes = 0) ∧
      s.received + s.droppedBytes.toNat ≡ s.handedInBytes [MOD 2 ^ 64] ∧
      (Run.Meets step Fits (new now) calls →
        s.received + s.droppedBytes.toNat = s.handedInBytes) := by
  intro s
  have hrun := Run.invariant (I := fun t : Forwarding => t.Consistent ∧
      t.received + t.droppedBytes.toNat ≡ t.handedInBytes [MOD 2 ^ 64])
    (fun t c ht => ⟨(ht.1.step c).1, by
      rw [(ht.1.step c).2.1]
      exact (ht.1.step c).2.2.modulo.trans (ht.2.add_right _)⟩)
    ⟨consistent_new now, Nat.ModEq.refl _⟩ calls
  obtain ⟨hs, hmod⟩ := hrun
  refine ⟨hs.recorded.once, hs.recorded.announcesFirst, fun hheld => ?_, hmod, fun hmeets => ?_⟩
  · obtain ⟨connection, hc⟩ := Option.isSome_iff_exists.mp hheld
    exact (hs.ready connection hc).1
  · have hexact := hmeets.invariant (I := fun t => t.Consistent ∧
        t.received + t.droppedBytes.toNat = t.handedInBytes)
      (fun t c ht hfits => ⟨(ht.1.step c).1, by
        rw [(ht.1.step c).2.1, ← ht.2]
        exact (ht.1.step c).2.2.exact hfits⟩)
      ⟨consistent_new now, rfl⟩
    exact hexact.2

instance (s : Forwarding) (c : Call) : Decidable (s.Fits c) :=
  inferInstanceAs (Decidable (_ < 2 ^ 64))

/-! ### A host that is away -/

/-- What a call finds whose dial does not come through. -/
def away : Answers where
  now := 0
  first := .error 0
  dialed := false
  gap := .error 0
  redialedAt := 0
  second := .error 0

/-- What a call finds whose dial and writes come through, well after the last dial. -/
def back : Answers where
  now := retryCeiling
  first := .ok
  dialed := true
  gap := .ok
  redialedAt := retryCeiling
  second := .ok

/-- Two writes nobody hears, and one the host hears after the gap. -/
theorem accounted_for_back :
    let s := Run.run step (new 0) [.write .stdout (Bytes.ofText "one\n") away,
      .write .stderr (Bytes.ofText "two\n") away, .write .stdout (Bytes.ofText "three\n") back]
    s.handedInBytes = 14 ∧ s.wholeCalls = [2] ∧ s.droppedBytes = 0 ∧
      s.received + s.droppedBytes.toNat = s.handedInBytes :=
  ⟨by decide +kernel, by decide +kernel, by decide +kernel,
    (accounted_for 0 _).2.2.2.2 (by decide +kernel)⟩

theorem step_away {s : Forwarding} (hc : s.connection = none) (bytes : List UInt8) :
    (s.step (.write .stdout bytes away)).connection = none ∧
      (s.step (.write .stdout bytes away)).arrivals = s.arrivals ∧
      (s.step (.write .stdout bytes away)).droppedBytes =
        s.droppedBytes + UInt64.ofNat bytes.length ∧
      (s.step (.write .stdout bytes away)).handedIn = s.handedIn ++ [bytes] := by
  have hlen : (encodeFrame kindStdout bytes).length - frameHeaderBytes = bytes.length := by
    rw [length_encodeFrame]
    omega
  simp only [step, send, attempt, resend, redial, dial, disconnect, handIn, away, hc, kindOf,
    Option.isSome_none, Bool.false_eq_true, if_false]
  split_ifs <;> simp [hlen, hc]

/-- A host that stays away: every byte is counted. -/
theorem run_away (bytes : List UInt8) (n : ℕ) :
    let s := Run.run step (new 0) (List.replicate n (.write .stdout bytes away))
    s.connection = none ∧ s.arrivals = [] ∧ s.droppedBytes = UInt64.ofNat (n * bytes.length) ∧
      s.handedInBytes = n * bytes.length := by
  induction n with
  | zero => exact ⟨rfl, rfl, by simp [new], by simp [handedInBytes, new]⟩
  | succ n ih =>
    obtain ⟨hc, harrivals, hdropped, hhanded⟩ := ih
    obtain ⟨hc', harrivals', hdropped', hhanded'⟩ := step_away hc bytes
    rw [List.replicate_succ', Run.run_append]
    refine ⟨hc', harrivals'.trans harrivals, ?_, ?_⟩
    · rw [Run.run_cons, Run.run_nil, hdropped', hdropped, ← UInt64.ofNat_add, Nat.succ_mul]
    · rw [Run.run_cons, Run.run_nil, handedInBytes, hhanded', List.map_append, List.sum_append]
      rw [handedInBytes] at hhanded
      rw [hhanded, Nat.succ_mul]
      rfl

/-- What is pending is a 64-bit counter: a host that stays away for long enough is not told of
everything it missed. -/
theorem not_accounted_for : ¬ ∀ (now : ℕ) (calls : List Call),
    let s := Run.run step (new now) calls
    s.received + s.droppedBytes.toNat = s.handedInBytes := by
  intro h
  have hall (n : ℕ) (bytes : List UInt8) : n * bytes.length < 2 ^ 64 := by
    obtain ⟨-, harrivals, hdropped, hhanded⟩ := run_away bytes n
    have heq := h 0 (List.replicate n (.write .stdout bytes away))
    dsimp only at heq
    rw [received, harrivals, hdropped, hhanded, UInt64.toNat_ofNat'] at heq
    have hlt : n * bytes.length % 2 ^ 64 < 2 ^ 64 := Nat.mod_lt _ (by decide)
    simp only [List.map_nil, List.sum_nil] at heq
    omega
  have hover := hall (2 ^ 48) (List.replicate (2 ^ 16) 0)
  rw [List.length_replicate] at hover
  exact absurd hover (by decide)

end Forwarding

end Nibrunner.GuestLogs
