import Nibrunner.Cron.ExchangeTurns

/-!
# What a host hears of a cron command

`Agrees` says what the turns of an exchange mean to the host: what it has still to hear is what the
guest said. It holds in every run of the two, and from it follows that what the host tells of a
command is so in the guest (`exchange_heard`), and that neither of the two waits for the other in
vain (`exchange_goes_on`).
-/

namespace Nibrunner.CronExchange

open Bytes CronExecution Cron Run
open GuestLogs (TenantLogStream)

/-- The turn a host that has not finished is in. -/
def turnOf : HostStage → Turn
  | .acknowledging => .host
  | .receiving => .guest
  | _ => .opening

/-- What a host has still to send of its request. -/
def unsentOf (bytes : List UInt8) : HostStage → List UInt8
  | .connecting => bytes
  | .requesting rest => rest
  | _ => []

/-- What a host hears before the guest. -/
def greetingOf (port : ℕ) : HostStage → List UInt8
  | .connecting => Exchange.connectReply port
  | _ => []

/-- What the end of the host's run tells of the guest. -/
def Concludes (request : ExecutionRequest) (s : Exchange) :
    Except CronExecutionError CronExitStatus → Prop
  | .ok status =>
    s.guest.stage = .gone (.exited status) ∧ s.guest.request = some request ∧
      s.guest.printed = s.host.received ∧ s.guest.exited = true ∧ s.guest.stdout = false ∧
        s.guest.stderr = false
  | .error .malformed =>
    s.guest.request = none ∧
      ((∃ rest why, s.guest.stage = .sending rest (.leave why)) ∨ ∃ why, s.guest.stage = .gone why)
  | .error (.rejected reason) => s.guest.stage = .gone (.refused reason)
  | .error _ => True

/-- A run that is not over: what the host has still to hear is what the guest said. -/
structure Running (request : ExecutionRequest) (bytes : List UInt8) (port : ℕ) (s : Exchange) :
    Prop where
  unended : s.toGuest.ended = false
  hears : ∃ said,
    s.host.buffer ++ s.toHost.pending = greetingOf port s.host.stage ++ said ∧
      GuestPhase request bytes s.host.received (unsentOf bytes s.host.stage) s.guest s.toGuest
        (turnOf s.host.stage) said s.toHost.ended

/-- A run that is over for the host. -/
structure Over (request : ExecutionRequest) (bytes : List UInt8) (s : Exchange)
    (outcome : Except CronExecutionError CronExitStatus) : Prop where
  ended : s.toGuest.ended = true
  guest : ∃ unsent turn said,
    GuestPhase request bytes s.host.received unsent s.guest s.toGuest turn said s.toHost.ended
  concludes : Concludes request s outcome

def Agrees (request : ExecutionRequest) (bytes : List UInt8) (port : ℕ) (s : Exchange) : Prop :=
  match s.host.stage with
  | .finished outcome => Over request bytes s outcome
  | _ => Running request bytes port s

section System

variable {request : ExecutionRequest} {bytes : List UInt8} {port : ℕ} {s : Exchange}
  {clock : ℕ → Timestamp}

theorem agrees_of_running (h : Running request bytes port s)
    (hstage : ∀ outcome, s.host.stage ≠ .finished outcome) : Agrees request bytes port s := by
  rw [Agrees]
  split
  · exact absurd ‹_› (hstage _)
  · exact h

theorem Agrees.running (h : Agrees request bytes port s)
    (hstage : ∀ outcome, s.host.stage ≠ .finished outcome) : Running request bytes port s := by
  rw [Agrees] at h
  split at h
  · exact absurd ‹_› (hstage _)
  · exact h

/-- A host that goes on. -/
theorem withHost_of_stage {h : Host} (hstage : ∀ outcome, h.stage ≠ .finished outcome)
    (sent : List UInt8) :
    s.withHost h sent = { s with host := h, toGuest := s.toGuest.write sent } := by
  rw [Exchange.withHost]
  congr 1
  split
  · exact absurd ‹_› (hstage _)
  · rfl

theorem withHost_finish (outcome : Except CronExecutionError CronExitStatus) :
    s.withHost (s.host.finish clock outcome) [] =
      { s with host := s.host.finish clock outcome, toGuest := s.toGuest.finish } := by
  rw [Exchange.withHost, Socket.write_nil]
  rfl

/-- A run may end with whatever is so. -/
theorem Running.finish (h : Running request bytes port s)
    {outcome : Except CronExecutionError CronExitStatus}
    (hconcludes : Concludes request s outcome) :
    Agrees request bytes port (s.withHost (s.host.finish clock outcome) []) := by
  obtain ⟨-, said, -, hguest⟩ := h
  rw [withHost_finish]
  refine Over.mk rfl ⟨_, _, _, hguest.finish⟩ ?_
  match outcome, hconcludes with
  | .ok _, hconcludes | .error .malformed, hconcludes
  | .error (.rejected _), hconcludes => exact hconcludes
  | .error .disconnected, _ | .error .tooLarge, _ | .error .cancelled, _ => trivial

/-- A host that finds the connection not quiet finds more than it should, or its end. -/
theorem quiescent_eq_error {buffer : List UInt8} {toHost : Socket UInt8} {seen : Bool}
    {e : CronExecutionError} (h : quiescent buffer toHost seen = .error e) :
    e = .malformed ∧ buffer ++ toHost.pending ≠ [] ∨ e = .disconnected := by
  rw [quiescent] at h
  split at h
  · rename_i hbuffer
    exact .inl ⟨(Except.error.inj h).symm, fun hnil => hbuffer (List.append_eq_nil_iff.mp hnil).1⟩
  · split at h
    · cases h
    · split at h
      · rename_i hpending
        exact .inl ⟨(Except.error.inj h).symm,
          fun hnil => hpending (List.append_eq_nil_iff.mp hnil).2⟩
      · exact .inr (Except.error.inj h).symm

/-- The relay's reply is awaited. -/
theorem Running.proceed_connecting (hbytes : bytes ≠ []) (hpos : 0 < port) (hport : port < 2 ^ 32)
    (h : Running request bytes port s) (hstage : s.host.stage = .connecting) (seen : Bool) :
    Agrees request bytes port (s.stepHost clock bytes (.proceed seen)) := by
  obtain ⟨hunended, said, hhears, hguest⟩ := id h
  rw [hstage, greetingOf] at hhears
  have hend : s.toHost.atEnd = true → s.toHost.pending = [] := fun h =>
    (Socket.atEnd_iff.mp h).1
  simp only [Exchange.stepHost, hstage, Host.proceed]
  rcases connectLine_of_start hport hhears s.toHost.atEnd hend with
    ⟨hnone, -⟩ | ⟨rest, hbuffer, hrest, hsome⟩
  · rw [hnone]
    dsimp only
    rw [withHost_of_stage (by simp [hstage]), Socket.write_nil]
    exact agrees_of_running h (by simp [hstage])
  · rw [hsome]
    simp only [connected_connectReply hpos hport, Bool.not_true, Bool.false_eq_true, if_false]
    cases hquiet : quiescent rest s.toHost seen with
    | ok u =>
      dsimp only
      rw [withHost_of_stage (by simp), Socket.write_nil]
      refine agrees_of_running ⟨hunended, said, ?_, ?_⟩ (by simp)
      · exact hrest
      · rw [hstage] at hguest
        exact hguest
    | error e =>
      refine h.finish ?_
      rcases quiescent_eq_error hquiet with ⟨rfl, hmore⟩ | rfl
      · rw [hrest] at hmore
        exact hguest.refuses (by rw [hstage]; exact hbytes) hmore (by rw [hstage]; rfl)
      · trivial

/-- A reader that waits for a reply has the beginning of one. -/
theorem Running.receive (h : Running request bytes port s)
    (hgreeting : greetingOf port s.host.stage = []) :
    receive? s.host.buffer s.toHost.atEnd = none ∨
      receive? s.host.buffer s.toHost.atEnd = some (.error .disconnected) ∨
        ∃ frame after, receive? s.host.buffer s.toHost.atEnd = some (.ok (frame, [])) ∧
          s.toHost.pending = [] ∧
            Reply request s.host.received (unsentOf bytes s.host.stage) s.guest s.toGuest
              (turnOf s.host.stage) frame after ∧
              Waits s.guest s.toGuest after s.toHost.ended := by
  obtain ⟨-, said, hhears, hguest⟩ := h
  rw [hgreeting, List.nil_append] at hhears
  obtain ⟨frame, hwritable, hstart, hfull⟩ := hguest.hears
  have hbuffer : s.host.buffer <+: replyFrame frame :=
    (hhears ▸ List.prefix_append s.host.buffer s.toHost.pending).trans hstart
  rw [receive_of_start hwritable hbuffer]
  split
  · rename_i hall
    have hpending : s.toHost.pending = [] := by
      have hlength := hstart.length_le
      rw [← hhears, List.length_append, ← hall] at hlength
      exact List.length_eq_zero_iff.mp (by omega)
    rw [hpending, List.append_nil] at hhears
    obtain ⟨after, hreply, hwaits⟩ := hfull (hhears ▸ hall)
    exact .inr (.inr ⟨frame, after, rfl, hpending, hreply, hwaits⟩)
  · split
    · exact .inr (.inl rfl)
    · exact .inl rfl

/-- The first reply is awaited. -/
theorem Running.proceed_starting (h : Running request bytes port s)
    (hstage : s.host.stage = .starting) (seen : Bool) :
    Agrees request bytes port (s.stepHost clock bytes (.proceed seen)) := by
  simp only [Exchange.stepHost, hstage, Host.proceed]
  rcases h.receive (by rw [hstage]; rfl) with
    hnone | hlost | ⟨frame, after, hframe, hpending, hreply, hwaits⟩
  · rw [hnone]
    dsimp only
    rw [withHost_of_stage (by simp [hstage]), Socket.write_nil]
    exact agrees_of_running h (by simp [hstage])
  · rw [hlost]
    exact h.finish trivial
  · rw [hframe]
    rw [hstage] at hreply
    cases hreply with
    | started hrequest hprinted hunsent hread =>
      dsimp only [Host.start]
      rw [withHost_of_stage (by simp), Socket.write_nil]
      refine agrees_of_running ⟨h.unended, [], by simp [hpending, greetingOf], ?_⟩ (by simp)
      dsimp only
      generalize s.toHost.ended = ended at hwaits
      cases hwaits with
      | awaiting _ hawaiting => exact .heard [] hawaiting hrequest hprinted hread
      | gone why hgone hwhy => exact .silent why hgone hwhy (.inr hrequest) hprinted
    | refused reason hrequest hprinted =>
      refine h.finish ?_
      generalize s.toHost.ended = ended at hwaits
      cases hwaits with
      | gone why hgone hwhy hlast =>
        obtain rfl := hlast _ rfl
        exact hgone

/-- A reply is acknowledged. -/
theorem Running.proceed_acknowledging (h : Running request bytes port s)
    (hstage : s.host.stage = .acknowledging) (seen : Bool) :
    Agrees request bytes port (s.stepHost clock bytes (.proceed seen)) := by
  obtain ⟨hunended, said, hhears, hguest⟩ := id h
  rw [hstage] at hhears hguest
  obtain ⟨rfl, hacknowledged⟩ := GuestPhase.acknowledge hguest
  simp only [Exchange.stepHost, hstage, Host.proceed]
  cases hquiet : quiescent s.host.buffer s.toHost seen with
  | ok u =>
    dsimp only
    rw [withHost_of_stage (by simp)]
    exact agrees_of_running ⟨hunended, [], hhears, hacknowledged⟩ (by simp)
  | error e =>
    refine h.finish ?_
    rcases quiescent_eq_error hquiet with ⟨rfl, hmore⟩ | rfl
    · exact absurd hhears hmore
    · trivial

/-- A later reply is awaited. -/
theorem Running.proceed_receiving (h : Running request bytes port s)
    (hstage : s.host.stage = .receiving) (seen : Bool) :
    Agrees request bytes port (s.stepHost clock bytes (.proceed seen)) := by
  simp only [Exchange.stepHost, hstage, Host.proceed]
  rcases h.receive (by rw [hstage]; rfl) with
    hnone | hlost | ⟨frame, after, hframe, hpending, hreply, hwaits⟩
  · rw [hnone]
    dsimp only
    rw [withHost_of_stage (by simp [hstage]), Socket.write_nil]
    exact agrees_of_running h (by simp [hstage])
  · rw [hlost]
    exact h.finish trivial
  · rw [hframe]
    rw [hstage] at hreply
    cases hreply with
    | output pipe output pipes hrequest hprinted hwritable hread =>
      have hfollow : s.host.follow clock [] (outputFrame pipe output) =
          s.host.take clock pipe output [] := by
        cases pipe with
        | stdout | stderr => rfl
      dsimp only
      rw [hfollow, withHost_of_stage (by simp [Host.take]), Socket.write_nil]
      refine agrees_of_running ⟨h.unended, [], by simp [hpending, greetingOf, Host.take], ?_⟩
        (by simp [Host.take])
      dsimp only
      generalize s.toHost.ended = ended at hwaits
      cases hwaits with
      | awaiting _ hawaiting => exact .heard pipes hawaiting hrequest hprinted hread
      | gone why hgone hwhy => exact .silent why hgone hwhy (.inr hrequest) hprinted
    | exited status hrequest hprinted hclosed hexited hwritable =>
      refine h.finish ?_
      generalize s.toHost.ended = ended at hwaits
      cases hwaits with
      | gone why hgone hwhy hlast =>
        obtain rfl := hlast _ rfl
        exact ⟨hgone, hrequest, hprinted, hexited, hclosed.1, hclosed.2⟩

/-- What a host does that has not finished. -/
theorem stepHost_cases (clock : ℕ → Timestamp) (bytes : List UInt8)
    (hover : ∀ outcome, s.host.stage ≠ .finished outcome) (action : HostAction) :
    s.stepHost clock bytes action = s ∨
      (∃ e, (e = .cancelled ∨ e = .disconnected) ∧
        s.stepHost clock bytes action = s.withHost (s.host.finish clock (.error e)) []) ∨
      (∃ n, s.stepHost clock bytes action = { s with
        host := { s.host with buffer := s.host.buffer ++ s.toHost.pending.take n }
        toHost := s.toHost.drop n }) ∨
      (∃ rest n, s.host.stage = .requesting rest ∧ s.stepHost clock bytes action = s.withHost
        { s.host with stage := if rest.drop n = [] then .starting else .requesting (rest.drop n) }
        (rest.take n)) ∨
      ∃ seen, action = .proceed seen ∧
        s.stepHost clock bytes action = s.withHost (s.host.proceed clock bytes s.toHost seen).1
          (s.host.proceed clock bytes s.toHost seen).2 := by
  generalize hnext : s.stepHost clock bytes action = next
  unfold Exchange.stepHost at hnext
  split at hnext <;> cases hnext
  · exact absurd ‹_› (hover _)
  · exact .inr (.inl ⟨_, .inl rfl, rfl⟩)
  · exact .inr (.inl ⟨_, .inr rfl, rfl⟩)
  · rename_i hstage
    exact .inr (.inr (.inr (.inl ⟨_, _, hstage, rfl⟩)))
  · exact .inr (.inr (.inl ⟨_, rfl⟩))
  · exact .inr (.inr (.inl ⟨_, rfl⟩))
  · exact .inr (.inr (.inl ⟨_, rfl⟩))
  · exact .inr (.inr (.inr (.inr ⟨_, rfl, rfl⟩)))
  · exact .inl rfl

theorem Agrees.stepHost (hbytes : bytes ≠ []) (hpos : 0 < port) (hport : port < 2 ^ 32)
    (h : Agrees request bytes port s) (action : HostAction) :
    Agrees request bytes port (s.stepHost clock bytes action) := by
  by_cases hover : ∃ outcome, s.host.stage = .finished outcome
  · obtain ⟨outcome, hstage⟩ := hover
    simp only [Exchange.stepHost, hstage]
    exact h
  · rw [not_exists] at hover
    have hrun := h.running hover
    have hfill (n : ℕ) : Agrees request bytes port { s with
        host := { s.host with buffer := s.host.buffer ++ s.toHost.pending.take n }
        toHost := s.toHost.drop n } := by
      obtain ⟨hunended, said, hhears, hguest⟩ := hrun
      refine agrees_of_running ⟨hunended, said, ?_, hguest⟩ hover
      rw [List.append_assoc, Socket.take_append_pending]
      exact hhears
    rcases stepHost_cases clock bytes hover action with
      hsame | ⟨e, rfl | rfl, hends⟩ | ⟨n, hfills⟩ | ⟨rest, n, hstage, hsends⟩ | ⟨seen, rfl, -⟩
    · rwa [hsame]
    · rw [hends]
      exact hrun.finish trivial
    · rw [hends]
      exact hrun.finish trivial
    · rw [hfills]
      exact hfill n
    · obtain ⟨hunended, said, hhears, hguest⟩ := hrun
      rw [hstage] at hhears hguest
      have hsent := GuestPhase.send hguest n
      rw [hsends]
      split
      · rename_i hnil
        rw [withHost_of_stage (by simp)]
        rw [unsentOf, hnil] at hsent
        exact agrees_of_running ⟨hunended, said, hhears, hsent⟩ (by simp)
      · rw [withHost_of_stage (by simp)]
        exact agrees_of_running ⟨hunended, said, hhears, hsent⟩ (by simp)
    · cases hstage : s.host.stage with
      | finished outcome => exact absurd hstage (hover outcome)
      | connecting => exact hrun.proceed_connecting hbytes hpos hport hstage seen
      | requesting rest =>
        simp only [Exchange.stepHost, hstage, Host.proceed]
        rwa [withHost_of_stage hover, Socket.write_nil]
      | starting => exact hrun.proceed_starting hstage seen
      | acknowledging => exact hrun.proceed_acknowledging hstage seen
      | receiving => exact hrun.proceed_receiving hstage seen

theorem stepGuest_of_gone {why : GuestEnd} (h : s.guest.stage = .gone why) (action : GuestAction) :
    s.stepGuest action = s := by
  simp only [Exchange.stepGuest, h]

/-- A guest that is about to leave does no more than that. -/
theorem leaves_stepGuest {rest : List UInt8} {why : GuestEnd}
    (h : s.guest.stage = .sending rest (.leave why)) (action : GuestAction) :
    (s.stepGuest action).guest.request = s.guest.request ∧
      ((∃ rest why, (s.stepGuest action).guest.stage = .sending rest (.leave why)) ∨
        ∃ why, (s.stepGuest action).guest.stage = .gone why) := by
  cases action with
  | send n =>
    simp only [Exchange.stepGuest, h, Exchange.sendReply]
    split
    · exact ⟨rfl, .inl ⟨_, _, rfl⟩⟩
    · exact ⟨rfl, .inr ⟨_, rfl⟩⟩
  | stop | fail =>
    simp only [Exchange.stepGuest, h]
    exact ⟨rfl, .inr ⟨_, rfl⟩⟩
  | _ =>
    simp only [Exchange.stepGuest, h]
    exact ⟨trivial, .inl ⟨_, _, rfl⟩⟩

theorem Concludes.stepGuest {outcome : Except CronExecutionError CronExitStatus}
    (h : Concludes request s outcome) (action : GuestAction) :
    Concludes request (s.stepGuest action) outcome := by
  match outcome, h with
  | .ok status, h =>
    rw [stepGuest_of_gone h.1]
    exact h
  | .error (.rejected _), h =>
    rw [stepGuest_of_gone h]
    exact h
  | .error .malformed, ⟨hrequest, hleaves⟩ =>
    rcases hleaves with ⟨rest, why, hstage⟩ | ⟨why, hstage⟩
    · obtain ⟨hsame, hleaves⟩ := leaves_stepGuest hstage action
      exact ⟨hsame.trans hrequest, hleaves⟩
    · rw [stepGuest_of_gone hstage]
      exact ⟨hrequest, .inr ⟨why, hstage⟩⟩
  | .error .disconnected, _ | .error .tooLarge, _ | .error .cancelled, _ => trivial

theorem Agrees.stepGuest (hencode : encodeRequest request = .ok bytes)
    (h : Agrees request bytes port s) (action : GuestAction) :
    Agrees request bytes port (s.stepGuest action) := by
  by_cases hover : ∃ outcome, s.host.stage = .finished outcome
  · obtain ⟨outcome, hstage⟩ := hover
    rw [Agrees, hstage] at h
    obtain ⟨hended, ⟨unsent, turn, said, hguest⟩, hconcludes⟩ := h
    obtain ⟨hhost, hhangs, more, -, hmoved⟩ := hguest.moves hencode action
    rw [Agrees, hhost, hstage]
    refine ⟨hhangs.trans hended, ⟨unsent, turn, said ++ more, ?_⟩, hconcludes.stepGuest action⟩
    rw [hhost]
    exact hmoved
  · rw [not_exists] at hover
    obtain ⟨hunended, said, hhears, hguest⟩ := h.running hover
    obtain ⟨hhost, hhangs, more, hpending, hmoved⟩ := hguest.moves hencode action
    refine agrees_of_running ⟨hhangs.trans hunended, said ++ more, ?_, ?_⟩ (hhost ▸ hover)
    · rw [hhost, hpending, ← List.append_assoc, hhears, List.append_assoc]
    · rw [hhost]
      exact hmoved

theorem Agrees.host_stepGuest (hencode : encodeRequest request = .ok bytes)
    (h : Agrees request bytes port s) (action : GuestAction) :
    (s.stepGuest action).host = s.host := by
  rw [Agrees] at h
  split at h
  · obtain ⟨unsent, turn, said, hguest⟩ := h.guest
    exact (hguest.moves hencode action).host
  · obtain ⟨said, -, hguest⟩ := h.hears
    exact (hguest.moves hencode action).host

/-- What is published is the events of what was received, up to the last line. -/
def Published (clock : ℕ → Timestamp) (output : CronRunOutput) (h : Host) : Prop :=
  match h.stage with
  | .finished _ => h.published = output.eventsOf clock h.received
  | _ => ∀ more,
    output.eventsOf clock (h.received ++ more) = h.published ++ h.output.eventsOf clock more

/-- What a step of a host that has not finished leads to. -/
inductive HostMoves (clock : ℕ → Timestamp) (h : Host) : Host → Prop where
  | goes {stage : HostStage} {buffer : List UInt8}
      (hstage : ∀ outcome, stage ≠ .finished outcome) :
      HostMoves clock h { h with stage := stage, buffer := buffer }
  | finishes (outcome : Except CronExecutionError CronExitStatus) :
      HostMoves clock h (h.finish clock outcome)
  | takes (kind : TenantLogStream) (output buffer : List UInt8) :
      HostMoves clock h (h.take clock kind output buffer)

theorem HostMoves.stays {h : Host} (hstage : ∀ outcome, h.stage ≠ .finished outcome) :
    HostMoves clock h h :=
  (HostMoves.goes hstage : HostMoves clock h { h with stage := h.stage, buffer := h.buffer })

theorem Host.proceed_moves (clock : ℕ → Timestamp) (bytes : List UInt8) {h : Host}
    (hover : ∀ outcome, h.stage ≠ .finished outcome)
    (toHost : Socket UInt8) (seen : Bool) :
    HostMoves clock h (h.proceed clock bytes toHost seen).1 := by
  rw [Host.proceed]
  cases hstage : h.stage with
  | finished outcome => exact absurd hstage (hover outcome)
  | requesting rest => exact .stays hover
  | connecting =>
    dsimp only
    split
    · exact .stays hover
    · split
      · exact .finishes _
      · split
        · exact .goes (by simp)
        · exact .finishes _
  | starting =>
    dsimp only
    split
    · exact .stays hover
    · exact .finishes _
    · rename_i reply _ _
      cases reply with
      | started => exact .goes (by simp)
      | _ => exact .finishes _
  | acknowledging =>
    dsimp only
    split
    · exact .goes (by simp)
    · exact .finishes _
  | receiving =>
    dsimp only
    split
    · exact .stays hover
    · exact .finishes _
    · rename_i reply _ _
      cases reply with
      | stdout output => exact .takes .stdout output _
      | stderr output => exact .takes .stderr output _
      | _ => exact .finishes _

theorem HostMoves.of_stepHost (clock : ℕ → Timestamp) (bytes : List UInt8)
    (hover : ∀ outcome, s.host.stage ≠ .finished outcome) (action : HostAction) :
    HostMoves clock s.host (s.stepHost clock bytes action).host := by
  rcases stepHost_cases clock bytes hover action with
    hsame | ⟨e, -, hends⟩ | ⟨n, hfills⟩ | ⟨rest, n, -, hsends⟩ | ⟨seen, -, hgoes⟩
  · rw [hsame]
    exact .stays hover
  · rw [hends]
    exact .finishes _
  · rw [hfills]
    exact .goes hover
  · rw [hsends]
    refine .goes fun outcome => ?_
    split <;> simp
  · rw [hgoes]
    exact Host.proceed_moves clock bytes hover s.toHost seen

theorem Published.stepHost {output : CronRunOutput} (h : Published clock output s.host)
    (action : HostAction) : Published clock output (s.stepHost clock bytes action).host := by
  by_cases hover : ∃ outcome, s.host.stage = .finished outcome
  · obtain ⟨outcome, hstage⟩ := hover
    simp only [Exchange.stepHost, hstage]
    exact h
  · rw [not_exists] at hover
    have hmore : ∀ more, output.eventsOf clock (s.host.received ++ more) =
        s.host.published ++ s.host.output.eventsOf clock more := by
      rw [Published] at h
      split at h
      · exact absurd ‹_› (hover _)
      · exact h
    have hmoves := HostMoves.of_stepHost clock bytes hover action
    generalize (s.stepHost clock bytes action).host = h' at hmoves ⊢
    cases hmoves with
    | goes hstage =>
      rw [Published]
      split
      · exact absurd ‹_› (hstage _)
      · exact hmore
    | finishes outcome =>
      have hall := hmore []
      rw [List.append_nil, CronRunOutput.eventsOf] at hall
      exact hall.symm
    | takes kind output' buffer =>
      intro more
      have hnext := hmore ((kind, output') :: more)
      rw [List.append_cons, CronRunOutput.eventsOf] at hnext
      exact hnext.trans (List.append_assoc _ _ _).symm

/-! ### Runs -/

theorem agrees_opened (hencode : encodeRequest request = .ok bytes) (port : ℕ)
    (output : CronRunOutput) : Agrees request bytes port (Exchange.opened output port) := by
  refine agrees_of_running ⟨rfl, [], ?_, ?_⟩ (by simp [Exchange.opened])
  · rw [List.append_nil]
    rfl
  · obtain ⟨-, -, hbytes⟩ := encodeRequest_eq_ok_iff.mp hencode
    refine .reading [] (.inl ⟨rfl, rfl⟩) rfl ?_ rfl rfl
    rw [hbytes]
    exact (by simp [frame, magic])

/-- Every state of an exchange is one the two sides agree in. -/
theorem agrees_run (clock : ℕ → Timestamp) (hencode : encodeRequest request = .ok bytes)
    (hpos : 0 < port) (hport : port < 2 ^ 32) (output : CronRunOutput) (labels : List Label) :
    let s := run (Exchange.step clock bytes) (Exchange.opened output port) labels
    Agrees request bytes port s ∧ Published clock output s.host := by
  have hbytes : bytes ≠ [] := by
    obtain ⟨-, -, rfl⟩ := encodeRequest_eq_ok_iff.mp hencode
    simp [frame, magic]
  refine invariant (I := fun s => Agrees request bytes port s ∧ Published clock output s.host)
    (fun s label h => ?_) ⟨agrees_opened hencode port output, fun more => rfl⟩ labels
  cases label with
  | host action => exact ⟨h.1.stepHost hbytes hpos hport action, h.2.stepHost action⟩
  | guest action =>
    refine ⟨h.1.stepGuest hencode action, ?_⟩
    rw [Exchange.step, h.1.host_stepGuest hencode action]
    exact h.2

/-- What the guest read off its command's pipes is what the host received, and at most one more. -/
theorem GuestPhase.printed {received : List (TenantLogStream × List UInt8)} {unsent : List UInt8}
    {g : Guest} {toGuest : Socket UInt8} {turn : Turn} {said : List UInt8} {ended : Bool}
    (h : GuestPhase request bytes received unsent g toGuest turn said ended) :
    ∃ last, g.printed = received ++ last ∧ last.length ≤ 1 := by
  have hsame (hprinted : g.printed = received) :
      ∃ last, g.printed = received ++ last ∧ last.length ≤ 1 :=
    ⟨[], by rw [hprinted, List.append_nil], Nat.zero_le _⟩
  have hreply {frame : ExecutionFrame} {after : AfterReply}
      (h : Reply request received unsent g toGuest turn frame after) :
      ∃ last, g.printed = received ++ last ∧ last.length ≤ 1 := by
    cases h with
    | started _ hprinted => exact hsame hprinted
    | refused _ _ hprinted => exact hsame hprinted
    | output pipe output _ _ hprinted => exact ⟨[(pipe, output)], hprinted, Nat.le_refl _⟩
    | exited _ _ hprinted => exact hsame hprinted
  cases h with
  | reading _ _ _ _ _ hprinted => exact hsame hprinted
  | spawning _ _ hprinted => exact hsame hprinted
  | sending _ _ _ _ _ _ h => exact hreply h
  | awaiting _ _ _ _ h => exact hreply h
  | heard _ _ _ hprinted | acknowledged _ _ _ hprinted | forwarding _ _ _ hprinted
  | finishing _ _ hprinted | silent _ _ _ _ hprinted => exact hsame hprinted
  | broken _ _ _ _ _ _ _ h => exact hreply h

/-- The guest was asked for nothing but the request. -/
theorem GuestPhase.asked {received : List (TenantLogStream × List UInt8)} {unsent : List UInt8}
    {g : Guest} {toGuest : Socket UInt8} {turn : Turn} {said : List UInt8} {ended : Bool}
    (h : GuestPhase request bytes received unsent g toGuest turn said ended) :
    g.request = none ∨ g.request = some request := by
  have hreply {frame : ExecutionFrame} {after : AfterReply}
      (h : Reply request received unsent g toGuest turn frame after) :
      g.request = none ∨ g.request = some request := by
    cases h with
    | started hrequest => exact .inr hrequest
    | refused _ hrequest => exact hrequest.imp_right And.right
    | output _ _ _ hrequest => exact .inr hrequest
    | exited _ hrequest => exact .inr hrequest
  cases h with
  | reading _ _ _ _ hrequest => exact .inl hrequest
  | spawning _ hrequest => exact .inr hrequest
  | sending _ _ _ _ _ _ h => exact hreply h
  | awaiting _ _ _ _ h => exact hreply h
  | heard _ _ hrequest | acknowledged _ _ hrequest | forwarding _ _ hrequest
  | finishing _ hrequest => exact .inr hrequest
  | silent _ _ _ hrequest => exact hrequest
  | broken _ _ _ _ _ _ _ h => exact hreply h

theorem GuestPhase.fairEnd {received : List (TenantLogStream × List UInt8)} {unsent : List UInt8}
    {g : Guest} {toGuest : Socket UInt8} {turn : Turn} {said : List UInt8} {ended : Bool}
    (h : GuestPhase request bytes received unsent g toGuest turn said ended) {why : GuestEnd}
    (hgone : g.stage = .gone why) : FairEnd toGuest why := by
  cases h with
  | reading _ hstage =>
    rcases hstage with ⟨hstage, -⟩ | hstage
    · rw [hgone] at hstage
      cases hstage
    · rw [hgone] at hstage
      cases hstage
  | silent _ hstage hwhy | broken _ _ _ hstage hwhy =>
    rw [hgone] at hstage
    cases hstage
    exact hwhy
  | spawning hstage | sending _ _ _ hstage | awaiting _ _ hstage | heard _ hstage
  | acknowledged _ hstage | forwarding _ hstage | finishing hstage =>
    rw [hgone] at hstage
    cases hstage

theorem Agrees.guestPhase (h : Agrees request bytes port s) :
    ∃ unsent turn said, GuestPhase request bytes s.host.received unsent s.guest s.toGuest turn said
      s.toHost.ended := by
  rw [Agrees] at h
  split at h
  · exact h.guest
  · obtain ⟨said, -, hguest⟩ := h.hears
    exact ⟨_, _, said, hguest⟩

/-- **What a host tells of a cron run is so in its guest**, in every run of the two: whatever the
cuts of the bytes, the time-outs, the stops and the hang-ups. The guest runs no other command than
the host asked for; the host receives what the guest read off the command's pipes, in its order
and at most one read behind it, and publishes the events of just that. If it tells an exit, the
command has ended so and its output was received to the end. No run ends over a byte that
acknowledges nothing, and a guest finds its host gone only when it is; a host calls a reply
malformed only if the guest refused it before it had read the request. -/
theorem exchange_heard (hencode : encodeRequest request = .ok bytes) (hpos : 0 < port)
    (hport : port < 2 ^ 32) (clock : ℕ → Timestamp) (output : CronRunOutput)
    (labels : List Label) :
    let s := run (Exchange.step clock bytes) (Exchange.opened output port) labels
    (s.guest.request = none ∨ s.guest.request = some request) ∧
      (∃ last, s.guest.printed = s.host.received ++ last ∧ last.length ≤ 1) ∧
      (∀ why, s.guest.stage = .gone why → why ≠ .badAck ∧
        (why = .aborted ∨ why = .unacknowledged → ∃ outcome, s.host.stage = .finished outcome)) ∧
      ∀ outcome, s.host.stage = .finished outcome →
        s.host.published = output.eventsOf clock s.host.received ∧ Concludes request s outcome := by
  intro s
  obtain ⟨hagrees, hpublished⟩ := agrees_run clock hencode hpos hport output labels
  obtain ⟨unsent, turn, said, hguest⟩ := hagrees.guestPhase
  refine ⟨hguest.asked, hguest.printed, fun why hgone => ?_, fun outcome hover => ?_⟩
  · obtain ⟨hack, hhung⟩ := hguest.fairEnd hgone
    refine ⟨hack, fun hwhy => ?_⟩
    by_contra hrunning
    have hunended := (hagrees.running (not_exists.mp hrunning)).unended
    exact absurd (hhung hwhy) (by simp [hunended])
  · rw [Agrees, hover] at hagrees
    rw [Published, hover] at hpublished
    exact ⟨hpublished, hagrees.concludes⟩

end System

private def echoRequest : ExecutionRequest := ⟨"echo hi", ["TOKEN=a"]⟩

private def echoOutput : CronRunOutput where
  run := {
    key := ⟨⟨"app-one"⟩, ⟨"deployment-one"⟩, 0⟩
    job := {
      schedule := ⟨"0 3 * * *", by decide, by decide⟩
      command := ⟨"echo hi", by decide, by decide, by decide⟩
      environment := none }
    scheduledAt := 0 }
  sourceId := "source-one"
  jobId := "cron-one"
  runId := "run-one"
  sequence := 0
  stdout := []
  stderr := []

/-- A run to its end, cut in the middle of frames. -/
private def echoLabels : List Label :=
  [.host (.fill 5), .host (.fill 64), .host (.proceed true), .host (.send 10), .host (.send 90),
    .guest (.accept .worker), .guest (.recv 9), .guest (.recv 90), .guest (.spawn true),
    .guest (.send 90), .host (.fill 9), .host (.proceed true), .host (.proceed true),
    .guest .recvAck, .guest (.poll false fun pipe => pipe = .stdout),
    .guest (.read (some (ofText "hi"))), .guest (.send 5), .host (.fill 4), .guest (.send 90),
    .host (.fill 90), .host (.proceed true), .host (.proceed true), .guest .recvAck,
    .guest (.poll true fun _ => true), .guest (.read (some [])), .guest (.read (some [])),
    .guest (.poll true fun _ => true), .guest (.reap (.exited 3)), .guest (.send 90),
    .host (.fill 90), .host (.proceed true)]

theorem exchange_heard_echo :
    ∃ bytes, encodeRequest echoRequest = .ok bytes ∧
      let s := run (Exchange.step (fun _ => ⟨"2026-01-01T00:00:00.000Z"⟩) bytes)
        (Exchange.opened echoOutput 1073741824) echoLabels
      s.host.stage = .finished (.ok ⟨3, 0⟩) ∧ s.host.received = [(.stdout, ofText "hi")] ∧
        Concludes echoRequest s (.ok ⟨3, 0⟩) := by
  have hencode : encodeRequest echoRequest = .ok (frame 0 (requestBody echoRequest)) := by
    decide +kernel
  refine ⟨_, hencode, ?_⟩
  have hstage : (run (Exchange.step (fun _ => ⟨"2026-01-01T00:00:00.000Z"⟩)
      (frame 0 (requestBody echoRequest)))
        (Exchange.opened echoOutput 1073741824) echoLabels).host.stage =
          .finished (.ok ⟨3, 0⟩) := by
    decide +kernel
  refine ⟨hstage, by decide +kernel, ?_⟩
  exact ((exchange_heard hencode (by decide) (by decide) _ echoOutput echoLabels).2.2.2 _ hstage).2

/-! ### Waiting -/

/-- The guest is before its connection is taken, or at its command. -/
def Own : GuestStage → Prop
  | .listening | .spawning | .forwarding _ | .finishing => True
  | _ => False

/-- The steps by which bytes go over the connection and are read off it. -/
def transfers : List Label :=
  [.host (.fill 1), .host (.proceed false), .host (.send 1), .guest (.recv 1), .guest (.send 1),
    .guest .recvAck]

section Waiting

variable {request : ExecutionRequest} {bytes : List UInt8} {port : ℕ} {s : Exchange}
  {clock : ℕ → Timestamp}

/-- A step of the host's that changes what it is at. -/
theorem goes_on_of_host (action : HostAction) (haction : .host action ∈ transfers)
    (h : (s.stepHost clock bytes action).host.stage ≠ s.host.stage) :
    ∃ label ∈ transfers, s.step clock bytes label ≠ s :=
  ⟨_, haction, fun hsame => h (congrArg (fun s => s.host.stage) hsame)⟩

/-- A step of the guest's that changes what it is at. -/
theorem goes_on_of_guest (action : GuestAction) (haction : .guest action ∈ transfers)
    (h : (s.stepGuest action).guest.stage ≠ s.guest.stage) :
    ∃ label ∈ transfers, s.step clock bytes label ≠ s :=
  ⟨_, haction, fun hsame => h (congrArg (fun s => s.guest.stage) hsame)⟩

/-- A reader goes on while there is something to take. -/
theorem goes_on_of_pending (hreads : s.host.stage = .connecting ∨ s.host.stage = .starting ∨
    s.host.stage = .receiving) (hpending : s.toHost.pending ≠ []) :
    ∃ label ∈ transfers, s.step clock bytes label ≠ s := by
  refine ⟨.host (.fill 1), List.mem_cons_self, fun hsame => ?_⟩
  have hdrop : s.toHost.pending.drop 1 = s.toHost.pending := by
    have hsame := congrArg (fun s => s.toHost.pending) hsame
    rcases hreads with hstage | hstage | hstage
    all_goals
      simp only [Exchange.step, Exchange.stepHost, hstage] at hsame
      exact hsame
  have hlength := congrArg List.length hdrop
  rw [List.length_drop] at hlength
  have hpos := List.length_pos_iff.mpr hpending
  omega

/-- A host is never stuck before the guest has its request. -/
theorem Running.goes_on_connecting (hpos : 0 < port) (hport : port < 2 ^ 32)
    (h : Running request bytes port s) (hstage : s.host.stage = .connecting) :
    ∃ label ∈ transfers, s.step clock bytes label ≠ s := by
  obtain ⟨-, said, hhears, -⟩ := h
  rw [hstage, greetingOf] at hhears
  have hend : s.toHost.atEnd = true → s.toHost.pending = [] := fun h =>
    (Socket.atEnd_iff.mp h).1
  rcases connectLine_of_start hport hhears s.toHost.atEnd hend with
    ⟨-, hpending⟩ | ⟨rest, -, -, hsome⟩
  · exact goes_on_of_pending (.inl hstage) hpending
  · refine goes_on_of_host (.proceed false) (by simp [transfers]) ?_
    simp only [Exchange.stepHost, hstage, Host.proceed, hsome,
      connected_connectReply hpos hport, Bool.not_true, Bool.false_eq_true, if_false]
    split
    · exact fun hsame => by cases hsame
    · exact fun hsame => by cases hsame

theorem goes_on_requesting {rest : List UInt8} (hstage : s.host.stage = .requesting rest) :
    ∃ label ∈ transfers, s.step clock bytes label ≠ s := by
  refine goes_on_of_host (.send 1) (by simp [transfers]) ?_
  simp only [Exchange.stepHost, hstage, Exchange.withHost]
  split
  · exact fun hsame => by cases hsame
  · rename_i hmore
    intro hsame
    have hlength := congrArg List.length (HostStage.requesting.inj hsame)
    rw [List.length_drop] at hlength
    have hnil : rest = [] := List.length_eq_zero_iff.mp (by omega)
    rw [hnil] at hmore
    exact hmore rfl

theorem Running.goes_on_acknowledging (h : Running request bytes port s)
    (hstage : s.host.stage = .acknowledging) :
    ∃ label ∈ transfers, s.step clock bytes label ≠ s := by
  obtain ⟨-, said, hhears, hguest⟩ := h
  rw [hstage] at hhears hguest
  obtain ⟨rfl, -⟩ := GuestPhase.acknowledge hguest
  have hbuffer : s.host.buffer = [] := (List.append_eq_nil_iff.mp hhears).1
  refine goes_on_of_host (.proceed false) (by simp [transfers]) ?_
  simp only [Exchange.stepHost, hstage, Host.proceed, quiescent, hbuffer, ne_eq, not_true_eq_false,
    if_false, Bool.not_false, Bool.true_or, if_true]
  exact fun hsame => by cases hsame

/-- A host that waits for a reply goes on with all of one, and at the end of the stream. -/
theorem Running.goes_on_reading (h : Running request bytes port s)
    (hreads : s.host.stage = .starting ∨ s.host.stage = .receiving)
    (hall : s.toHost.ended = true ∨
      ∃ frame, s.host.buffer ++ s.toHost.pending = replyFrame frame ∧ unwritable frame = false) :
    ∃ label ∈ transfers, s.step clock bytes label ≠ s := by
  by_cases hpending : s.toHost.pending = []
  · have hgreeting : greetingOf port s.host.stage = [] := by
      rcases hreads with hstage | hstage <;> rw [hstage] <;> rfl
    have hreceive : receive? s.host.buffer s.toHost.atEnd ≠ none := by
      rcases hall with hended | ⟨frame, hframe, hwritable⟩
      · obtain ⟨-, said, hhears, hguest⟩ := h
        rw [hgreeting, List.nil_append, hpending, List.append_nil] at hhears
        obtain ⟨frame, hwritable, hstart, -⟩ := hguest.hears
        rw [receive_of_start hwritable (hhears ▸ hstart), Socket.atEnd_iff.mpr ⟨hpending, hended⟩]
        split <;> simp
      · rw [hpending, List.append_nil] at hframe
        rw [receive_of_start hwritable (hframe ▸ List.prefix_rfl), if_pos hframe]
        simp
    refine goes_on_of_host (.proceed false) (by simp [transfers]) ?_
    rcases hreads with hstage | hstage
    all_goals
      simp only [Exchange.stepHost, hstage, Host.proceed]
      split
      · exact absurd ‹_› hreceive
      · exact fun hsame => by cases hsame
      · rename_i reply _ _
        cases reply <;> exact fun hsame => by cases hsame
  · exact goes_on_of_pending (.inr hreads) hpending

/-- What is still wanted of a request that is not read. -/
theorem wanted_pos {got : List UInt8} (hencode : encodeRequest request = .ok bytes)
    (hstart : got <+: bytes) (hshort : got ≠ bytes) : 0 < wanted got := by
  have hread := readRequest_of_start hencode hstart
  rw [if_neg hshort, readRequest?] at hread
  rw [wanted]
  split
  · omega
  · rename_i hlong
    rw [if_neg hlong] at hread
    split
    · rename_i header hheader
      rw [hheader] at hread
      dsimp only at hread
      split at hread
      · omega
      · cases hread
    · rename_i hnone
      split at hread
      · exact absurd ‹_› (hnone _)
      · cases hread
      · cases hread

/-- A guest that reads its request goes on while some of it is there. -/
theorem goes_on_of_reading {got : List UInt8} (hencode : encodeRequest request = .ok bytes)
    (hstage : s.guest.stage = .reading got) (hgot : got ++ s.toGuest.pending = bytes)
    (hshort : got ≠ bytes) :
    ∃ label ∈ transfers, s.step clock bytes label ≠ s := by
  have hwanted := wanted_pos hencode (hgot ▸ List.prefix_append _ _) hshort
  have hpending : s.toGuest.pending ≠ [] := by
    intro hnil
    rw [hnil, List.append_nil] at hgot
    exact hshort hgot
  have hopen : s.toGuest.atEnd ≠ true := fun hend => hpending (Socket.atEnd_iff.mp hend).1
  have hstart : got ++ s.toGuest.pending.take (min 1 (wanted got)) <+: bytes :=
    ⟨s.toGuest.pending.drop (min 1 (wanted got)), by
      rw [List.append_assoc, List.take_append_drop, hgot]⟩
  have hlonger : got ++ s.toGuest.pending.take (min 1 (wanted got)) ≠ got := by
    rw [ne_eq, List.append_right_eq_self, List.take_eq_nil_iff, not_or]
    exact ⟨by omega, hpending⟩
  refine goes_on_of_guest (.recv 1) (by simp [transfers]) ?_
  simp only [Exchange.stepGuest, hstage, Exchange.recv, if_neg hopen,
    readRequest_of_start hencode hstart]
  split
  · exact fun hsame => hlonger (GuestStage.reading.inj hsame)
  · exact fun hsame => by cases hsame
  · rename_i hodd hread
    split at hread
    · exact absurd (Option.some.inj hread).symm (hodd request)
    · cases hread

/-- Where a host waits for a reply, one of the two goes on, or the guest is at its command. -/
theorem Running.goes_on_waiting (hencode : encodeRequest request = .ok bytes)
    (h : Running request bytes port s)
    (hreads : s.host.stage = .starting ∨ s.host.stage = .receiving) :
    Own s.guest.stage ∨ ∃ label ∈ transfers, s.step clock bytes label ≠ s := by
  obtain ⟨hunended, said, hhears, hguest⟩ := id h
  have hgreeting : greetingOf port s.host.stage = [] := by
    rcases hreads with hstage | hstage <;> rw [hstage] <;> rfl
  have hunsent : unsentOf bytes s.host.stage = [] := by
    rcases hreads with hstage | hstage <;> rw [hstage] <;> rfl
  have hturn : turnOf s.host.stage ≠ .host := by
    rcases hreads with hstage | hstage <;> rw [hstage] <;> decide
  rw [hunsent] at hguest
  rw [hgreeting, List.nil_append] at hhears
  generalize turnOf s.host.stage = turn at hguest hturn
  generalize hended : s.toHost.ended = ended at hguest
  cases hguest with
  | reading got hstage hgot hshort =>
    rcases hstage with ⟨hstage, -⟩ | hstage
    · exact .inl (by rw [hstage]; trivial)
    · rw [List.append_nil] at hgot
      exact .inr (goes_on_of_reading hencode hstage hgot hshort)
  | spawning hstage | forwarding _ hstage | finishing hstage =>
    exact .inl (by rw [hstage]; trivial)
  | sending frame after rest hstage _ hrest =>
    refine .inr (goes_on_of_guest (.send 1) (by simp [transfers]) ?_)
    simp only [Exchange.stepGuest, hstage, Exchange.sendReply]
    split
    · intro hsame
      have hlength := congrArg List.length (GuestStage.sending.inj hsame).1
      rw [List.length_drop] at hlength
      have hpos := List.length_pos_iff.mpr hrest
      omega
    · split
      · exact fun hsame => by cases hsame
      · exact fun hsame => by cases hsame
  | awaiting frame pipes hstage hsaid hreply =>
    exact .inr (h.goes_on_reading hreads (.inr ⟨frame, hhears.trans hsaid, hreply.writable⟩))
  | heard => exact absurd rfl hturn
  | acknowledged pipes hstage hrequest hprinted hread =>
    refine .inr (goes_on_of_guest .recvAck (by simp [transfers]) ?_)
    simp only [Exchange.stepGuest, hstage, Exchange.recvAck, hread, if_true]
    exact fun hsame => by cases hsame
  | silent | broken => exact .inr (h.goes_on_reading hreads (.inl hended))

/-- **Neither side ever waits for the other in vain.** As long as a host has not finished, in
whatever state the two have come to, a byte can be sent or read, or a reply taken, unless the guest
has still to take the connection or is at its command. -/
theorem exchange_goes_on (hencode : encodeRequest request = .ok bytes) (hpos : 0 < port)
    (hport : port < 2 ^ 32) (clock : ℕ → Timestamp) (output : CronRunOutput)
    (labels : List Label) :
    let s := run (Exchange.step clock bytes) (Exchange.opened output port) labels
    (∃ outcome, s.host.stage = .finished outcome) ∨ Own s.guest.stage ∨
      ∃ label ∈ transfers, s.step clock bytes label ≠ s := by
  intro s
  refine or_iff_not_imp_left.mpr fun hover => ?_
  have hrun := (agrees_run clock hencode hpos hport output labels).1.running (not_exists.mp hover)
  cases hstage : s.host.stage with
  | finished outcome => exact absurd ⟨outcome, hstage⟩ hover
  | connecting => exact .inr (hrun.goes_on_connecting hpos hport hstage)
  | requesting rest => exact .inr (goes_on_requesting hstage)
  | acknowledging => exact .inr (hrun.goes_on_acknowledging hstage)
  | starting => exact hrun.goes_on_waiting hencode (.inl hstage)
  | receiving => exact hrun.goes_on_waiting hencode (.inr hstage)

end Waiting

theorem exchange_goes_on_echo :
    ∃ bytes, encodeRequest echoRequest = .ok bytes ∧
      let s := run (Exchange.step (fun _ => ⟨"2026-01-01T00:00:00.000Z"⟩) bytes)
        (Exchange.opened echoOutput 1073741824) (echoLabels.take 17)
      ∃ label ∈ transfers, s.step (fun _ => ⟨"2026-01-01T00:00:00.000Z"⟩) bytes label ≠ s := by
  have hencode : encodeRequest echoRequest = .ok (frame 0 (requestBody echoRequest)) := by
    decide +kernel
  refine ⟨_, hencode, ?_⟩
  have hhost : (run (Exchange.step (fun _ => ⟨"2026-01-01T00:00:00.000Z"⟩)
      (frame 0 (requestBody echoRequest))) (Exchange.opened echoOutput 1073741824)
        (echoLabels.take 17)).host.stage = .receiving := by
    decide +kernel
  have hguest : (run (Exchange.step (fun _ => ⟨"2026-01-01T00:00:00.000Z"⟩)
      (frame 0 (requestBody echoRequest))) (Exchange.opened echoOutput 1073741824)
        (echoLabels.take 17)).guest.stage =
          .sending ((replyFrame (.stdout (ofText "hi"))).drop 5) (.forward []) := by
    decide +kernel
  have hport : 0 < 1073741824 ∧ 1073741824 < 2 ^ 32 := by decide
  have hunfinished : ¬∃ outcome, HostStage.receiving = .finished outcome := by simp
  have hgo := exchange_goes_on hencode hport.1 hport.2
    (fun _ => ⟨"2026-01-01T00:00:00.000Z"⟩) echoOutput (echoLabels.take 17)
  dsimp only at hgo
  rw [hhost, hguest] at hgo
  exact (hgo.resolve_left hunfinished).resolve_left id

end Nibrunner.CronExchange
