import Nibrunner.Reconcile.ExportSteps

/-!
# What an export takes and what it cuts

`Holding` follows what an export has taken and not given back along its history, and
`IsConsistentCut` says of a history that it cut, read and uploaded one consistent checkpoint. Each
part of `write` is followed by itself: `does_frozen`, `does_readIntoStaging`,
`does_bundleCheckpoint` and `does_writeInner` say what its histories hold and what a successful one
is, and `write_consistent` puts them together.
-/

namespace Nibrunner

/-! ### What is held -/

/-- A step of an export, with what it was answered. -/
abbrev ExportEvent := Program.Event ExportAction ExportAction.Reply

/-- The steps that read the tenant's volume, as the checkpoint has it. -/
@[simp] def ExportAction.readsVolume : ExportAction → Bool
  | startServer _ => true
  | attachReader _ => true
  | dumpVolume _ => true
  | _ => false

/-- What an export has taken and not given back. A step that takes something took it where it was
answered so: a creation answered with an error counts as not made, though it may be `done`. One that
gives it back was only called. -/
structure Holding where
  /-- The connection that keeps the guest frozen. -/
  lease : Bool
  checkpoints : List CheckpointId
  servers : List CheckpointId
  reader : Bool
  stagingDirs : List String
deriving DecidableEq

namespace Holding

@[simp] def nothing : Holding := ⟨false, [], [], false, []⟩

@[simp] def after (h : Holding) (event : ExportEvent) : Holding :=
  match event with
  | ⟨.connectGuest _, .connected⟩ => { h with lease := true }
  | ⟨.hangUp, _⟩ => { h with lease := false }
  | ⟨.createCheckpoint c, .ok _⟩ => { h with checkpoints := c :: h.checkpoints }
  | ⟨.deleteCheckpoint c, _⟩ => { h with checkpoints := h.checkpoints.filter (· ≠ c) }
  | ⟨.startServer c, .ok _⟩ => { h with servers := c :: h.servers }
  | ⟨.stopServer c, _⟩ => { h with servers := h.servers.filter (· ≠ c) }
  | ⟨.attachReader _, .ok _⟩ => { h with reader := true }
  | ⟨.detachReader, _⟩ => { h with reader := false }
  -- a dump that fails has made its directory all the same
  | ⟨.dumpVolume dir, _⟩ => { h with stagingDirs := dir :: h.stagingDirs }
  | ⟨.removeStaging dir, _⟩ => { h with stagingDirs := h.stagingDirs.filter (· ≠ dir) }
  | _ => h

/-- The volume is read with the guest let go. -/
@[simp] def Allows (h : Holding) (event : ExportEvent) : Prop :=
  event.1.readsVolume = true → h.lease = false

/-- The events take `h` to `h'`, and read the volume only with the guest let go. -/
def Leads (h : Holding) (events : List ExportEvent) (h' : Holding) : Prop :=
  Run.Meets after Allows h events ∧ Run.run after h events = h'

theorem Leads.trans {h h' h'' : Holding} {front back : List ExportEvent} (hf : h.Leads front h')
    (hb : h'.Leads back h'') : h.Leads (front ++ back) h'' := by
  obtain ⟨hf, rfl⟩ := hf
  obtain ⟨hb, rfl⟩ := hb
  exact ⟨Run.meets_append.mpr ⟨hf, hb⟩, Run.run_append ..⟩

@[simp] theorem leads_nil_iff {h h' : Holding} : h.Leads [] h' ↔ h = h' := by
  simp [Leads, Run.Meets]

@[simp] theorem leads_cons_iff {h h' : Holding} {event : ExportEvent} {events : List ExportEvent} :
    h.Leads (event :: events) h' ↔ h.Allows event ∧ (h.after event).Leads events h' := by
  simp [Leads, Run.Meets, and_assoc]

end Holding

namespace ExportSteps

/-! ### The parts of a history -/

/-- The handshake of a freeze: no guest runs, or the guest answers that it froze. -/
inductive Freezes (vsockPath : String) : Bool → List ExportEvent → Prop
  | over_nothing : Freezes vsockPath false [⟨.connectGuest vsockPath, .unreachable⟩]
  | held {reply : String} (h : readConnectReply reply guestControlVsockPort = .ok ()) :
      Freezes vsockPath true
        [⟨.connectGuest vsockPath, .connected⟩,
          ⟨.writeGuest (connectRequest guestControlVsockPort), true⟩, ⟨.readGuest, some reply⟩,
          ⟨.writeGuest freezeRequest, true⟩, ⟨.readGuest, some freezeHeld⟩]

/-- The check that a guest that froze is frozen still. -/
def stillFrozen : Bool → List ExportEvent
  | false => []
  | true => [⟨.tryReadGuest, true⟩]

def letGo : Bool → List ExportEvent
  | false => []
  | true => [⟨.hangUp, ()⟩]

variable {host : ExportHost} {desired : DesiredExport} {c : CheckpointId} {dir : String}
  {events : List ExportEvent}

@[simp] def isHeld : Except FreezeError FreezeLease → Bool
  | .error _ => false
  | .ok lease => lease.held

/-! ### Histories -/

theorem does_ask {e : ExportAction} {α : Type} {f : e.Reply → Steps α} {a : α}
    (hd : (ask e >>= f).Does events a) :
    ∃ reply rest, events = ⟨e, reply⟩ :: rest ∧ (f reply).Does rest a :=
  Program.does_perform_bind_iff.mp hd

theorem does_hungUp {α : Type} {error : FreezeError} {result : Except FreezeError α}
    (hd : (hungUp error : Steps (Except FreezeError α)).Does events result) :
    events = [⟨.hangUp, ()⟩] ∧ result = .error error := by
  obtain ⟨_, _, rfl, rfl, rfl⟩ := does_ask hd
  exact ⟨rfl, rfl⟩

theorem does_frozen {appId : AppId} {path : String} {result : Except FreezeError FreezeLease}
    (hd : (frozen appId path).Does events result) :
    Holding.nothing.Leads events { Holding.nothing with lease := isHeld result } ∧
      ∀ lease, result = .ok lease → Freezes path lease.held events := by
  obtain ⟨connection, events, rfl, hconnection⟩ := does_ask hd
  rcases connection with _ | error | _
  · obtain ⟨written, events, rfl, hwritten⟩ := does_ask hconnection
    cases written with
    | false =>
      obtain ⟨rfl, rfl⟩ := does_hungUp hwritten
      simp
    | true =>
    obtain ⟨reply, events, rfl, hreply⟩ := does_ask hwritten
    cases reply with
    | none =>
      obtain ⟨rfl, rfl⟩ := does_hungUp hreply
      simp
    | some reply =>
    dsimp only at hreply
    split at hreply
    · obtain ⟨rfl, rfl⟩ := does_hungUp hreply
      simp
    next hconnected =>
    obtain ⟨asked, events, rfl, hasked⟩ := does_ask hreply
    cases asked with
    | false =>
      obtain ⟨rfl, rfl⟩ := does_hungUp hasked
      simp
    | true =>
    obtain ⟨answer, events, rfl, hanswer⟩ := does_ask hasked
    cases answer with
    | none =>
      obtain ⟨rfl, rfl⟩ := does_hungUp hanswer
      simp
    | some answer =>
    dsimp only at hanswer
    split_ifs at hanswer with hfrozen
    · obtain ⟨rfl, rfl⟩ := does_hungUp hanswer
      simp
    · obtain ⟨rfl, rfl⟩ := Program.does_pure_iff.mp hanswer
      obtain rfl : answer = freezeHeld := not_not.mp hfrozen
      refine ⟨?_, ?_⟩
      · simp
      · rintro _ ⟨⟩
        exact .held hconnected
  · obtain ⟨rfl, rfl⟩ := Program.does_pure_iff.mp hconnection
    simp
  · obtain ⟨rfl, rfl⟩ := Program.does_pure_iff.mp hconnection
    refine ⟨?_, ?_⟩
    · simp
    · rintro _ ⟨⟩
      exact .over_nothing

theorem does_assertHeld {lease : FreezeLease} {result : Except FreezeError Unit}
    (hd : (assertHeld lease).Does events result) (h : Holding) :
    h.Leads events h ∧ (result = .ok () → events = stillFrozen lease.held) := by
  obtain ⟨appId, held⟩ := lease
  cases held with
  | false =>
    obtain ⟨rfl, rfl⟩ := Program.does_pure_iff.mp hd
    simp [stillFrozen]
  | true =>
    obtain ⟨waits, events, rfl, hwaits⟩ := does_ask hd
    cases waits with
    | false =>
      obtain ⟨rfl, rfl⟩ := Program.does_pure_iff.mp hwaits
      simp
    | true =>
      obtain ⟨rfl, rfl⟩ := Program.does_pure_iff.mp hwaits
      simp [stillFrozen]

theorem does_dropLease {lease : FreezeLease} {result : Unit}
    (hd : (dropLease lease).Does events result) : events = letGo lease.held := by
  obtain ⟨appId, held⟩ := lease
  cases held with
  | false => exact hd.1
  | true => exact Program.does_perform_iff.mp hd

/-- A write that is abandoned lets the tenant go. -/
theorem does_abandon {lease : FreezeLease} {answer result : Except String ℕ}
    (hd : (dropLease lease >>= fun _ => pure answer).Does events result) :
    events = letGo lease.held ∧ result = answer := by
  obtain ⟨⟨⟩, release, events, rfl, hrelease, hanswer⟩ := Program.does_bind_iff.mp hd
  obtain ⟨rfl, rfl⟩ := Program.does_pure_iff.mp hanswer
  exact ⟨(List.append_nil _).trans (does_dropLease hrelease), rfl⟩

theorem leads_letGo (h : Holding) (held : Bool) (hh : h.lease = held) :
    h.Leads (letGo held) { h with lease := false } := by
  obtain ⟨lease, checkpoints, servers, reader, dirs⟩ := h
  obtain rfl : lease = held := hh
  cases lease <;> simp [letGo]

/-- Where the volume is read, the server and the device are given back however it ends. -/
theorem does_readIntoStaging {result : Except String Unit}
    (hd : (readIntoStaging host desired c dir).Does events result) :
    (∃ dirs : List String, (∀ d ∈ dirs, d = dir) ∧
      Holding.Leads ⟨false, [c], [], false, []⟩ events ⟨false, [c], [], false, dirs⟩) ∧
    (result = .ok () →
      events = [⟨.startServer c, .ok ()⟩, ⟨.attachReader desired.volumeId, .ok ()⟩,
        ⟨.dumpVolume dir, .ok ()⟩, ⟨.detachReader, ()⟩, ⟨.stopServer c, ()⟩]) := by
  unfold readIntoStaging at hd
  cases hserves : host.servesCheckpoints with
  | false =>
    rw [hserves] at hd
    obtain ⟨rfl, rfl⟩ := Program.does_pure_iff.mp hd
    exact ⟨⟨[], by simp⟩, by simp⟩
  | true =>
    rw [hserves] at hd
    obtain ⟨started, events, rfl, hstarted⟩ := does_ask hd
    rcases started with error | ⟨⟩
    · obtain ⟨rfl, rfl⟩ := Program.does_pure_iff.mp hstarted
      exact ⟨⟨[], by simp⟩, by simp⟩
    obtain ⟨attached, events, rfl, hattached⟩ := does_ask hstarted
    rcases attached with error | ⟨⟩
    · obtain ⟨said, events, rfl, hsaid⟩ := does_ask hattached
      obtain ⟨⟨⟩, events, rfl, hstopped⟩ := does_ask hsaid
      obtain ⟨rfl, rfl⟩ := Program.does_pure_iff.mp hstopped
      exact ⟨⟨[], by simp⟩, by simp⟩
    · obtain ⟨dumped, events, rfl, hdumped⟩ := does_ask hattached
      obtain ⟨⟨⟩, events, rfl, hdetached⟩ := does_ask hdumped
      obtain ⟨⟨⟩, events, rfl, hstopped⟩ := does_ask hdetached
      obtain ⟨rfl, rfl⟩ := Program.does_pure_iff.mp hstopped
      refine ⟨⟨[dir], by simp⟩, ?_⟩
      rintro rfl
      rfl

/-- The checkpoint is deleted whatever became of the volume's reading. -/
theorem does_bundleCheckpoint {crontab : Option Cron.Crontab} {result : Except String ℕ}
    (hd : (bundleCheckpoint host desired c dir crontab).Does events result) :
    (∃ dirs : List String, (∀ d ∈ dirs, d = dir) ∧
      Holding.Leads ⟨false, [c], [], false, []⟩ events ⟨false, [], [], false, dirs⟩) ∧
    ∀ sizeBytes, result = .ok sizeBytes →
      ∃ deleted, events = [⟨.startServer c, .ok ()⟩, ⟨.attachReader desired.volumeId, .ok ()⟩,
        ⟨.dumpVolume dir, .ok ()⟩, ⟨.detachReader, ()⟩, ⟨.stopServer c, ()⟩,
        ⟨.deleteCheckpoint c, deleted⟩, ⟨.writeBundle crontab dir, .ok sizeBytes⟩,
        ⟨.upload desired.objectKey, .ok ()⟩] := by
  obtain ⟨read, front, events, rfl, hread, hd⟩ := Program.does_bind_iff.mp hd
  obtain ⟨⟨dirs, hdirs, hfront⟩, hok⟩ := does_readIntoStaging hread
  obtain ⟨deleted, events, rfl, hdeleted⟩ := does_ask hd
  rcases read with error | ⟨⟩
  · obtain ⟨rfl, rfl⟩ := Program.does_pure_iff.mp hdeleted
    exact ⟨⟨dirs, hdirs, hfront.trans (by simp)⟩, by simp⟩
  obtain ⟨written, events, rfl, hwritten⟩ := does_ask hdeleted
  rcases written with error | size
  · obtain ⟨rfl, rfl⟩ := Program.does_pure_iff.mp hwritten
    exact ⟨⟨dirs, hdirs, hfront.trans (by simp)⟩, by simp⟩
  obtain ⟨uploaded, events, rfl, huploaded⟩ := does_ask hwritten
  rcases uploaded with error | ⟨⟩
  · obtain ⟨rfl, rfl⟩ := Program.does_pure_iff.mp huploaded
    exact ⟨⟨dirs, hdirs, hfront.trans (by simp)⟩, by simp⟩
  · obtain ⟨rfl, rfl⟩ := Program.does_pure_iff.mp huploaded
    refine ⟨⟨dirs, hdirs, hfront.trans (by simp)⟩, ?_⟩
    rintro _ ⟨⟩
    exact ⟨deleted, by rw [hok rfl]; rfl⟩

/-- The bundle is of a checkpoint cut of the store as the frozen guest had settled it: the freeze,
the flush and the cut in this order, the freeze found in place after the cut and ended before the
checkpoint is read, and the bundle of what was read uploaded. -/
def IsConsistentCut (host : ExportHost) (desired : DesiredExport) (c : CheckpointId)
    (sizeBytes : ℕ) (events : List ExportEvent) : Prop :=
  ∃ tables held handshake deleted crontab,
    Freezes (host.vsockPath desired.appId) held handshake ∧
    events = ⟨.cronTables, .ok tables⟩ :: (handshake ++
      (⟨.flush, .ok ()⟩ :: ⟨.createCheckpoint c, .ok ()⟩ :: (stillFrozen held ++ (letGo held ++
        [⟨.startServer c, .ok ()⟩, ⟨.attachReader desired.volumeId, .ok ()⟩,
        ⟨.dumpVolume (host.stagingDir desired.exportId), .ok ()⟩, ⟨.detachReader, ()⟩,
        ⟨.stopServer c, ()⟩, ⟨.deleteCheckpoint c, deleted⟩,
        ⟨.writeBundle crontab (host.stagingDir desired.exportId), .ok sizeBytes⟩,
        ⟨.upload desired.objectKey, .ok ()⟩]))))

theorem does_registeredCrontab {appId : AppId} {result : Except String (Option Cron.Crontab)}
    (hd : (registeredCrontab appId).Does events result) :
    ∃ tables, events = [⟨.cronTables, tables⟩] ∧ ∀ crontab, result = .ok crontab →
      ∃ found, tables = .ok found := by
  obtain ⟨tables, events, rfl, htables⟩ := does_ask hd
  rcases tables with error | tables
  · obtain ⟨rfl, rfl⟩ := Program.does_pure_iff.mp htables
    exact ⟨_, rfl, by simp⟩
  · obtain ⟨rfl, rfl⟩ := Program.does_pure_iff.mp htables
    exact ⟨_, rfl, fun _ _ => ⟨tables, rfl⟩⟩

theorem does_writeInner {result : Except String ℕ}
    (hd : (writeInner host desired c (host.stagingDir desired.exportId)).Does events result) :
    (∃ dirs : List String, (∀ d ∈ dirs, d = host.stagingDir desired.exportId) ∧
      Holding.nothing.Leads events ⟨false, [], [], false, dirs⟩) ∧
    ∀ sizeBytes, result = .ok sizeBytes → IsConsistentCut host desired c sizeBytes events := by
  obtain ⟨crontab, front, events, rfl, hcrontab, hread⟩ := Program.does_bind_iff.mp hd
  obtain ⟨tables, rfl, htables⟩ := does_registeredCrontab hcrontab
  rcases crontab with error | crontab
  · obtain ⟨rfl, rfl⟩ := Program.does_pure_iff.mp hread
    exact ⟨⟨[], by simp⟩, by simp⟩
  obtain ⟨tables, rfl⟩ := htables _ rfl
  obtain ⟨freeze, handshake, events, rfl, hfrozen, hfreeze⟩ := Program.does_bind_iff.mp hread
  obtain ⟨hlease, hfreezes⟩ := does_frozen hfrozen
  rcases freeze with error | lease
  · obtain ⟨rfl, rfl⟩ := Program.does_pure_iff.mp hfreeze
    exact ⟨⟨[], by simp, by simpa using hlease⟩, by simp⟩
  have hfront : Holding.nothing.Leads ([⟨.cronTables, .ok tables⟩] ++ handshake)
      ⟨lease.held, [], [], false, []⟩ := Holding.Leads.trans (by simp) hlease
  rw [← List.append_assoc]
  obtain ⟨flushed, events, rfl, hflushed⟩ := does_ask hfreeze
  rcases flushed with error | ⟨⟩
  · obtain ⟨rfl, rfl⟩ := does_abandon hflushed
    refine ⟨⟨[], by simp, hfront.trans ?_⟩, by simp⟩
    simpa using leads_letGo ⟨lease.held, [], [], false, []⟩ lease.held rfl
  obtain ⟨created, events, rfl, hcreated⟩ := does_ask hflushed
  rcases created with error | ⟨⟩
  · obtain ⟨rfl, rfl⟩ := does_abandon hcreated
    refine ⟨⟨[], by simp, hfront.trans ?_⟩, by simp⟩
    simpa using leads_letGo ⟨lease.held, [], [], false, []⟩ lease.held rfl
  have hcut : Holding.Leads ⟨lease.held, [], [], false, []⟩
      [⟨.flush, .ok ()⟩, ⟨.createCheckpoint c, .ok ()⟩] ⟨lease.held, [c], [], false, []⟩ := by
    simp
  obtain ⟨checked, check, events, rfl, hchecked, hcheck⟩ := Program.does_bind_iff.mp hcreated
  obtain ⟨hsame, hfrozen⟩ := does_assertHeld hchecked ⟨lease.held, [c], [], false, []⟩
  rcases checked with error | ⟨⟩
  · obtain ⟨deleted, events, rfl, hdeleted⟩ := does_ask hcheck
    obtain ⟨rfl, rfl⟩ := does_abandon hdeleted
    refine ⟨⟨[], by simp, hfront.trans (hcut.trans (hsame.trans ?_))⟩, by simp⟩
    simpa using leads_letGo ⟨lease.held, [], [], false, []⟩ lease.held rfl
  obtain ⟨⟨⟩, release, events, rfl, hrelease, hbundled⟩ := Program.does_bind_iff.mp hcheck
  obtain rfl := does_dropLease hrelease
  obtain ⟨⟨dirs, hdirs, hbundle⟩, hok⟩ := does_bundleCheckpoint hbundled
  have hlet := leads_letGo ⟨lease.held, [c], [], false, []⟩ lease.held rfl
  refine ⟨⟨dirs, hdirs, hfront.trans (hcut.trans (hsame.trans (hlet.trans hbundle)))⟩, ?_⟩
  intro sizeBytes hsize
  obtain ⟨deleted, rfl⟩ := hok sizeBytes hsize
  obtain rfl := hfrozen rfl
  exact ⟨tables, lease.held, handshake, deleted, crontab, hfreezes lease rfl, by simp⟩

/-- **Exports clean up and are consistent cuts.** Whatever every step is answered, an export whose
report says `ready` is of a consistent cut that was uploaded, nothing an export took is left where
it ends, and the volume was read only with the guest let go. -/
theorem write_consistent (host : ExportHost) (desired : DesiredExport)
    (replies : ℕ → (e : ExportAction) → e.Reply) :
    let written := (write host desired).run replies 0
    (written.2.state = .ready → ∃ c sizeBytes events readyAt,
      exportCheckpointId desired.exportId = some c ∧
      written.2.checkpointId = some c ∧ written.2.sizeBytes = some sizeBytes ∧
      IsConsistentCut host desired c sizeBytes events ∧
      written.1 = events ++
        [⟨.removeStaging (host.stagingDir desired.exportId), ()⟩, ⟨.now, readyAt⟩]) ∧
    Run.run Holding.after Holding.nothing written.1 = Holding.nothing ∧
    Run.Meets Holding.after Holding.Allows Holding.nothing written.1 ∧
    (exportCheckpointId desired.exportId ≠ none →
      ⟨.removeStaging (host.stagingDir desired.exportId), ()⟩ ∈ written.1) := by
  intro written
  have hd : (write host desired).Does written.1 written.2 := Program.does_run replies 0 _
  revert hd
  generalize written.1 = events
  generalize written.2 = report
  intro hd
  unfold write at hd
  split at hd
  · next c hc =>
    obtain ⟨result, front, rest, rfl, hinner, hrest⟩ := Program.does_bind_iff.mp hd
    obtain ⟨⟨dirs, hdirs, hleads⟩, hok⟩ := does_writeInner hinner
    obtain ⟨⟨⟩, rest, rfl, hremoved⟩ := does_ask hrest
    have hclean : Holding.Leads ⟨false, [], [], false, dirs⟩
        [⟨.removeStaging (host.stagingDir desired.exportId), ()⟩] Holding.nothing := by
      simpa using hdirs
    rcases result with error | sizeBytes
    · obtain ⟨rfl, rfl⟩ := Program.does_pure_iff.mp hremoved
      obtain ⟨hmeets, hrun⟩ := hleads.trans hclean
      refine ⟨?_, hrun, hmeets, by simp⟩
      rintro ⟨⟩
    · obtain ⟨readyAt, rest, rfl, hreported⟩ := does_ask hremoved
      obtain ⟨rfl, rfl⟩ := Program.does_pure_iff.mp hreported
      have hdone : Holding.nothing.Leads [⟨.now, readyAt⟩] Holding.nothing := by simp
      obtain ⟨hmeets, hrun⟩ := hleads.trans (hclean.trans hdone)
      refine ⟨fun _ => ?_, hrun, hmeets, by simp⟩
      exact ⟨c, sizeBytes, front, readyAt, hc, rfl, rfl, hok sizeBytes rfl, rfl⟩
  · next hc =>
    obtain ⟨rfl, rfl⟩ := Program.does_pure_iff.mp hd
    refine ⟨?_, rfl, trivial, ?_⟩
    · rintro ⟨⟩
    · intro hsome
      obtain ⟨c, hc'⟩ := Option.ne_none_iff_exists'.mp hsome
      exact (hc c hc').elim

end ExportSteps
end Nibrunner
