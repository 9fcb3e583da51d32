import Nibrunner.Start.ActivationStages

/-!
# What receipts certify

In every run, however files are edited, units fail and starts interleave or are killed, a receipt
names an activation of its unit that read the files with the fingerprint it names, unless those were
edited and put back while the start that wrote it ran; and so did the activations of the units that
a start says are up. The storage of a host is the exception: it is not started anew, so its receipt
says no more than that the storage was there.
-/

namespace Nibrunner.ServiceStart

open Function

/-! ### The host -/

/-- ZeroFS is restarted under its guests only with permission, and the storage never. -/
def Command.Permitted (c : Command) : Prop :=
  (c.unit = .storage → c.restart = false) ∧
    (c.unit = .zerofs → c.restart = true → c.wasActive = true → c.restartZerofs = true)

structure Host.Sound (s : Host) : Prop where
  world : s.world.Sound
  receipts : ∀ unit fingerprint id, unit ≠ .storage →
    s.receipts unit = some (record fingerprint id) → s.world.Read unit fingerprint id
  starts : ∀ k p stage, s.starts k = some (p, stage) → p.Sound s.world stage
  commands : ∀ c ∈ s.commands, c.Permitted

namespace Host

variable {s : Host} {k : ℕ} {p : Start} {reply : Reply}

theorem goTo_starts (j : ℕ) (stage : Stage) :
    (s.goTo k p stage).starts j = if j = k then some (p, stage) else s.starts j :=
  update_apply _ _ _ _

theorem invalidate_receipts (unit unit' : ServiceUnit) :
    (s.invalidate unit).receipts unit' = if unit' = unit then none else s.receipts unit' :=
  update_apply _ _ _ _

theorem Sound.goTo (h : s.Sound) {stage : Stage} (hp : p.Sound s.world stage) :
    (s.goTo k p stage).Sound := by
  refine ⟨h.world, h.receipts, fun j q stage' hj => ?_, h.commands⟩
  rw [goTo_starts] at hj
  split at hj
  · obtain ⟨rfl, rfl⟩ := Prod.mk.inj (Option.some.inj hj)
    exact hp
  · exact h.starts j q stage' hj

/-- A start goes on with the plan it has. -/
theorem Sound.stay (h : s.Sound) (hp : ∀ service ∈ p.plan, service.Sound s.world p.edited)
    {stage : Stage} (hstage : stage.Sound s.world p) : (s.goTo k p stage).Sound :=
  h.goTo ⟨hp, hstage⟩

theorem Sound.fail (h : s.Sound) (hp : ∀ service ∈ p.plan, service.Sound s.world p.edited)
    (e : StartError) : (s.fail k p e).Sound :=
  h.stay hp trivial

theorem Sound.invalidate (h : s.Sound) (unit : ServiceUnit) : (s.invalidate unit).Sound := by
  refine ⟨h.world, fun unit' fingerprint id hunit hr => ?_, h.starts, h.commands⟩
  rw [invalidate_receipts] at hr
  split at hr
  · contradiction
  · exact h.receipts _ _ _ hunit hr

/-- A host changes so that every start may rely on what it knew. -/
theorem Sound.later (h : s.Sound) {s' : Host} (hw : s'.world.Sound)
    (hreceipts : s'.receipts = s.receipts) (hcommands : s'.commands = s.commands)
    (hread : ∀ unit fingerprint id, s.world.Read unit fingerprint id →
      s'.world.Read unit fingerprint id)
    (hstarts : ∀ k p' stage, s'.starts k = some (p', stage) →
      ∃ p edited, s.starts k = some (p, stage) ∧ p' = { p with edited := edited } ∧
        s.world.Later s'.world p.edited edited) : s'.Sound := by
  refine ⟨hw, fun unit fingerprint id hunit hr => ?_, fun k p' stage hk => ?_, ?_⟩
  · rw [hreceipts] at hr
    exact hread _ _ _ (h.receipts _ _ _ hunit hr)
  · obtain ⟨p, edited, hp, rfl, hlater⟩ := hstarts k p' stage hk
    exact (h.starts k p stage hp).later hlater
  · rw [hcommands]
    exact h.commands

/-- The files stay as they are. -/
theorem Sound.later_of_disk (h : s.Sound) {world : World} (hw : world.Sound)
    (hlater : ∀ edited, s.world.Later world edited edited) :
    ({ s with world := world } : Host).Sound :=
  h.later hw rfl rfl (fun _ _ _ hr => (hlater fun _ => false).read hr)
    fun _ p _ hk => ⟨p, p.edited, hk, rfl, hlater p.edited⟩

/-! ### What happens around the starts -/

theorem edit_sound (h : s.Sound) (disk : ServiceUnit → Fingerprint) : (s.edit disk).Sound := by
  refine h.later ⟨h.world.current, h.world.number_lt, h.world.begun_le, h.world.number_inj⟩ rfl rfl
    (fun _ _ _ hr => hr) fun k p' stage hk => ?_
  obtain ⟨⟨p, stage'⟩, hp, heq⟩ := Option.map_eq_some_iff.mp hk
  obtain ⟨rfl, rfl⟩ := Prod.mk.inj heq
  refine ⟨p, _, hp, rfl, ⟨le_rfl, fun _ _ hb => hb, fun _ _ hb => .inl hb, fun _ hid => hid,
    fun _ => le_rfl, fun unit he => ?_⟩⟩
  rw [Bool.or_eq_false_iff, decide_eq_false_iff_not, not_not] at he
  exact he

theorem activate_sound (h : s.Sound) (unit : ServiceUnit) (id : InvocationId) :
    (s.activate unit id).Sound := by
  rw [activate]
  split
  · exact h
  · rename_i hnew
    rw [Option.not_isSome_iff_eq_none] at hnew
    exact h.later_of_disk (h.world.activate unit hnew) fun edited =>
      h.world.later_activate edited unit hnew

theorem deactivate_sound (h : s.Sound) (unit : ServiceUnit) (forgets : Bool) :
    (s.deactivate unit forgets).Sound :=
  h.later_of_disk (h.world.deactivate unit forgets) fun edited =>
    s.world.later_deactivate edited unit forgets

theorem plannedUnits_nodup (hostStorage zerofs : Bool) :
    (plannedUnits hostStorage zerofs).Nodup := by
  revert hostStorage zerofs
  decide

theorem launch_sound (h : s.Sound) (k : ℕ) (restartZerofs hostStorage zerofs : Bool) :
    (s.launch k restartZerofs hostStorage zerofs).Sound := by
  rw [launch]
  split
  · exact h
  · exact h.stay (fun _ hmem => absurd hmem List.not_mem_nil)
      ⟨rfl, plannedUnits_nodup hostStorage zerofs⟩

theorem kill_sound (h : s.Sound) (k : ℕ) :
    ({ s with starts := update s.starts k none } : Host).Sound := by
  refine ⟨h.world, h.receipts, fun j p stage hj => ?_, h.commands⟩
  rw [show ({ s with starts := update s.starts k none } : Host).starts j =
    if j = k then none else s.starts j from update_apply _ _ _ _] at hj
  split at hj
  · contradiction
  · exact h.starts j p stage hj

/-! ### Planning -/

theorem plan_sound (h : s.Sound) {units : List ServiceUnit}
    (hp : p.Sound s.world (.planning units)) : (s.plan k p reply units).Sound := by
  obtain ⟨hnil, hnodup⟩ := hp.stage
  cases units with
  | nil =>
    rw [plan]
    split
    · exact h.stay hp.plan hnil
    · exact h.stay hp.plan hnil
  | cons unit units =>
    rw [plan]
    split
    · refine h.goTo ⟨fun service hmem => ?_, hnil, hnodup, ?_⟩
      · have hne : service.unit ≠ unit := by
          rintro rfl
          exact (List.nodup_append.mp hnodup).2.2 _ (List.mem_map_of_mem hmem) _
            List.mem_cons_self rfl
        exact (hp.plan service hmem).congr (update_of_ne hne _ _)
      · exact Service.Sound.planned h.world _ _
    · exact h.fail hp.plan _

theorem planReceipt_sound (h : s.Sound) {service : Service} {units : List ServiceUnit}
    (hp : p.Sound s.world (.planningReceipt service units)) :
    (s.planReceipt k p reply service units).Sound := by
  obtain ⟨hnil, hnodup, hservice⟩ := hp.stage
  rw [planReceipt]
  split
  · refine h.goTo ⟨fun service' hmem => ?_, hnil, ?_⟩
    · obtain hmem | hmem := List.mem_append.mp hmem
      · exact hp.plan service' hmem
      · obtain rfl := List.mem_singleton.mp hmem
        exact ⟨hservice.plannedAt_le, hservice.disk, hservice.inputs,
          fun hunit fingerprint id hid => h.receipts _ _ _ hunit hid⟩
    · rw [List.map_append, List.append_assoc]
      exact hnodup
  · exact h.fail hp.plan _

theorem permit_sound (h : s.Sound) {services : List Service}
    (hp : p.Sound s.world (.permitting services)) : (s.permit k p reply services).Sound := by
  have hnil : p.units = [] := hp.stage
  cases services with
  | nil => exact h.stay hp.plan hnil
  | cons service services =>
    rw [permit]
    split
    · exact h.stay hp.plan hnil
    · exact h.stay hp.plan hnil

theorem permitInvocation_sound (h : s.Sound) {service : Service} {services : List Service}
    (hp : p.Sound s.world (.permittingInvocation service services)) :
    (s.permitInvocation k p reply service services).Sound := by
  have hnil : p.units = [] := hp.stage
  rw [permitInvocation]
  split
  · exact h.fail hp.plan _
  · split
    · exact h.fail hp.plan _
    · exact h.stay hp.plan hnil

theorem must_sound (h : s.Sound) (hp : ∀ service ∈ p.plan, service.Sound s.world p.edited)
    {stage : Stage} (hstage : stage.Sound s.world p) : (s.must k p reply stage).Sound := by
  rw [must]
  split
  · exact h.stay hp hstage
  · exact h.fail hp _

/-! ### Starting the units -/

theorem ask_sound (h : s.Sound) {services : List Service}
    (hp : p.Sound s.world (.next services)) : (s.ask k p reply services).Sound := by
  have hreached : p.Reached s.world services := hp.stage
  cases services with
  | nil =>
    obtain ⟨done, hplan, hdone, ids, hids⟩ := hreached
    exact h.stay hp.plan ⟨done, [], hplan, hdone, ids, .inl ⟨hids, rfl⟩⟩
  | cons service services => exact h.stay hp.plan hreached

theorem Sound.settle (h : s.Sound) (hp : ∀ service ∈ p.plan, service.Sound s.world p.edited)
    {service : Service} {services : List Service} {activation : Activation} {id : InvocationId}
    (hr : p.Reached s.world (service :: services))
    (hs : Settled s.world p.edited service activation) (hid : activation.invocation = some id) :
    (s.settle k p services activation).Sound := by
  obtain ⟨done, hplan, hdone, ids, hids⟩ := hr
  refine h.goTo ⟨hp, done ++ [service], ?_, List.rel_append hdone (.cons hs .nil), ids ++ [id], ?_⟩
  · rw [hplan, List.append_assoc]
    rfl
  · rw [List.map_append, hids, List.map_append, List.map_singleton, hid]
    rfl

theorem Sound.giveUp (h : s.Sound) (hp : ∀ service ∈ p.plan, service.Sound s.world p.edited)
    {service : Service} {services : List Service}
    (hr : p.Reached s.world (service :: services)) : (s.giveUp k p service.unit).Sound := by
  obtain ⟨done, hplan, hdone, ids, hids⟩ := hr
  have hs : Settled s.world p.edited service ⟨service.unit, .failed, none⟩ :=
    ⟨rfl, fun ho => absurd rfl ho⟩
  refine h.goTo ⟨hp, done ++ [service], services, ?_, List.rel_append hdone (.cons hs .nil), ids,
    .inr ?_⟩
  · rw [hplan, List.append_assoc]
    rfl
  · rw [List.nil_append, List.map_append, hids]
    rfl

theorem invocationId_eq_ok {unit : ServiceUnit} {id : InvocationId}
    (h : s.invocationId unit reply = .ok (some id)) :
    (s.world.units unit).invocation = some id := by
  rw [invocationId] at h
  split at h
  · have heq := Except.ok.inj h
    split at heq
    · exact heq
    · contradiction
  · contradiction

/-- A unit with nothing pending runs on the files as they were planned. -/
theorem read_of_pending_eq_false {service : Service} (hs : service.Sound s.world p.edited)
    {invocation : Option InvocationId} (hpending : service.pending invocation = false)
    (hunit : service.unit ≠ .storage) :
    ∃ id, invocation = some id ∧ s.world.Read service.unit service.fingerprint id := by
  obtain ⟨id, hid, happlied⟩ := Service.of_pending_eq_false hpending
  exact ⟨id, hid, hs.applied hunit _ _ happlied⟩

theorem consider_sound (h : s.Sound) {service : Service} {services : List Service}
    {wasActive : Bool} (hp : p.Sound s.world (.asked service services wasActive)) :
    (s.consider k p reply service services wasActive).Sound := by
  have hreached : p.Reached s.world (service :: services) := hp.stage
  have hservice := hreached.service_sound hp.plan
  rw [consider]
  split
  · exact h.fail hp.plan _
  rename_i invocation hi
  extract_lets pending restart
  have hquiet (hpending : pending = false) : service.pending invocation = false :=
    (Bool.or_eq_false_iff.mp hpending).1
  have hcertain (hpending : pending = false) :
      ∃ id, invocation = some id ∧ Certain s.world p.edited service id := by
    by_cases hunit : service.unit = .storage
    · obtain ⟨id, hid, -⟩ := Service.of_pending_eq_false (hquiet hpending)
      exact ⟨id, hid, .inl hunit⟩
    · obtain ⟨id, hid, hr⟩ := read_of_pending_eq_false hservice (hquiet hpending) hunit
      exact ⟨id, hid, .inr (.inr hr)⟩
  split
  · exact h.fail hp.plan _
  rename_i hpermitted
  split
  · rename_i hrunning
    have hup := hcertain (Bool.not_eq_true' _ |>.mp hrunning.2.2)
    exact h.settle hp.plan hreached ⟨rfl, fun _ => hup⟩ hup.choose_spec.1
  split
  · rename_i hrunning
    exact h.stay hp.plan
      ⟨hreached, hrunning.1, hcertain (Bool.not_eq_true' _ |>.mp hrunning.2.2)⟩
  have hrestart : restart = true ↔
      service.unit ≠ .storage ∧ (pending = true ∨ service.unit = .daemon) := by
    simp [restart]
  refine h.stay hp.plan ⟨hreached, fun hunit => ?_, fun hunit hr hactive => ?_, fun hr hunit => ?_⟩
  · exact Bool.eq_false_iff.mpr fun hr => (hrestart.mp hr).1 hunit
  · obtain ⟨-, hpending | hdaemon⟩ := hrestart.mp hr
    · by_contra hno
      exact hpermitted ⟨hunit, hpending, hactive, by rw [Bool.eq_false_of_not_eq_true hno]; rfl⟩
    · exact absurd (hunit.symm.trans hdaemon) (by decide)
  · have hpending : pending = false :=
      Bool.eq_false_iff.mpr fun hpending => Bool.eq_false_iff.mp hr
        (hrestart.mpr ⟨hunit, .inl hpending⟩)
    obtain ⟨id, rfl, hc⟩ := hcertain hpending
    exact known_of_current h.world (invocationId_eq_ok hi) hc

theorem reload_sound (h : s.Sound) {service : Service} {services : List Service}
    {invocation : Option InvocationId}
    (hp : p.Sound s.world (.reloading service services invocation)) :
    (s.reload k p reply service services invocation).Sound := by
  obtain ⟨hreached, hunit, id, rfl, hc⟩ := hp.stage
  have hsettled (outcome : Outcome) :
      Settled s.world p.edited service ⟨service.unit, outcome, some id⟩ :=
    ⟨rfl, fun _ => ⟨id, rfl, hc⟩⟩
  rw [reload]
  split
  · split
    · exact h.settle hp.plan hreached (hsettled _) rfl
    · exact h.settle hp.plan hreached (hsettled _) rfl
    · refine h.stay hp.plan ⟨hreached, fun hs => ?_, fun hz => ?_, fun hr => ?_⟩
      · exact absurd (hunit.symm.trans hs) (by decide)
      · exact absurd (hunit.symm.trans hz) (by decide)
      · contradiction
  · exact h.fail hp.plan _

theorem invalidateTurn_sound (h : s.Sound) {turn : Turn}
    (hp : p.Sound s.world (.invalidating turn)) : (s.invalidateTurn k p reply turn).Sound := by
  have hturn : turn.Sound s.world p := hp.stage
  rw [invalidateTurn]
  split
  · split
    · exact (h.invalidate _).goTo ⟨hp.plan, ⟨hturn.reached, hturn.storage, hturn.permitted,
        hturn.known⟩⟩
    · exact (h.invalidate _).stay hp.plan hturn
  · exact h.fail hp.plan _

theorem invalidateMounts_sound (h : s.Sound) {turn : Turn} {mounts : List Service}
    (hp : p.Sound s.world (.invalidatingMounts turn mounts)) :
    (s.invalidateMounts k p reply turn mounts).Sound := by
  have hturn : turn.Sound s.world p := hp.stage
  cases mounts with
  | nil => exact h.stay hp.plan hturn
  | cons mount mounts =>
    rw [invalidateMounts]
    split
    · exact (h.invalidate _).stay hp.plan hturn
    · exact h.fail hp.plan _

theorem command_sound (h : s.Sound) {turn : Turn} (hp : p.Sound s.world (.commanding turn)) :
    (s.command k p turn).Sound := by
  have hturn : turn.Sound s.world p := hp.stage
  have hcommanded (given : Command) (hgiven : given.Permitted) :
      ({ s with commands := s.commands ++ [given] } : Host).Sound :=
    ⟨h.world, h.receipts, h.starts, fun c hc => (List.mem_append.mp hc).elim (h.commands c)
      fun hc => List.mem_singleton.mp hc ▸ hgiven⟩
  exact (hcommanded _ ⟨hturn.storage, hturn.permitted⟩).stay hp.plan
    ⟨hturn, (hturn.service_sound hp.plan).plannedAt_le⟩

theorem hear_sound (h : s.Sound) {turn : Turn} {begun : ℕ}
    (hp : p.Sound s.world (.commanded turn begun)) : (s.hear k p reply turn begun).Sound := by
  obtain ⟨hturn, hbegun⟩ := hp.stage
  rw [hear]
  split
  · split
    · split
      · exact h
      · rename_i hanswered
        refine h.stay hp.plan ⟨hturn, fun hr => ?_⟩
        rw [not_and, not_le] at hanswered
        exact hbegun.trans_lt (hanswered hr)
    · exact h.giveUp hp.plan hturn.reached
  · exact h.fail hp.plan _

theorem look_sound (h : s.Sound) {turn : Turn} (hp : p.Sound s.world (.looking turn)) :
    (s.look k p reply turn).Sound := by
  rw [look]
  split
  · exact h.stay hp.plan hp.stage
  · exact h.giveUp hp.plan hp.stage.1.reached

/-- The last activation of a unit that was started anew began since the plan; so did that of any
other, unless it is the one known before. -/
theorem identify_sound (h : s.Sound) {turn : Turn} {outcome : Outcome}
    (hp : p.Sound s.world (.identifying turn outcome)) :
    (s.identify k p reply turn outcome).Sound := by
  obtain ⟨hturn, hbegun⟩ := hp.stage
  have hservice := hturn.service_sound hp.plan
  rw [identify]
  split
  · exact h.fail hp.plan _
  · exact h.fail hp.plan _
  · rename_i id hi
    have hid := invocationId_eq_ok hi
    refine h.settle hp.plan hturn.reached ⟨rfl, fun _ => ⟨id, rfl, ?_⟩⟩ rfl
    by_cases hunit : turn.service.unit = .storage
    · exact .inl hunit
    · obtain hr | hr := Bool.eq_false_or_eq_true turn.restart
      · obtain ⟨inputs, n, hb, hn⟩ := h.world.current _ _ hid
        have hplanned := hbegun hr
        exact hservice.certain hb (by omega)
      · exact (hturn.known hr hunit).certain h.world hservice hid

/-! ### Checking and certifying -/

theorem check_sound (h : s.Sound) {checked activations : List Activation}
    (hp : p.Sound s.world (.checking checked activations)) :
    (s.check k p reply checked activations).Sound := by
  have htried : p.Tried s.world (checked ++ activations) := hp.stage
  cases activations with
  | nil =>
    rw [List.append_nil] at htried
    exact h.goTo ⟨hp.plan, htried, [], rfl, fun _ _ hmem => absurd hmem List.not_mem_nil⟩
  | cons activation activations =>
    have hnext (a : Activation) (ha : p.Tried s.world (checked ++ a :: activations)) :
        Stage.Sound s.world p (.checking (checked ++ [a]) activations) := by
      rw [Stage.Sound, List.append_assoc]
      exact ha
    rw [check]
    split
    · exact h.stay hp.plan (hnext _ htried)
    · split
      · exact h.stay hp.plan htried
      · exact h.stay hp.plan (hnext _ htried.fail)

theorem checkInvocation_sound (h : s.Sound) {checked : List Activation} {activation : Activation}
    {activations : List Activation}
    (hp : p.Sound s.world (.checkingInvocation checked activation activations)) :
    (s.checkInvocation k p reply checked activation activations).Sound := by
  have htried : p.Tried s.world (checked ++ activation :: activations) := hp.stage
  have hnext (a : Activation) (ha : p.Tried s.world (checked ++ a :: activations)) :
      Stage.Sound s.world p (.checking (checked ++ [a]) activations) := by
    rw [Stage.Sound, List.append_assoc]
    exact ha
  rw [checkInvocation]
  split
  · exact h.fail hp.plan _
  · split
    · exact h.stay hp.plan (hnext _ htried)
    · exact h.stay hp.plan (hnext _ htried.fail)

theorem later_recheck (s : Host) (p : Start) (edited : ServiceUnit → Bool) (unit : ServiceUnit)
    (id : InvocationId) : s.world.Later (s.recheck p unit id).world edited edited := by
  rw [recheck]
  split
  · exact ⟨le_rfl, fun _ _ hb => hb, fun _ _ hb => .inl hb, List.subset_append_left _ _,
      fun _ => le_rfl, fun _ he => ⟨he, rfl⟩⟩
  · exact ⟨le_rfl, fun _ _ hb => hb, fun _ _ hb => .inl hb, fun _ hid => hid, fun _ => le_rfl,
      fun _ he => ⟨he, rfl⟩⟩

theorem Sound.recheck (h : s.Sound) (p : Start) (unit : ServiceUnit) (id : InvocationId) :
    (s.recheck p unit id).Sound := by
  have hlater := fun edited => later_recheck s p edited unit id
  rw [Host.recheck] at hlater ⊢
  split
  · rename_i he
    rw [if_pos he] at hlater
    exact h.later_of_disk
      ⟨h.world.current, h.world.number_lt, h.world.begun_le, h.world.number_inj⟩ hlater
  · exact h

/-- The files are as they were planned, so the activation read them, unless they were not in
between. -/
theorem recheck_read {service : Service} {id : InvocationId}
    (hc : Certain s.world p.edited service id) (hunit : service.unit ≠ .storage) :
    (s.recheck p service.unit id).world.Read service.unit service.fingerprint id := by
  rw [recheck]
  split
  · exact .inr (List.mem_append_right _ List.mem_cons_self)
  · rename_i he
    exact (hc.resolve_left hunit).resolve_left he

theorem certify_sound (h : s.Sound) {activations : List (Service × Activation)}
    (hp : p.Sound s.world (.certifying activations)) :
    (s.certify k p reply activations).Sound := by
  have hcertifying : p.Certifying s.world activations := hp.stage
  cases activations with
  | nil => exact h.stay hp.plan ⟨rfl, hcertifying⟩
  | cons pair activations =>
    obtain ⟨service, activation⟩ := pair
    have hsettled := hcertifying.settled
    rw [certify]
    split
    · split
      · rename_i id hup
        obtain ⟨ho, hid⟩ : activation.outcome ≠ .failed ∧ activation.invocation = some id := by
          simpa using hup
        obtain ⟨id', hid', hc⟩ := hsettled.2 ho
        obtain rfl := Option.some.inj (hid'.symm.trans hid)
        split
        · have hlater := later_recheck s p p.edited service.unit id'
          have hsound := hp.later hlater
          refine (h.recheck p service.unit id').stay hsound.plan
            ⟨Start.Certifying.next hsound.stage fun _ => ⟨id', hid, ?_⟩, recheck_read hc⟩
          exact or_iff_not_imp_left.mpr (recheck_read hc)
        · exact h.fail hp.plan _
      · rename_i hdown
        refine (h.invalidate _).stay hp.plan (hcertifying.next fun ho => ?_)
        obtain ⟨id, hid, -⟩ := hsettled.2 ho
        rw [if_neg ho, hid] at hdown
        contradiction
    · exact h.fail hp.plan _

theorem write_sound (h : s.Sound) {service : Service} {id : InvocationId}
    {activations : List (Service × Activation)}
    (hp : p.Sound s.world (.writing service id activations)) :
    (s.write k p reply service id activations).Sound := by
  obtain ⟨hcertifying, hread⟩ := hp.stage
  have hwritten (receipts : ServiceUnit → Option String)
      (heq : ∀ unit, receipts unit = if unit = service.unit then
        some (record service.fingerprint id) else s.receipts unit) :
      ({ s with receipts := receipts } : Host).Sound := by
    refine ⟨h.world, fun unit fingerprint id' hunit hr => ?_, h.starts, h.commands⟩
    rw [show ({ s with receipts := receipts } : Host).receipts unit = _ from heq unit] at hr
    split at hr
    · rename_i hservice
      obtain ⟨rfl, rfl⟩ := record_inj (Option.some.inj hr)
      rw [hservice] at hunit ⊢
      exact hread hunit
    · exact h.receipts _ _ _ hunit hr
  rw [write]
  split
  · exact (hwritten _ fun unit => update_apply _ _ _ unit).stay hp.plan hcertifying
  · exact h.fail hp.plan _

theorem proceed_sound (h : s.Sound) {stage : Stage} (hp : p.Sound s.world stage) :
    (s.proceed k p reply stage).Sound := by
  cases stage with
  | planning => exact plan_sound h hp
  | planningReceipt => exact planReceipt_sound h hp
  | permitting => exact permit_sound h hp
  | permittingInvocation => exact permitInvocation_sound h hp
  | reloadingUnits => exact must_sound h hp.plan hp.stage
  | enabling => exact must_sound h hp.plan (Start.Reached.none hp.stage)
  | next => exact ask_sound h hp
  | asked => exact consider_sound h hp
  | reloading => exact reload_sound h hp
  | invalidating => exact invalidateTurn_sound h hp
  | invalidatingMounts => exact invalidateMounts_sound h hp
  | commanding => exact command_sound h hp
  | commanded => exact hear_sound h hp
  | looking => exact look_sound h hp
  | identifying => exact identify_sound h hp
  | checking => exact check_sound h hp
  | checkingInvocation => exact checkInvocation_sound h hp
  | certifying => exact certify_sound h hp
  | writing => exact write_sound h hp
  | ended => exact h

/-! ### Runs -/

theorem step_sound (l : Label) (h : s.Sound) : (s.step l).Sound := by
  cases l with
  | edit disk => exact edit_sound h disk
  | activate unit id => exact activate_sound h unit id
  | deactivate unit forgets => exact deactivate_sound h unit forgets
  | launch k restartZerofs hostStorage zerofs => exact launch_sound h k _ _ _
  | kill k => exact kill_sound h k
  | proceed k reply =>
    rw [step]
    split
    · rename_i p stage hk
      exact proceed_sound h (h.starts k p stage hk)
    · exact h

theorem installed_sound (disk : ServiceUnit → Fingerprint) : (installed disk).Sound where
  world := ⟨fun _ _ h => by contradiction, fun _ _ h => by contradiction, fun _ => le_rfl,
    fun _ _ _ _ h => by contradiction⟩
  receipts _ _ _ _ h := by contradiction
  starts _ _ _ h := by contradiction
  commands _ h := absurd h List.not_mem_nil

/-- The hosts that runs reach. -/
def after (disk : ServiceUnit → Fingerprint) (labels : List Label) : Host :=
  Run.run step (installed disk) labels

theorem after_sound (disk : ServiceUnit → Fingerprint) (labels : List Label) :
    (after disk labels).Sound :=
  Run.invariant (I := Sound) (fun _ l h => step_sound l h) (installed_sound disk) labels

/-! ### Files that nobody edits meanwhile -/

/-- Files are edited only while no start runs. -/
def Undisturbed (s : Host) : Label → Prop
  | .edit _ => ∀ k p stage, s.starts k = some (p, stage) → ∃ result, stage = .ended result
  | _ => True

structure Quiet (s : Host) : Prop where
  restored : s.world.restored = []
  starts : ∀ k p stage, s.starts k = some (p, stage) →
    (∃ result, stage = .ended result) ∨ ∀ unit, p.edited unit = false

theorem Quiet.goTo (h : s.Quiet) (he : ∀ unit, p.edited unit = false) {stage : Stage} :
    (s.goTo k p stage).Quiet := by
  refine ⟨h.restored, fun j q stage' hj => ?_⟩
  rw [goTo_starts] at hj
  split at hj
  · obtain ⟨rfl, rfl⟩ := Prod.mk.inj (Option.some.inj hj)
    exact .inr he
  · exact h.starts j q stage' hj

theorem Quiet.settle (h : s.Quiet) (he : ∀ unit, p.edited unit = false)
    (services : List Service) (activation : Activation) :
    (s.settle k p services activation).Quiet :=
  h.goTo (p := { p with units := p.units ++ [activation] }) he

theorem Quiet.giveUp (h : s.Quiet) (he : ∀ unit, p.edited unit = false) (unit : ServiceUnit) :
    (s.giveUp k p unit).Quiet :=
  h.goTo (p := { p with units := p.units ++ [⟨unit, .failed, none⟩] }) he

theorem Quiet.invalidate (h : s.Quiet) (unit : ServiceUnit) : (s.invalidate unit).Quiet :=
  ⟨h.restored, h.starts⟩

theorem Quiet.recheck (h : s.Quiet) (he : ∀ unit, p.edited unit = false) (unit : ServiceUnit)
    (id : InvocationId) : (s.recheck p unit id).Quiet := by
  rw [Host.recheck, he]
  exact h

/-- A start that has not noticed any edits writes its receipts for what was read. -/
theorem proceed_quiet (h : s.Quiet) (he : ∀ unit, p.edited unit = false) (stage : Stage) :
    (s.proceed k p reply stage).Quiet := by
  have goes (stage' : Stage) : (s.goTo k p stage').Quiet := h.goTo he
  cases stage with
  | planning units =>
    cases units with
    | nil => exact goes _
    | cons unit units =>
      have he' (unit' : ServiceUnit) : update p.edited unit false unit' = false := by
        rw [update_apply, he, ite_self]
      rw [proceed, plan]
      split
      · exact h.goTo (p := { p with edited := update p.edited unit false }) he'
      · exact goes _
  | planningReceipt service =>
    rw [proceed, planReceipt]
    split
    · exact h.goTo (p := { p with
        plan := p.plan ++ [{ service with applied := s.receipts service.unit }] }) he
    · exact goes _
  | permitting services =>
    cases services with
    | nil => exact goes _
    | cons =>
      rw [proceed, permit]
      split <;> exact goes _
  | permittingInvocation =>
    rw [proceed, permitInvocation]
    split
    · exact goes _
    · split <;> exact goes _
  | reloadingUnits | enabling =>
    rw [proceed, must]
    split <;> exact goes _
  | next services => cases services <;> exact goes _
  | asked =>
    rw [proceed, consider]
    split
    · exact goes _
    · extract_lets
      split
      · exact goes _
      split
      · exact h.settle he _ _
      split <;> exact goes _
  | reloading =>
    rw [proceed, reload]
    split
    · split
      · exact h.settle he _ _
      · exact h.settle he _ _
      · exact goes _
    · exact goes _
  | invalidating =>
    rw [proceed, invalidateTurn]
    split
    · split
      · exact (h.invalidate _).goTo (p := { p with restartMount := true }) he
      · exact (h.invalidate _).goTo he
    · exact goes _
  | invalidatingMounts turn mounts =>
    cases mounts with
    | nil => exact goes _
    | cons =>
      rw [proceed, invalidateMounts]
      split
      · exact (h.invalidate _).goTo he
      · exact goes _
  | commanding =>
    have hquiet (commands : List Command) : ({ s with commands := commands } : Host).Quiet :=
      ⟨h.restored, h.starts⟩
    exact (hquiet _).goTo he
  | commanded =>
    rw [proceed, hear]
    split
    · split
      · split
        · exact h
        · exact goes _
      · exact h.giveUp he _
    · exact goes _
  | looking =>
    rw [proceed, look]
    split
    · exact goes _
    · exact h.giveUp he _
  | identifying =>
    rw [proceed, identify]
    split
    · exact goes _
    · exact goes _
    · exact h.settle he _ _
  | checking checked activations =>
    cases activations with
    | nil => exact h.goTo (p := { p with units := checked }) he
    | cons =>
      rw [proceed, check]
      split
      · exact goes _
      · split <;> exact goes _
  | checkingInvocation =>
    rw [proceed, checkInvocation]
    split
    · exact goes _
    · split <;> exact goes _
  | certifying activations =>
    cases activations with
    | nil => exact goes _
    | cons pair activations =>
      rw [proceed, certify]
      split
      · split
        · split
          · exact (h.recheck he _ _).goTo he
          · exact goes _
        · exact (h.invalidate _).goTo he
      · exact goes _
  | writing =>
    rw [proceed, write]
    split
    · have hquiet (receipts : ServiceUnit → Option String) :
          ({ s with receipts := receipts } : Host).Quiet := ⟨h.restored, h.starts⟩
      exact (hquiet _).goTo he
    · exact goes _
  | ended => exact h

theorem step_quiet (l : Label) (h : s.Quiet) (hl : s.Undisturbed l) : (s.step l).Quiet := by
  cases l with
  | edit disk =>
    refine ⟨h.restored, fun k p stage hk => ?_⟩
    obtain ⟨⟨p', stage'⟩, hp, heq⟩ := Option.map_eq_some_iff.mp hk
    obtain ⟨-, rfl⟩ := Prod.mk.inj heq
    exact .inl (hl k p' stage' hp)
  | activate unit id =>
    rw [step, activate]
    split
    · exact h
    · exact ⟨h.restored, h.starts⟩
  | deactivate unit forgets => exact ⟨h.restored, h.starts⟩
  | launch k restartZerofs hostStorage zerofs =>
    rw [step, launch]
    split
    · exact h
    · exact h.goTo fun _ => rfl
  | kill k =>
    refine ⟨h.restored, fun j p stage hj => ?_⟩
    rw [show (s.step (.kill k)).starts j = if j = k then none else s.starts j from
      update_apply _ _ _ _] at hj
    split at hj
    · contradiction
    · exact h.starts j p stage hj
  | proceed k reply =>
    rw [step]
    split
    · rename_i p stage hk
      obtain ⟨result, rfl⟩ | he := h.starts k p stage hk
      · exact h
      · exact proceed_quiet h he stage
    · exact h

theorem after_quiet (disk : ServiceUnit → Fingerprint) {labels : List Label}
    (h : Run.Meets step Undisturbed (installed disk) labels) : (after disk labels).Quiet :=
  h.invariant (I := Quiet) (fun _ l hs hl => step_quiet l hs hl)
    ⟨rfl, fun _ _ _ hk => by contradiction⟩

end Host

/-! ### What receipts and starts say -/

/-- **Receipts.** In every run, a receipt names an activation of its unit that read the files it
names, or one that a start found the files put back for; of the latter there are none where nobody
edits files while a start runs. -/
theorem receipts_certify (disk : ServiceUnit → Fingerprint) (labels : List Host.Label) :
    (∀ unit fingerprint id, unit ≠ .storage →
      (Host.after disk labels).receipts unit = some (record fingerprint id) →
        (Host.after disk labels).world.Read unit fingerprint id) ∧
      (Run.Meets Host.step Host.Undisturbed (Host.installed disk) labels →
        (Host.after disk labels).world.restored = []) :=
  ⟨(Host.after_sound disk labels).receipts, fun h => (Host.after_quiet disk h).restored⟩

theorem sample_fingerprint : isSha256Hex
    "00000000000000000000000000000000000000000000000000000000000000ff" = true := by decide

theorem sample_invocation : ("000000000000000000000000000000ff".toList.all
    fun c => c.isDigit || ('a' ≤ c && c ≤ 'f')) = true := by decide

def sampleFingerprint : Fingerprint := ⟨_, sample_fingerprint⟩

def sampleInvocation : InvocationId := ⟨_, rfl, sample_invocation⟩

/-- The daemon of a host is started for the first time. -/
def sampleRun : List Host.Label :=
  let go : Host.Label := .proceed 0 ⟨true, true, true, none⟩
  .launch 0 false false false :: List.replicate 11 go ++
    .activate .daemon sampleInvocation :: List.replicate 10 go

def sampleService : Service := ⟨.daemon, sampleFingerprint, none, 0⟩

def sampleActivation : Activation := ⟨.daemon, .started, some sampleInvocation⟩

def sampleStart : Start where
  restartZerofs := false
  plan := [sampleService]
  restartMount := false
  units := [sampleActivation]
  edited := update (fun _ => false) .daemon false

theorem sampleRun_ended :
    (Host.after (fun _ => sampleFingerprint) sampleRun).starts 0 =
      some (sampleStart, .ended (.ok [sampleActivation])) := by
  rfl

/-- **Commands.** The storage is never started anew, and ZeroFS, found running, only with
permission. -/
theorem commands_permitted (disk : ServiceUnit → Fingerprint) (labels : List Host.Label) :
    ∀ c ∈ (Host.after disk labels).commands, c.Permitted :=
  (Host.after_sound disk labels).commands

end Nibrunner.ServiceStart
