import Mathlib.Data.List.Forall2
import Nibrunner.Start.Activation

/-!
# What a start relies on

What a start knows at each stage of its way, and that it may rely on that whatever happens
meanwhile: files that are edited are noted, activations that began keep what they read, and those
that begin read what is there.

That an activation read the files of its unit as they were planned is known in one of three ways: a
receipt says so, it began after the plan, or it is known of one activation and all those after it
began since the plan.
-/

namespace Nibrunner.ServiceStart

open Function

/-! ### Receipts -/

theorem Fingerprint.newline_notMem (fingerprint : Fingerprint) :
    '\n' ∉ fingerprint.text.toList := by
  have hex := fingerprint.hex
  rw [isSha256Hex, Bool.and_eq_true, List.all_eq_true] at hex
  exact fun h => absurd (hex.2 _ h) (by decide)

/-- A receipt says what it was written for. -/
theorem record_inj {fingerprint fingerprint' : Fingerprint} {id id' : InvocationId}
    (h : record fingerprint id = record fingerprint' id') :
    fingerprint = fingerprint' ∧ id = id' := by
  have text (f : Fingerprint) (i : InvocationId) :
      (record f i).toList = f.text.toList ++ '\n' :: i.text.toList := by
    simp [record]
  have hsplit := congrArg (fun t => TextLines.splitOnce '\n' t.toList) h
  simp only [text, TextLines.splitOnce_append (Fingerprint.newline_notMem _), Option.some.injEq,
    Prod.mk.injEq, String.toList_inj] at hsplit
  exact ⟨Fingerprint.ext hsplit.1, InvocationId.ext hsplit.2⟩

theorem Service.of_pending_eq_false {service : Service} {invocation : Option InvocationId}
    (h : service.pending invocation = false) :
    ∃ id, invocation = some id ∧ service.applied = some (record service.fingerprint id) := by
  rw [Service.pending, Option.all_eq_false] at h
  obtain ⟨id, rfl, hid⟩ := h
  exact ⟨id, rfl, of_not_not (of_decide_eq_false hid)⟩

/-! ### The world a start finds -/

/-- As far as receipts can tell, the activation is one of the unit and read these files. -/
def World.Read (w : World) (unit : ServiceUnit) (fingerprint : Fingerprint) (id : InvocationId) :
    Prop :=
  (∃ n, w.began id = some ⟨unit, fingerprint, n⟩) ∨ id ∈ w.restored

structure World.Sound (w : World) : Prop where
  /-- What systemd shows is the last activation of the unit. -/
  current : ∀ unit id, (w.units unit).invocation = some id →
    ∃ inputs n, w.began id = some ⟨unit, inputs, n⟩ ∧ n + 1 = (w.units unit).begun
  number_lt : ∀ id b, w.began id = some b → b.number < (w.units b.unit).begun
  begun_le : ∀ unit, (w.units unit).begun ≤ w.clock
  number_inj : ∀ id id' b b', w.began id = some b → w.began id' = some b' →
    b.number = b'.number → id = id'

/-- What may have changed when a start looks again, the files it knows to be edited apart. -/
structure World.Later (w w' : World) (edited edited' : ServiceUnit → Bool) : Prop where
  clock_le : w.clock ≤ w'.clock
  began : ∀ id b, w.began id = some b → w'.began id = some b
  fresh : ∀ id b, w'.began id = some b →
    w.began id = some b ∨ (w.clock ≤ b.number ∧ b.inputs = w.disk b.unit)
  restored : w.restored ⊆ w'.restored
  begun_le : ∀ unit, (w.units unit).begun ≤ (w'.units unit).begun
  unedited : ∀ unit, edited' unit = false → edited unit = false ∧ w'.disk unit = w.disk unit

variable {w w' : World} {edited edited' : ServiceUnit → Bool}

theorem World.Later.read (h : w.Later w' edited edited') {unit : ServiceUnit}
    {fingerprint : Fingerprint} {id : InvocationId} (hr : w.Read unit fingerprint id) :
    w'.Read unit fingerprint id :=
  hr.imp (fun ⟨n, hn⟩ => ⟨n, h.began _ _ hn⟩) (fun hid => h.restored hid)

/-! ### Activations -/

theorem World.Sound.number_lt_clock (hw : w.Sound) {id : InvocationId} {b : Begun}
    (hb : w.began id = some b) : b.number < w.clock :=
  (hw.number_lt _ _ hb).trans_le (hw.begun_le _)

theorem World.activate_units (w : World) (unit unit' : ServiceUnit) (id : InvocationId) :
    (w.activate unit id).units unit' =
      if unit' = unit then ⟨true, some id, w.clock + 1⟩ else w.units unit' :=
  update_apply _ _ _ _

/-- Those that had begun, and the new one. -/
theorem World.activate_began {unit : ServiceUnit} {id id' : InvocationId} {b : Begun}
    (hnew : w.began id = none) :
    (w.activate unit id).began id' = some b ↔
      w.began id' = some b ∨ (id' = id ∧ b = ⟨unit, w.disk unit, w.clock⟩) := by
  rw [show (w.activate unit id).began id' = if id' = id then some ⟨unit, w.disk unit, w.clock⟩ else
    w.began id' from update_apply _ _ _ _]
  split
  · rename_i heq
    subst heq
    simp [hnew, eq_comm]
  · rename_i hne
    simp [hne]

theorem World.Sound.activate (hw : w.Sound) (unit : ServiceUnit) {id : InvocationId}
    (hnew : w.began id = none) : (w.activate unit id).Sound where
  current unit' id' hid := by
    rw [World.activate_units] at hid ⊢
    split at hid
    · rename_i heq
      obtain rfl := Option.some.inj hid
      rw [if_pos heq, heq]
      exact ⟨_, _, (World.activate_began hnew).mpr (.inr ⟨rfl, rfl⟩), rfl⟩
    · rename_i hne
      obtain ⟨inputs, n, hb, hn⟩ := hw.current _ _ hid
      rw [if_neg hne]
      exact ⟨inputs, n, (World.activate_began hnew).mpr (.inl hb), hn⟩
  number_lt id' b hb := by
    rw [World.activate_units]
    obtain hb | ⟨rfl, rfl⟩ := (World.activate_began hnew).mp hb
    · split
      · exact (hw.number_lt_clock hb).trans_le (Nat.le_succ _)
      · exact hw.number_lt _ _ hb
    · rw [if_pos rfl]
      exact Nat.lt_succ_self _
  begun_le unit' := by
    rw [World.activate_units]
    split
    · exact le_rfl
    · exact (hw.begun_le _).trans (Nat.le_succ _)
  number_inj id₁ id₂ b₁ b₂ h₁ h₂ hn := by
    obtain hb₁ | ⟨rfl, rfl⟩ := (World.activate_began hnew).mp h₁ <;>
      obtain hb₂ | ⟨rfl, rfl⟩ := (World.activate_began hnew).mp h₂
    · exact hw.number_inj _ _ _ _ hb₁ hb₂ hn
    · exact absurd hn (hw.number_lt_clock hb₁).ne
    · exact absurd hn (hw.number_lt_clock hb₂).ne'
    · rfl

theorem World.Sound.later_activate (hw : w.Sound) (edited : ServiceUnit → Bool)
    (unit : ServiceUnit) {id : InvocationId} (hnew : w.began id = none) :
    w.Later (w.activate unit id) edited edited where
  clock_le := Nat.le_succ _
  began _ _ hb := (World.activate_began hnew).mpr (.inl hb)
  fresh _ _ hb := by
    obtain hb | ⟨rfl, rfl⟩ := (World.activate_began hnew).mp hb
    · exact .inl hb
    · exact .inr ⟨le_rfl, rfl⟩
  restored _ hid := hid
  begun_le unit' := by
    rw [World.activate_units]
    split
    · exact (hw.begun_le _).trans (Nat.le_succ _)
    · exact le_rfl
  unedited _ he := ⟨he, rfl⟩

theorem World.deactivate_units (w : World) (unit unit' : ServiceUnit) (forgets : Bool) :
    (w.deactivate unit forgets).units unit' =
      if unit' = unit then
        ⟨false, if forgets then none else (w.units unit').invocation, (w.units unit').begun⟩
      else w.units unit' := by
  rw [show (w.deactivate unit forgets).units unit' = _ from update_apply _ _ _ _]
  split
  · rename_i heq
    rw [heq]
  · rfl

theorem World.deactivate_begun (w : World) (unit unit' : ServiceUnit) (forgets : Bool) :
    ((w.deactivate unit forgets).units unit').begun = (w.units unit').begun := by
  rw [World.deactivate_units]
  split <;> rfl

theorem World.Sound.deactivate (hw : w.Sound) (unit : ServiceUnit) (forgets : Bool) :
    (w.deactivate unit forgets).Sound where
  current unit' id hid := by
    rw [World.deactivate_begun]
    refine hw.current unit' id ?_
    rw [World.deactivate_units] at hid
    split at hid
    · simp only at hid
      split at hid
      · contradiction
      · exact hid
    · exact hid
  number_lt id b hb := by
    rw [World.deactivate_begun]
    exact hw.number_lt id b hb
  begun_le unit' := by
    rw [World.deactivate_begun]
    exact hw.begun_le unit'
  number_inj := hw.number_inj

theorem World.later_deactivate (w : World) (edited : ServiceUnit → Bool) (unit : ServiceUnit)
    (forgets : Bool) : w.Later (w.deactivate unit forgets) edited edited where
  clock_le := le_rfl
  began _ _ hb := hb
  fresh _ _ hb := .inl hb
  restored _ hid := hid
  begun_le unit' := (World.deactivate_begun w unit unit' forgets).ge
  unedited _ he := ⟨he, rfl⟩

/-! ### What a start relies on -/

/-- A planned unit: unless its files were edited since, they are as they were planned, and so are
those that its activations read since. -/
structure Service.Sound (w : World) (edited : ServiceUnit → Bool) (service : Service) : Prop where
  plannedAt_le : service.plannedAt ≤ w.clock
  disk : edited service.unit = false → w.disk service.unit = service.fingerprint
  inputs : edited service.unit = false → ∀ id b, w.began id = some b → b.unit = service.unit →
    service.plannedAt ≤ b.number → b.inputs = service.fingerprint
  applied : service.unit ≠ .storage → ∀ fingerprint id,
    service.applied = some (record fingerprint id) → w.Read service.unit fingerprint id

theorem Service.Sound.later {service : Service} (hs : service.Sound w edited)
    (h : w.Later w' edited edited') : service.Sound w' edited' where
  plannedAt_le := hs.plannedAt_le.trans h.clock_le
  disk he := by
    obtain ⟨he, hdisk⟩ := h.unedited _ he
    rw [hdisk, hs.disk he]
  inputs he id b hb hunit hn := by
    obtain ⟨he, -⟩ := h.unedited _ he
    obtain hold | ⟨-, hinputs⟩ := h.fresh id b hb
    · exact hs.inputs he id b hold hunit hn
    · rw [hinputs, hunit, hs.disk he]
  applied hunit fingerprint id hid := h.read (hs.applied hunit fingerprint id hid)

theorem Service.Sound.congr {service : Service} (hs : service.Sound w edited)
    (h : edited' service.unit = edited service.unit) : service.Sound w edited' where
  plannedAt_le := hs.plannedAt_le
  disk he := hs.disk (h ▸ he)
  inputs he := hs.inputs (h ▸ he)
  applied := hs.applied

theorem Service.Sound.planned (hw : w.Sound) (edited : ServiceUnit → Bool) (unit : ServiceUnit) :
    Service.Sound w edited ⟨unit, w.disk unit, none, w.clock⟩ where
  plannedAt_le := le_rfl
  disk _ := rfl
  inputs _ _ _ hb _ hn := absurd hn (hw.number_lt_clock hb).not_ge
  applied _ _ _ h := by contradiction

/-- The activation read the files of the unit as they were planned, but for the storage and for
files edited meanwhile. -/
def Certain (w : World) (edited : ServiceUnit → Bool) (service : Service) (id : InvocationId) :
    Prop :=
  service.unit = .storage ∨ edited service.unit = true ∨
    w.Read service.unit service.fingerprint id

theorem Certain.later {service : Service} {id : InvocationId} (hc : Certain w edited service id)
    (h : w.Later w' edited edited') : Certain w' edited' service id := by
  obtain hunit | he | hr := hc
  · exact .inl hunit
  · refine .inr (.inl (Bool.not_eq_false _ |>.mp fun he' => ?_))
    rw [(h.unedited _ he').1] at he
    exact Bool.noConfusion he
  · exact .inr (.inr (h.read hr))

/-- An activation since the plan read what was planned. -/
theorem Service.Sound.certain {service : Service} (hs : service.Sound w edited)
    {id : InvocationId} {inputs : Fingerprint} {n : ℕ}
    (hb : w.began id = some ⟨service.unit, inputs, n⟩) (hn : service.plannedAt ≤ n) :
    Certain w edited service id := by
  by_cases he : edited service.unit = true
  · exact .inr (.inl he)
  · have hinputs := hs.inputs (Bool.eq_false_of_not_eq_true he) id _ hb rfl hn
    exact .inr (.inr (.inl ⟨n, by rw [hb, ← hinputs]⟩))

/-- An activation is known to have read what was planned, and any after it began since the plan. -/
def Known (w : World) (edited : ServiceUnit → Bool) (service : Service) : Prop :=
  ∃ id inputs n, w.began id = some ⟨service.unit, inputs, n⟩ ∧ Certain w edited service id ∧
    ∀ id' b, w.began id' = some b → b.unit = service.unit → n < b.number →
      service.plannedAt ≤ b.number

theorem Known.later {service : Service} (hk : Known w edited service)
    (hs : service.Sound w edited) (h : w.Later w' edited edited') : Known w' edited' service := by
  obtain ⟨id, inputs, n, hb, hc, hafter⟩ := hk
  refine ⟨id, inputs, n, h.began _ _ hb, hc.later h, fun id' b hb' hunit hn => ?_⟩
  obtain hold | ⟨hclock, -⟩ := h.fresh id' b hb'
  · exact hafter id' b hold hunit hn
  · exact hs.plannedAt_le.trans hclock

/-- The activation that a receipt named is the last one of its unit. -/
theorem known_of_current (hw : w.Sound) {service : Service} {id : InvocationId}
    (hid : (w.units service.unit).invocation = some id) (hc : Certain w edited service id) :
    Known w edited service := by
  obtain ⟨inputs, n, hb, hn⟩ := hw.current _ _ hid
  refine ⟨id, inputs, n, hb, hc, fun id' b hb' hunit hlt => ?_⟩
  have := hw.number_lt id' b hb'
  rw [hunit] at this
  omega

/-- So the last activation of the unit, whichever it is by now, read what was planned. -/
theorem Known.certain {service : Service} (hk : Known w edited service) (hw : w.Sound)
    (hs : service.Sound w edited) {id : InvocationId}
    (hid : (w.units service.unit).invocation = some id) : Certain w edited service id := by
  obtain ⟨inputs, n, hb, hn⟩ := hw.current _ _ hid
  obtain ⟨id', inputs', n', hb', hc, hafter⟩ := hk
  have hlt := hw.number_lt id' _ hb'
  obtain heq | hlt := Nat.eq_or_lt_of_le (show n' ≤ n by simp only at hlt; omega)
  · obtain rfl := hw.number_inj _ _ _ _ hb' hb heq
    exact hc
  · exact hs.certain hb (hafter id _ hb rfl hlt)

/-! ### The stages of a start -/

/-- A unit is done with: it failed, or its activation is the one planned. -/
def Settled (w : World) (edited : ServiceUnit → Bool) (service : Service)
    (activation : Activation) : Prop :=
  activation.unit = service.unit ∧
    (activation.outcome ≠ .failed →
      ∃ id, activation.invocation = some id ∧ Certain w edited service id)

theorem Settled.later {service : Service} {activation : Activation}
    (hs : Settled w edited service activation) (h : w.Later w' edited edited') :
    Settled w' edited' service activation :=
  ⟨hs.1, fun ho => (hs.2 ho).imp fun _ hid => ⟨hid.1, hid.2.later h⟩⟩

theorem Settled.fail {service : Service} {activation : Activation}
    (hs : Settled w edited service activation) :
    Settled w edited service { activation with outcome := .failed } :=
  ⟨hs.1, fun ho => absurd rfl ho⟩

/-- The units before these are done with, and all of them came up. -/
def Start.Reached (w : World) (p : Start) (services : List Service) : Prop :=
  ∃ done, p.plan = done ++ services ∧ List.Forall₂ (Settled w p.edited) done p.units ∧
    ∃ ids : List InvocationId, p.units.map Activation.invocation = ids.map some

/-- So many units were gone through: all of them, each with the activation it came up with, or those
up to the first that did not come up. -/
def WentUpTo (invocations : List (Option InvocationId)) (all : Prop) : Prop :=
  ∃ ids : List InvocationId,
    invocations = ids.map some ∧ all ∨ invocations = ids.map some ++ [none]

/-- The units up to the first that did not come up are done with. -/
def Start.Tried (w : World) (p : Start) (units : List Activation) : Prop :=
  ∃ done services, p.plan = done ++ services ∧ List.Forall₂ (Settled w p.edited) done units ∧
    WentUpTo (units.map Activation.invocation) (services = [])

/-- A unit that fails the last check counts as failed. -/
theorem Start.Tried.fail {p : Start} {checked activations : List Activation}
    {activation : Activation} (ht : p.Tried w (checked ++ activation :: activations)) :
    p.Tried w (checked ++ { activation with outcome := .failed } :: activations) := by
  obtain ⟨done, services, hplan, hdone, hall⟩ := ht
  rw [List.map_append] at hall
  refine ⟨done, services, hplan, ?_, by rw [List.map_append]; exact hall⟩
  have hfront := List.forall₂_take_append _ _ _ hdone
  obtain ⟨service, rest, hs, hrest, hback⟩ :=
    List.forall₂_cons_right_iff.mp (List.forall₂_drop_append _ _ _ hdone)
  rw [← List.take_append_drop checked.length done, hback]
  exact List.rel_append hfront (.cons hs.fail hrest)

theorem Start.Reached.none {p : Start} (h : p.units = []) : p.Reached w p.plan :=
  ⟨[], rfl, h ▸ .nil, [], h ▸ rfl⟩

theorem Start.Reached.service_sound {p : Start} {service : Service} {services : List Service}
    (hr : p.Reached w (service :: services)) (hp : ∀ service ∈ p.plan, service.Sound w p.edited) :
    service.Sound w p.edited := by
  obtain ⟨done, hplan, -⟩ := hr
  exact hp _ (by rw [hplan]; exact List.mem_append_right _ List.mem_cons_self)

structure Turn.Sound (w : World) (p : Start) (turn : Turn) : Prop where
  reached : p.Reached w (turn.service :: turn.services)
  storage : turn.service.unit = .storage → turn.restart = false
  permitted : turn.service.unit = .zerofs → turn.restart = true → turn.wasActive = true →
    p.restartZerofs = true
  known : turn.restart = false → turn.service.unit ≠ .storage → Known w p.edited turn.service

/-- The activation that a receipt is written for. -/
def Certified (w : World) (service : Service) (activation : Activation) : Prop :=
  activation.outcome ≠ .failed →
    ∃ id, activation.invocation = some id ∧
      (service.unit = .storage ∨ w.Read service.unit service.fingerprint id)

/-- Those before these have their receipts. -/
def Start.Certifying (w : World) (p : Start) (activations : List (Service × Activation)) : Prop :=
  p.Tried w p.units ∧
    ∃ certified, p.plan.zip p.units = certified ++ activations ∧
      ∀ service activation, (service, activation) ∈ certified → Certified w service activation

theorem Start.Tried.zip {p : Start} {units : List Activation} (ht : p.Tried w units)
    {service : Service} {activation : Activation}
    (hmem : (service, activation) ∈ p.plan.zip units) :
    Settled w p.edited service activation := by
  obtain ⟨done, services, hplan, hdone, -⟩ := ht
  refine List.forall₂_zip hdone ?_
  rw [hplan, ← List.append_nil units, List.zip_append hdone.length_eq, List.zip_nil_right,
    List.append_nil] at hmem
  exact hmem

theorem Start.Certifying.settled {p : Start} {service : Service} {activation : Activation}
    {activations : List (Service × Activation)}
    (hc : p.Certifying w ((service, activation) :: activations)) :
    Settled w p.edited service activation := by
  obtain ⟨ht, certified, hzip, -⟩ := hc
  exact ht.zip (hzip ▸ List.mem_append_right _ List.mem_cons_self)

theorem Start.Certifying.next {p : Start} {service : Service} {activation : Activation}
    {activations : List (Service × Activation)}
    (hc : p.Certifying w ((service, activation) :: activations))
    (h : Certified w service activation) : p.Certifying w activations := by
  obtain ⟨ht, certified, hzip, hcertified⟩ := hc
  refine ⟨ht, certified ++ [(service, activation)], ?_, fun service' activation' hmem => ?_⟩
  · rw [hzip, List.append_assoc]
    rfl
  · obtain hmem | hmem := List.mem_append.mp hmem
    · exact hcertified _ _ hmem
    · obtain ⟨rfl, rfl⟩ := Prod.mk.inj (List.mem_singleton.mp hmem)
      exact h

/-- What a start knows where it is. -/
def Stage.Sound (w : World) (p : Start) : Stage → Prop
  | .planning units => p.units = [] ∧ (p.plan.map Service.unit ++ units).Nodup
  | .planningReceipt service units =>
    p.units = [] ∧ (p.plan.map Service.unit ++ service.unit :: units).Nodup ∧
      service.Sound w p.edited
  | .permitting _ | .permittingInvocation _ _ | .reloadingUnits | .enabling => p.units = []
  | .next services => p.Reached w services
  | .asked service services _ => p.Reached w (service :: services)
  | .reloading service services invocation =>
    p.Reached w (service :: services) ∧ service.unit = .daemon ∧
      ∃ id, invocation = some id ∧ Certain w p.edited service id
  | .invalidating turn | .invalidatingMounts turn _ | .commanding turn => turn.Sound w p
  | .commanded turn begun => turn.Sound w p ∧ turn.service.plannedAt ≤ begun
  | .looking turn | .identifying turn _ =>
    turn.Sound w p ∧
      (turn.restart = true → turn.service.plannedAt < (w.units turn.service.unit).begun)
  | .checking checked activations => p.Tried w (checked ++ activations)
  | .checkingInvocation checked activation activations =>
    p.Tried w (checked ++ activation :: activations)
  | .certifying activations => p.Certifying w activations
  | .writing service id activations =>
    p.Certifying w activations ∧
      (service.unit ≠ .storage → w.Read service.unit service.fingerprint id)
  | .ended (.error _) => True
  | .ended (.ok units) => units = p.units ∧ p.Certifying w []

structure Start.Sound (w : World) (p : Start) (stage : Stage) : Prop where
  plan : ∀ service ∈ p.plan, service.Sound w p.edited
  stage : stage.Sound w p

/-! ### What a start relies on stays -/

variable {p : Start}

theorem Start.Reached.later {services : List Service} (hr : p.Reached w services)
    (h : w.Later w' p.edited edited') :
    ({ p with edited := edited' } : Start).Reached w' services := by
  obtain ⟨done, hplan, hdone, hup⟩ := hr
  exact ⟨done, hplan, hdone.imp fun _ _ hs => hs.later h, hup⟩

theorem Start.Tried.later {units : List Activation} (ht : p.Tried w units)
    (h : w.Later w' p.edited edited') : ({ p with edited := edited' } : Start).Tried w' units := by
  obtain ⟨done, services, hplan, hdone, hall⟩ := ht
  exact ⟨done, services, hplan, hdone.imp fun _ _ hs => hs.later h, hall⟩

theorem Certified.later {service : Service} {activation : Activation}
    (hc : Certified w service activation) (h : w.Later w' edited edited') :
    Certified w' service activation :=
  fun ho => (hc ho).imp fun _ hid => ⟨hid.1, hid.2.imp_right h.read⟩

theorem Start.Certifying.later {activations : List (Service × Activation)}
    (hc : p.Certifying w activations) (h : w.Later w' p.edited edited') :
    ({ p with edited := edited' } : Start).Certifying w' activations := by
  obtain ⟨ht, certified, hzip, hcert⟩ := hc
  exact ⟨ht.later h, certified, hzip, fun _ _ hmem => (hcert _ _ hmem).later h⟩

theorem Turn.Sound.service_sound {turn : Turn} (ht : turn.Sound w p)
    (hp : ∀ service ∈ p.plan, service.Sound w p.edited) : turn.service.Sound w p.edited :=
  ht.reached.service_sound hp

theorem Turn.Sound.later {turn : Turn} (ht : turn.Sound w p)
    (hp : ∀ service ∈ p.plan, service.Sound w p.edited) (h : w.Later w' p.edited edited') :
    turn.Sound w' { p with edited := edited' } where
  reached := ht.reached.later h
  storage := ht.storage
  permitted := ht.permitted
  known hrestart hunit := (ht.known hrestart hunit).later (ht.service_sound hp) h

/-- Whatever else happens, a start may rely on what it knew. -/
theorem Start.Sound.later {stage : Stage} (hp : p.Sound w stage)
    (h : w.Later w' p.edited edited') :
    ({ p with edited := edited' } : Start).Sound w' stage := by
  refine ⟨fun service hmem => (hp.plan service hmem).later h, ?_⟩
  have hstage := hp.stage
  cases stage with
  | planning => exact hstage
  | planningReceipt service units => exact ⟨hstage.1, hstage.2.1, hstage.2.2.later h⟩
  | permitting | permittingInvocation | reloadingUnits | enabling => exact hstage
  | next services | asked => exact Start.Reached.later hstage h
  | reloading =>
    obtain ⟨hr, hunit, id, hid, hc⟩ := hstage
    exact ⟨hr.later h, hunit, id, hid, hc.later h⟩
  | invalidating | invalidatingMounts | commanding => exact Turn.Sound.later hstage hp.plan h
  | commanded => exact ⟨hstage.1.later hp.plan h, hstage.2⟩
  | looking | identifying =>
    exact ⟨hstage.1.later hp.plan h, fun hr => (hstage.2 hr).trans_le (h.begun_le _)⟩
  | checking | checkingInvocation => exact Start.Tried.later hstage h
  | certifying => exact Start.Certifying.later hstage h
  | writing => exact ⟨hstage.1.later h, fun hunit => h.read (hstage.2 hunit)⟩
  | ended result =>
    cases result with
    | error => trivial
    | ok => exact ⟨hstage.1, hstage.2.later h⟩

end Nibrunner.ServiceStart
