import Nibrunner.Volumes.DeviceSafety

/-!
# Calls that share a device

A pass provisions several volumes at once, and a wake attaches one meanwhile. The volumes of one app
share the device of its slot, and nothing keeps two calls from using it together.

* `kept_apart`: where calls keep apart, and a device that was returned is re-attached for another
  volume only once it no longer answers, **no format meets another volume or a filesystem, and no
  device that was returned is taken away while it answers**. In particular calls for one volume may
  share the device as long as it can be proven.
* `not_kept_apart`: two volumes of one app. The second re-attaches the device while the first is
  about to format it.
-/

namespace Nibrunner.Nbd

open Std

namespace Phase

/-- A call of a pass relies on nothing more. -/
def isQuiet : Phase → Bool
  | entering | lookingUp | probing _ | recalling _ | proven _ | staging _ | formatting _ | done =>
    true
  | _ => false

end Phase

namespace ZerofsVolumes

/-- A pass begins: nothing was returned in it yet. -/
def passBegins (s : ZerofsVolumes) : ZerofsVolumes :=
  { s with lent := ∅, takenDown := [] }

/-- The calls of a pass: every volume of the document is provisioned once, and wakes attach. -/
def OfPass (s : ZerofsVolumes) : Move → Prop
  | .begin (.provision _) volumeId _ => ∀ call ∈ s.calls, call.request.isProvision = true →
    call.volumeId = volumeId → call.phase = .done
  | .begin .attach _ _ => True
  | .advance _ _ => True
  | _ => False

/-- A call that is about to take a device down finds it not returned for another volume, or no
longer answering. -/
def Spares (s : ZerofsVolumes) : Move → Prop
  | .advance id _ => ∀ call ∈ s.calls[id]?, ∀ slot ∈ s.turns call, ∀ volumeId ∈ s.lent[slot]?,
    volumeId = call.volumeId ∨ s.isUsable slot = false
  | _ => True

/-- When a pass is safe. -/
def Apart (s : ZerofsVolumes) (m : Move) : Prop :=
  s.OfPass m ∧ s.Undisturbed m ∧ s.Spares m ∧ s.Distinct

instance (s : ZerofsVolumes) : (m : Move) → Decidable (s.OfPass m)
  | .begin (.provision _) volumeId _ => inferInstanceAs (Decidable (∀ call ∈ s.calls,
    call.request.isProvision = true → call.volumeId = volumeId → call.phase = .done))
  | .begin .attach _ _ | .advance _ _ => inferInstanceAs (Decidable True)
  | .begin .observe _ _ | .begin .detach _ _ | .begin .teardown _ _ | .releaseSlot _
  | .allocateSlot _ | .daemonRestarts _ | .storageRestarts
  | .guestWrites _ _ => inferInstanceAs (Decidable False)

instance (s : ZerofsVolumes) : (m : Move) → Decidable (s.Spares m)
  | .advance id _ => inferInstanceAs (Decidable (∀ call ∈ s.calls[id]?, ∀ slot ∈ s.turns call,
    ∀ volumeId ∈ s.lent[slot]?, volumeId = call.volumeId ∨ s.isUsable slot = false))
  | .begin _ _ _ | .releaseSlot _ | .allocateSlot _ | .daemonRestarts _ | .storageRestarts
  | .guestWrites _ _ => inferInstanceAs (Decidable True)

instance (s : ZerofsVolumes) (m : Move) : Decidable (s.Apart m) :=
  inferInstanceAs (Decidable (s.OfPass m ∧ s.Undisturbed m ∧ s.Spares m ∧ s.Distinct))

/-! ### What holds in a pass -/

/-- The volume has a filesystem to be told by. -/
def IsNamed (s : ZerofsVolumes) (volumeId : VolumeId) : Prop :=
  ∃ image, s.images[volumeId]? = some image ∧ image.superblock.filesystemUuid.isSome = true

/-- What a call of a pass relies on. -/
structure Lends (s : ZerofsVolumes) (call : Call) : Prop where
  request : call.request = .attach ∨ call.request.isProvision = true
  notDeleting : call.phase ≠ .deleting
  /-- A volume that came on record since the call looked for it has a filesystem. -/
  compared (slot : ℕ) (h : call.phase = .comparing slot)
    (ha : s.attachedTo[slot]? = some call.volumeId) : s.IsNamed call.volumeId
  named (slot : ℕ) (h : call.phase = .remembering slot) : s.IsNamed call.volumeId
  /-- A device that is reworked was not returned, or does not answer. -/
  unlent (slot : ℕ) (h : call.phase.reworks slot) :
    s.lent[slot]? = none ∨ s.isUsable slot = false ∧ call.phase ≠ .attached slot

structure Lending (s : ZerofsVolumes) : Prop where
  consistent : s.Consistent
  lends (id : CallId) (call : Call) (h : s.calls[id]? = some call) :
    call.phase = .done ∨ s.Lends call
  /-- A device that was returned and answers still serves its volume, and it is on record. -/
  lent (slot : ℕ) (volumeId : VolumeId) (h : s.lent[slot]? = some volumeId)
    (hu : s.isUsable slot = true) :
    s.attachedTo[slot]? = some volumeId ∧ s.serves slot volumeId = true
  spared : ∀ t ∈ s.takenDown, ¬ (t.lent = true ∧ t.answered = true)

variable {s s' : ZerofsVolumes} {id : CallId} {call : Call} {phase : Phase} {slot : ℕ}

/-- What others see of a step of a pass. -/
structure Seen (s s' : ZerofsVolumes) (call : Call) : Prop where
  device (slot : ℕ) : s'.devices[slot]? = s.devices[slot]? ∨ call.phase.reworks slot
  attachedTo (slot : ℕ) : s'.attachedTo[slot]? = s.attachedTo[slot]? ∨
    call.phase.uses slot ∧ (call.phase.reworks slot ∨ s.IsNamed call.volumeId)
  attached (slot : ℕ) (volumeId : VolumeId) (h : s'.attachedTo[slot]? = some volumeId) :
    s.attachedTo[slot]? = some volumeId ∨ volumeId = call.volumeId
  lent (slot : ℕ) : s'.lent[slot]? = s.lent[slot]? ∨ call.phase.uses slot
  named (volumeId : VolumeId) (h : s.IsNamed volumeId) : s'.IsNamed volumeId

theorem isUsable_of_devices (h : s'.devices[slot]? = s.devices[slot]?) :
    s'.isUsable slot = s.isUsable slot := by
  rw [isUsable, isUsable, h]

/-- What another call relies on stays. -/
theorem Seen.lends (e : Seen s s' call) (hs : s.Lending) (hcall : s.calls[id]? = some call)
    {id' : CallId} {call' : Call} (hne : id ≠ id') (hcall' : s.calls[id']? = some call')
    (h' : s.Lends call') : s'.Lends call' := by
  have hfree (slot : ℕ) (hu : call'.phase.uses slot) : ¬ call.phase.reworks slot := fun hr =>
    absurd hu (by rw [hs.consistent.alone id id' call call' slot hne hcall hcall' hr]; decide)
  refine ⟨h'.request, h'.notDeleting, fun slot hp ha => ?_, fun slot hp =>
    e.named _ (h'.named slot hp), fun slot hr => ?_⟩
  · have huses : call'.phase.uses slot := Phase.uses_of_slot? (by rw [hp]; rfl)
    rcases e.attachedTo slot with hsame | ⟨-, hr | hnamed⟩
    · exact e.named _ (h'.compared slot hp (hsame ▸ ha))
    · exact absurd hr (hfree slot huses)
    · rcases e.attached slot _ ha with hold | heq
      · exact e.named _ (h'.compared slot hp hold)
      · exact heq ▸ e.named _ hnamed
  · have hunused : ¬ call.phase.uses slot := fun hu => absurd hu (by
      rw [hs.consistent.alone id' id call' call slot hne.symm hcall' hcall hr]; decide)
    rw [(e.lent slot).resolve_right hunused,
      isUsable_of_devices ((e.device slot).resolve_right (hfree slot (Phase.uses_of_reworks hr)))]
    exact h'.unlent slot hr

/-- A call of a pass goes on. -/
theorem Lending.goesOn (hs : s.Lending) (hcall : s.calls[id]? = some call) (hcons : s'.Consistent)
    (e : Seen s s' call) (hcalls : s'.calls = s.calls.set id { call with phase := phase })
    (hown : phase = .done ∨ s'.Lends { call with phase := phase })
    (hlent : ∀ slot volumeId, call.phase.uses slot → s'.lent[slot]? = some volumeId →
      s'.isUsable slot = true →
        s'.attachedTo[slot]? = some volumeId ∧ s'.serves slot volumeId = true)
    (hspared : ∀ t ∈ s'.takenDown, ¬ (t.lent = true ∧ t.answered = true)) : s'.Lending := by
  have hlt : id < s.calls.length := (List.getElem?_eq_some_iff.mp hcall).1
  refine ⟨hcons, fun id' call' h => ?_, fun slot volumeId h hu => ?_, hspared⟩
  · by_cases heq : id = id'
    · subst heq
      rw [hcalls, List.getElem?_set_self hlt] at h
      obtain rfl := Option.some.inj h
      exact hown
    · rw [hcalls, List.getElem?_set_ne heq] at h
      exact (hs.lends id' call' h).imp_right fun h' => e.lends hs hcall heq h h'
  · by_cases huses : call.phase.uses slot
    · exact hlent slot volumeId huses h hu
    · -- The call has nothing to do with this device.
      have hdevice := (e.device slot).resolve_right fun hr => huses (Phase.uses_of_reworks hr)
      rw [(e.lent slot).resolve_right huses] at h
      rw [isUsable_of_devices hdevice] at hu
      obtain ⟨ha, hserves⟩ := hs.lent slot volumeId h hu
      exact ⟨((e.attachedTo slot).resolve_right fun h => huses h.1).trans ha,
        (serves_of_devices hdevice).trans hserves⟩

/-- A step that changes nothing others see. -/
theorem Seen.of_same (hd : s'.devices = s.devices) (ha : s'.attachedTo = s.attachedTo)
    (hl : s'.lent = s.lent) (hn : ∀ volumeId, s.IsNamed volumeId → s'.IsNamed volumeId) :
    Seen s s' call :=
  ⟨fun slot => .inl (by rw [hd]), fun slot => .inl (by rw [ha]),
    fun slot volumeId h => .inl (ha ▸ h), fun slot => .inl (by rw [hl]), hn⟩

/-- A call goes on and nothing was returned or taken away. -/
theorem Lending.keep (hs : s.Lending) (hcall : s.calls[id]? = some call) (hcons : s'.Consistent)
    (hd : s'.devices = s.devices) (ha : s'.attachedTo = s.attachedTo) (hl : s'.lent = s.lent)
    (hn : ∀ volumeId, s.IsNamed volumeId → s'.IsNamed volumeId)
    (hcalls : s'.calls = s.calls.set id { call with phase := phase })
    (ht : s'.takenDown = s.takenDown)
    (hown : phase = .done ∨ s'.Lends { call with phase := phase }) : s'.Lending := by
  refine hs.goesOn hcall hcons (.of_same hd ha hl hn) hcalls hown (fun slot volumeId _ h hu => ?_)
    (ht ▸ hs.spared)
  have hu : s.isUsable slot = true := (isUsable_of_devices (by rw [hd])).symm.trans hu
  obtain ⟨ha', hserves⟩ := hs.lent slot volumeId (hl ▸ h) hu
  exact ⟨ha ▸ ha', (serves_of_devices (by rw [hd])).trans hserves⟩

theorem lends_of_isQuiet (h : s.Lends call) (hquiet : phase.isQuiet) :
    s'.Lends { call with phase := phase } := by
  refine ⟨h.request, fun heq => ?_, fun slot heq => ?_, fun slot heq => ?_, fun slot hr => ?_⟩
  · rw [show phase = _ from heq] at hquiet
    exact Bool.noConfusion hquiet
  · rw [show phase = _ from heq] at hquiet
    exact Bool.noConfusion hquiet
  · rw [show phase = _ from heq] at hquiet
    exact Bool.noConfusion hquiet
  · have hr := Phase.isRework_of_reworks hr
    cases phase <;> first | exact Bool.noConfusion hr | exact Bool.noConfusion hquiet

/-- A call that reworks a device goes on to rework it. -/
theorem lends_of_unlent (h : s.Lends call) (hrework : phase.isRework)
    (hslot : phase.slot? = some slot)
    (hunlent : s'.lent[slot]? = none ∨ s'.isUsable slot = false ∧ phase ≠ .attached slot) :
    s'.Lends { call with phase := phase } := by
  refine ⟨h.request, fun heq => ?_, fun slot heq => ?_, fun slot heq => ?_, fun slot' hr => ?_⟩
  · rw [show phase = _ from heq] at hrework
    exact Bool.noConfusion hrework
  · rw [show phase = _ from heq] at hrework
    exact Bool.noConfusion hrework
  · rw [show phase = _ from heq] at hrework
    exact Bool.noConfusion hrework
  · rw [Phase.eq_of_uses hslot (Phase.uses_of_reworks hr)]
    exact hunlent

/-! ### The steps of a call of a pass -/

theorem isNamed_ensureDeviceFile (s : ZerofsVolumes) {volumeId w : VolumeId} (sizeBytes : ℕ)
    (answer : Answer) (h : s.IsNamed w) :
    (s.ensureDeviceFile volumeId sizeBytes answer).1.IsNamed w := by
  obtain ⟨image, hi, hnamed⟩ := h
  have hinsert (image' : Image)
      (hs : image'.superblock = (s.images[volumeId]?.getD .empty).superblock) :
      ({ s with images := s.images.insert volumeId image' } : ZerofsVolumes).IsNamed w := by
    by_cases heq : volumeId = w
    · subst heq
      refine ⟨image', by simp, ?_⟩
      rw [hs, hi]
      exact hnamed
    · refine ⟨image, ?_, hnamed⟩
      exact (ExtTreeMap.getElem?_insert_ite s.images volumeId w image').trans
        ((if_neg heq).trans hi)
  rw [ensureDeviceFile]
  split_ifs
  · exact ⟨image, hi, hnamed⟩
  · exact ⟨image, hi, hnamed⟩
  · exact ⟨image, hi, hnamed⟩
  · exact hinsert _ rfl
  · exact hinsert _ rfl

theorem ensureDeviceFile_frame (s : ZerofsVolumes) (volumeId : VolumeId) (sizeBytes : ℕ)
    (answer : Answer) :
    let s' := (s.ensureDeviceFile volumeId sizeBytes answer).1
    s'.lent = s.lent ∧ s'.takenDown = s.takenDown := by
  rw [ensureDeviceFile]
  split_ifs <;> exact ⟨rfl, rfl⟩

theorem Lending.enter (hs : s.Lending) (hcall : s.calls[id]? = some call) (h : s.Lends call)
    (answer : Answer) (hcons : (s.enter id call answer).Consistent) :
    (s.enter id call answer).Lending := by
  revert hcons
  rw [ZerofsVolumes.enter]
  have hquiet (made : Bool) : (if made then Phase.lookingUp else .done).isQuiet := by
    cases made <;> rfl
  split
  · rename_i sizeBytes hr
    intro hcons
    obtain ⟨hd, ha, hc, -⟩ := s.ensureDeviceFile_spec call.volumeId sizeBytes answer
    obtain ⟨hl, ht⟩ := s.ensureDeviceFile_frame call.volumeId sizeBytes answer
    exact hs.keep hcall hcons hd ha hl (fun w hw => s.isNamed_ensureDeviceFile sizeBytes answer hw)
      (congrArg (List.set · id _) hc) ht (.inr (lends_of_isQuiet h (hquiet _)))
  all_goals
    intro hcons
    exact hs.keep hcall hcons rfl rfl rfl (fun _ hw => hw) rfl rfl
      (.inr (lends_of_isQuiet h (by first | exact hquiet _ | rfl)))

theorem Lending.lookUp (hs : s.Lending) (hcall : s.calls[id]? = some call) (h : s.Lends call)
    (hcons : (s.lookUp id call).Consistent) : (s.lookUp id call).Lending := by
  have hgo {t : ZerofsVolumes} (phase : Phase) (hquiet : phase.isQuiet)
      (hcons : (t.goTo id call phase).Consistent) (hd : t.devices = s.devices)
      (ha : t.attachedTo = s.attachedTo) (hl : t.lent = s.lent) (hi : t.images = s.images)
      (hc : t.calls = s.calls) (ht : t.takenDown = s.takenDown) : (t.goTo id call phase).Lending :=
    hs.keep hcall hcons hd ha hl
      (fun w ⟨image, himage, hnamed⟩ => ⟨image, (congrArg (·[w]?) hi).trans himage, hnamed⟩)
      (congrArg (List.set · id _) hc) ht (.inr (lends_of_isQuiet h hquiet))
  revert hcons
  rw [ZerofsVolumes.lookUp]
  split
  · split <;> exact fun hcons => hgo _ rfl hcons rfl rfl rfl rfl rfl rfl
  · split <;> exact fun hcons => hgo _ rfl hcons rfl rfl rfl rfl rfl rfl
  · split <;> exact fun hcons => hgo _ rfl hcons rfl rfl rfl rfl rfl rfl
  · rename_i hr
    exact absurd h.request (by rw [hr]; decide)
  · rename_i hr
    exact absurd h.request (by rw [hr]; decide)

/-- A call goes on to a phase in which it relies on nothing more. -/
theorem Lending.quiet (hs : s.Lending) (hcall : s.calls[id]? = some call) (h : s.Lends call)
    (hquiet : phase.isQuiet) (hcons : (s.goTo id call phase).Consistent) :
    (s.goTo id call phase).Lending :=
  hs.keep hcall hcons rfl rfl rfl (fun _ hw => hw) rfl rfl (.inr (lends_of_isQuiet h hquiet))

/-- A call that finds its device unproven; the device was not returned, or does not answer. -/
theorem Lending.turn (hs : s.Lending) (hcall : s.calls[id]? = some call) (h : s.Lends call)
    (hcons : (s.goTo id call (unproven call.request slot)).Consistent)
    (hunlent : s.lent[slot]? = none ∨ s.isUsable slot = false) :
    (s.goTo id call (unproven call.request slot)).Lending := by
  have hto : unproven call.request slot = .takingDown slot false := by
    cases hr : call.request <;> first | rfl | exact absurd h.request (by rw [hr]; decide)
  rw [hto] at hcons ⊢
  refine hs.keep hcall hcons rfl rfl rfl (fun _ hw => hw) rfl rfl (.inr ?_)
  exact lends_of_unlent h rfl rfl (hunlent.imp_right fun hu => ⟨hu, nofun⟩)

theorem Lending.probe (hs : s.Lending) (hcall : s.calls[id]? = some call) (h : s.Lends call)
    (hcons : (s.goTo id call (if s.isUsable slot then .recalling slot
      else unproven call.request slot)).Consistent) :
    (s.goTo id call (if s.isUsable slot then .recalling slot
      else unproven call.request slot)).Lending := by
  revert hcons
  split
  · exact fun hcons => hs.quiet hcall h rfl hcons
  · rename_i husable
    exact fun hcons => hs.turn hcall h hcons (.inr (Bool.not_eq_true _ ▸ husable))

theorem Lending.recall (hs : s.Lending) (hcall : s.calls[id]? = some call) (h : s.Lends call)
    (hcons : (s.goTo id call (if s.attachedTo[slot]? = some call.volumeId then .proven slot
      else .comparing slot)).Consistent) :
    (s.goTo id call (if s.attachedTo[slot]? = some call.volumeId then .proven slot
      else .comparing slot)).Lending := by
  revert hcons
  split
  · exact fun hcons => hs.quiet hcall h rfl hcons
  · rename_i hunknown
    intro hcons
    refine hs.keep hcall hcons rfl rfl rfl (fun _ hw => hw) rfl rfl (.inr ?_)
    refine ⟨h.request, nofun, fun slot' hphase ha => ?_, nofun, fun slot' hr =>
      Bool.noConfusion (Phase.isRework_of_reworks hr)⟩
    obtain rfl := Phase.comparing.inj hphase
    exact absurd ha hunknown

/-- A device that serves a volume shows its filesystem, if it has one. -/
theorem carriesTheImage_of_serves {volumeId : VolumeId} (hserves : s.serves slot volumeId)
    (hnamed : s.IsNamed volumeId) : s.carriesTheImage slot volumeId = true := by
  obtain ⟨image, hi, hsome⟩ := hnamed
  obtain ⟨uuid, hu⟩ := Option.isSome_iff_exists.mp hsome
  rw [carriesTheImage, superblockOf_of_serves hserves, hi]
  simp [hu]

theorem isNamed_of_carriesTheImage {volumeId : VolumeId}
    (h : s.carriesTheImage slot volumeId) : s.IsNamed volumeId := by
  rw [carriesTheImage] at h
  split at h
  · rename_i carried hcarried
    obtain ⟨image, hi, hu⟩ := Option.bind_eq_some_iff.mp hcarried
    exact ⟨image, hi, by rw [hu]; rfl⟩
  · exact Bool.noConfusion h

theorem Lending.compare (hs : s.Lending) (hcall : s.calls[id]? = some call) (h : s.Lends call)
    (hphase : call.phase = .comparing slot)
    (hspares : ∀ volumeId ∈ s.lent[slot]?, s.carriesTheImage slot call.volumeId = false →
      volumeId = call.volumeId ∨ s.isUsable slot = false)
    (hcons : (s.goTo id call (if s.carriesTheImage slot call.volumeId then .remembering slot
      else unproven call.request slot)).Consistent) :
    (s.goTo id call (if s.carriesTheImage slot call.volumeId then .remembering slot
      else unproven call.request slot)).Lending := by
  revert hcons
  split
  · rename_i hcarries
    intro hcons
    refine hs.keep hcall hcons rfl rfl rfl (fun _ hw => hw) rfl rfl (.inr ?_)
    exact ⟨h.request, nofun, nofun, fun _ _ => isNamed_of_carriesTheImage hcarries, fun slot' hr =>
      Bool.noConfusion (Phase.isRework_of_reworks hr)⟩
  · rename_i hcarries
    rw [Bool.not_eq_true] at hcarries
    refine fun hcons => hs.turn hcall h hcons ?_
    cases hlent : s.lent[slot]? with
    | none => exact .inl rfl
    | some volumeId =>
      refine .inr ?_
      rcases hspares volumeId hlent hcarries with rfl | hu
      · -- Its own volume: the device is on record, and shows the filesystem of the image.
        by_contra hu
        rw [Bool.not_eq_false] at hu
        obtain ⟨ha, hserves⟩ := hs.lent slot call.volumeId hlent hu
        have hcarry := carriesTheImage_of_serves hserves (h.compared slot hphase ha)
        exact absurd (hcarries.symm.trans hcarry) (by decide)
      · exact hu

theorem Lending.remember (hs : s.Lending) (hcall : s.calls[id]? = some call) (h : s.Lends call)
    (hslot : call.phase.slot? = some slot) (hproven : call.phase.isProven)
    (hphase : call.phase = .remembering slot ∨ call.phase = .attached slot)
    (hcons : ((s.remember slot call.volumeId).goTo id call (.proven slot)).Consistent) :
    ((s.remember slot call.volumeId).goTo id call (.proven slot)).Lending := by
  have huses := Phase.uses_of_slot? hslot
  have hserves := (hs.consistent.holds id call hcall).served slot hproven huses
  have hne {slot' : ℕ} (hne : slot ≠ slot') : (s.remember slot call.volumeId).attachedTo[slot']? =
      s.attachedTo[slot']? :=
    (ExtTreeMap.getElem?_insert_ite s.attachedTo slot slot' call.volumeId).trans (if_neg hne)
  have hself : (s.remember slot call.volumeId).attachedTo[slot]? = some call.volumeId := by
    simp [ZerofsVolumes.remember]
  refine hs.goesOn hcall hcons ⟨fun _ => .inl rfl, fun slot' => ?_, fun slot' volumeId ha => ?_,
    fun _ => .inl rfl, fun _ hw => hw⟩ rfl (.inr (lends_of_isQuiet h rfl))
    (fun slot' volumeId hu hlent husable => ?_) hs.spared
  · by_cases heq : slot = slot'
    · subst heq
      refine .inr ⟨huses, ?_⟩
      rcases hphase with hphase | hphase
      · exact .inr (h.named slot hphase)
      · refine .inl ?_
        rw [Phase.reworks, huses, hphase]
        rfl
    · exact .inl (hne heq)
  · by_cases heq : slot = slot'
    · subst heq
      exact .inr (Option.some.inj (hself.symm.trans ha)).symm
    · exact .inl ((hne heq).symm.trans ha)
  · obtain rfl := Phase.eq_of_uses hslot hu
    -- The device serves one volume.
    obtain ⟨-, hserves'⟩ := hs.lent slot' volumeId hlent husable
    obtain rfl := serves_unique hserves hserves'
    exact ⟨hself, hserves⟩

/-- A call that reworks a device goes on to rework it, or ends. -/
theorem Lending.rework (hs : s.Lending) (hcall : s.calls[id]? = some call) (h : s.Lends call)
    (hreworks : call.phase.reworks slot) (hcons : s'.Consistent)
    (hslot : phase = .done ∨ phase.isRework ∧ phase.slot? = some slot)
    (hd : ∀ slot', slot' ≠ slot → s'.devices[slot']? = s.devices[slot']?)
    (ha : ∀ slot', slot' ≠ slot → s'.attachedTo[slot']? = s.attachedTo[slot']?)
    (hnone : s'.attachedTo[slot]? = none)
    (hl : ∀ slot', slot' ≠ slot → s'.lent[slot']? = s.lent[slot']?)
    (hi : s'.images = s.images) (hcalls : s'.calls = s.calls.set id { call with phase := phase })
    (hunlent : s'.lent[slot]? = none ∨ s'.isUsable slot = false ∧ phase ≠ .attached slot)
    (hspared : ∀ t ∈ s'.takenDown, ¬ (t.lent = true ∧ t.answered = true)) : s'.Lending := by
  refine hs.goesOn hcall hcons ⟨fun slot' => ?_, fun slot' => ?_, fun slot' volumeId h => ?_,
    fun slot' => ?_, fun w ⟨image, himage, hnamed⟩ =>
      ⟨image, (congrArg (·[w]?) hi).trans himage, hnamed⟩⟩ hcalls ?_
    (fun slot' volumeId hu hlent husable => ?_) hspared
  · exact (eq_or_ne slot' slot).elim (fun h => .inr (h ▸ hreworks)) fun h => .inl (hd slot' h)
  · exact (eq_or_ne slot' slot).elim
      (fun h => .inr (h ▸ ⟨Phase.uses_of_reworks hreworks, .inl hreworks⟩))
      fun h => .inl (ha slot' h)
  · refine .inl ((ha slot' fun heq => ?_).symm.trans h)
    rw [heq] at h
    exact absurd (hnone.symm.trans h) nofun
  · exact (eq_or_ne slot' slot).elim (fun h => .inr (h ▸ Phase.uses_of_reworks hreworks))
      fun h => .inl (hl slot' h)
  · rcases hslot with rfl | ⟨hrework, hslot⟩
    · exact .inl rfl
    · exact .inr (lends_of_unlent h hrework hslot hunlent)
  · -- The device was not returned, or does not answer.
    have hto : slot' = slot := by
      rw [Phase.reworks, Bool.and_eq_true, Phase.uses, decide_eq_true_eq] at hreworks
      exact Phase.eq_of_uses hreworks.2 hu
    rw [hto] at hlent husable
    rcases hunlent with hnone | ⟨hunusable, -⟩
    · exact absurd (hnone.symm.trans hlent) nofun
    · exact absurd (hunusable.symm.trans husable) (by decide)

theorem Lending.forget (hs : s.Lending) (hcall : s.calls[id]? = some call) (h : s.Lends call)
    (hreworks : call.phase.reworks slot) (hrework : phase.isRework)
    (hslot : phase.slot? = some slot) (hattached : phase ≠ .attached slot)
    (hcons : ((s.forget slot).goTo id call phase).Consistent) :
    ((s.forget slot).goTo id call phase).Lending :=
  hs.rework hcall h hreworks hcons (.inr ⟨hrework, hslot⟩) (fun _ _ => rfl)
    (fun _ hne => erase_of_ne hne) erase_self (fun _ _ => rfl) rfl rfl
    ((h.unlent slot hreworks).imp_right fun hu => ⟨hu.1, hattached⟩) hs.spared

theorem release_lent (letsGo : Bool) : (s.release slot letsGo).lent = s.lent := by
  cases letsGo <;> rfl

theorem release_takenDown (letsGo : Bool) : (s.release slot letsGo).takenDown = s.takenDown := by
  cases letsGo <;> rfl

theorem isUsable_release (letsGo : Bool) (h : s.isUsable slot = false) :
    (s.release slot letsGo).isUsable slot = false := by
  cases letsGo with
  | false => exact h
  | true =>
    have hnone : (s.release slot true).devices[slot]? = none := erase_self
    rw [isUsable, hnone]
    rfl

/-- The client is run on a device that was not returned, or does not answer. -/
theorem Lending.spared_takeAway (hs : s.Lending) (h : s.Lends call)
    (hreworks : call.phase.reworks slot) :
    ∀ t ∈ (s.takeAway slot).takenDown, ¬ (t.lent = true ∧ t.answered = true) := by
  intro t ht
  rcases List.mem_append.mp ht with ht | ht
  · exact hs.spared t ht
  · obtain rfl := List.mem_singleton.mp ht
    rintro ⟨hlent, hanswered⟩
    rcases h.unlent slot hreworks with hnone | ⟨hunusable, -⟩
    · rw [hnone] at hlent
      exact Bool.noConfusion hlent
    · exact absurd (hunusable.symm.trans hanswered) (by decide)

/-- The client has been run, and the kernel may have let go of the device. -/
theorem Lending.takeAway (hs : s.Lending) (hcall : s.calls[id]? = some call) (h : s.Lends call)
    (hreworks : call.phase.reworks slot) (hforgotten : call.phase.isForgotten)
    (hslot : phase = .done ∨ phase.isRework ∧ phase.slot? = some slot) (letsGo : Bool)
    (hcons : (((s.takeAway slot).release slot letsGo).goTo id call phase).Consistent) :
    (((s.takeAway slot).release slot letsGo).goTo id call phase).Lending := by
  have hnone := (hs.consistent.holds id call hcall).forgotten slot hforgotten
    (Phase.uses_of_reworks hreworks)
  have ha : ((s.takeAway slot).release slot letsGo).attachedTo = s.attachedTo :=
    release_attachedTo letsGo
  have hl : ((s.takeAway slot).release slot letsGo).lent = s.lent.erase slot := release_lent letsGo
  refine hs.rework hcall h hreworks hcons hslot (fun slot' hne => release_of_ne letsGo hne)
    (fun slot' _ => congrArg (·[slot']?) ha) ((congrArg (·[slot]?) ha).trans hnone)
    (fun slot' hne => (congrArg (·[slot']?) hl).trans (erase_of_ne hne)) (release_images letsGo)
    (congrArg (List.set · id _) (release_calls letsGo))
    (.inl ((congrArg (·[slot]?) hl).trans erase_self)) ?_
  intro t ht
  have ht : t ∈ (s.takeAway slot).takenDown := (release_takenDown letsGo) ▸ ht
  exact hs.spared_takeAway h hreworks t ht

theorem Lending.connect (hs : s.Lending) (hcall : s.calls[id]? = some call) (h : s.Lends call)
    (hreworks : call.phase.reworks slot) (hforgotten : call.phase.isForgotten)
    (hcons : (((s.takeAway slot).connect slot call.volumeId).goTo id call
      (.attached slot)).Consistent) :
    (((s.takeAway slot).connect slot call.volumeId).goTo id call (.attached slot)).Lending := by
  have hnone := (hs.consistent.holds id call hcall).forgotten slot hforgotten
    (Phase.uses_of_reworks hreworks)
  exact hs.rework hcall h hreworks hcons (.inr ⟨rfl, rfl⟩)
    (fun slot' hne => (ExtTreeMap.getElem?_insert_ite s.devices slot slot' _).trans
      (if_neg (Ne.symm hne)))
    (fun _ _ => rfl) hnone (fun _ hne => erase_of_ne hne) rfl rfl (.inl erase_self)
    (hs.spared_takeAway h hreworks)

theorem Lending.wait (hs : s.Lending) (hcall : s.calls[id]? = some call) (h : s.Lends call)
    (hreworks : call.phase.reworks slot) (hforgotten : call.phase.isForgotten) (again letsGo : Bool)
    (hcons : ((s.release slot letsGo).goTo id call (.attaching slot again)).Consistent) :
    ((s.release slot letsGo).goTo id call (.attaching slot again)).Lending := by
  have hnone := (hs.consistent.holds id call hcall).forgotten slot hforgotten
    (Phase.uses_of_reworks hreworks)
  have ha : (s.release slot letsGo).attachedTo = s.attachedTo := release_attachedTo letsGo
  have hl : (s.release slot letsGo).lent = s.lent := release_lent letsGo
  refine hs.rework hcall h hreworks hcons (.inr ⟨rfl, rfl⟩)
    (fun slot' hne => release_of_ne letsGo hne) (fun slot' _ => congrArg (·[slot']?) ha)
    ((congrArg (·[slot]?) ha).trans hnone)
    (fun slot' _ => congrArg (·[slot']?) hl) (release_images letsGo)
    (congrArg (List.set · id _) (release_calls letsGo)) ?_ ?_
  · rcases h.unlent slot hreworks with hunlent | ⟨hunusable, -⟩
    · exact .inl ((congrArg (·[slot]?) hl).trans hunlent)
    · exact .inr ⟨isUsable_release letsGo hunusable, nofun⟩
  · intro t ht
    exact hs.spared t ((release_takenDown letsGo) ▸ ht)

/-- A proven device is returned. -/
theorem Lending.handOut {t : ZerofsVolumes} (hs : s.Lending) (hcall : s.calls[id]? = some call)
    (hslot : call.phase.slot? = some slot) (hproven : call.phase.isProven)
    (hrecorded : call.phase.isRecorded) (hd : t.devices = s.devices)
    (ha : t.attachedTo = s.attachedTo) (hl : t.lent = s.lent) (hc : t.calls = s.calls)
    (ht : t.takenDown = s.takenDown) (hn : ∀ volumeId, s.IsNamed volumeId → t.IsNamed volumeId)
    (hcons : (t.handOut id call slot).Consistent) : (t.handOut id call slot).Lending := by
  have huses := Phase.uses_of_slot? hslot
  have hholds := hs.consistent.holds id call hcall
  refine hs.goesOn hcall hcons ⟨fun slot' => .inl (congrArg (·[slot']?) hd),
    fun slot' => .inl (congrArg (·[slot']?) ha),
    fun slot' volumeId h => .inl ((congrArg (·[slot']?) ha).symm.trans h), fun slot' => ?_, hn⟩
    (congrArg (List.set · id _) hc) (.inl rfl) (fun slot' volumeId hu hlent husable => ?_)
    (fun r hr => hs.spared r (ht ▸ hr))
  · by_cases heq : slot = slot'
    · exact .inr (heq ▸ huses)
    · refine .inl ?_
      rw [← hl]
      exact (ExtTreeMap.getElem?_insert_ite t.lent slot slot' call.volumeId).trans (if_neg heq)
  · obtain rfl := Phase.eq_of_uses hslot hu
    have hself : (t.handOut id call slot').lent[slot']? = some call.volumeId := by
      simp [ZerofsVolumes.handOut, ZerofsVolumes.goTo]
    obtain rfl := Option.some.inj (hself.symm.trans hlent)
    exact ⟨(congrArg (·[slot']?) ha).trans (hholds.recorded slot' hrecorded huses),
      (serves_of_devices (congrArg (·[slot']?) hd)).trans (hholds.served slot' hproven huses)⟩

theorem Lending.useProven (hs : s.Lending) (hcall : s.calls[id]? = some call) (h : s.Lends call)
    (hphase : call.phase = .proven slot) (answer : Answer)
    (hcons : (s.useProven id call slot answer).Consistent) :
    (s.useProven id call slot answer).Lending := by
  have hhand (hcons : (s.handOut id call slot).Consistent) : (s.handOut id call slot).Lending :=
    hs.handOut hcall (by rw [hphase]; rfl) (by rw [hphase]; rfl) (by rw [hphase]; rfl) rfl rfl rfl
      rfl rfl (fun _ hw => hw) hcons
  revert hcons
  rw [ZerofsVolumes.useProven]
  split
  · split
    · split
      · exact hhand
      · exact fun hcons => hs.quiet hcall h rfl hcons
    · exact fun hcons => hs.quiet hcall h rfl hcons
  · exact hhand
  all_goals exact fun hcons => hs.quiet hcall h rfl hcons

/-- A format names no volume anew that was told by its filesystem: it held none. -/
theorem isNamed_format (hs : s.Consistent) (hcall : s.calls[id]? = some call)
    (hphase : call.phase = .formatting slot) (superblock : Superblock) {w : VolumeId}
    (h : s.IsNamed w) : (s.format slot call.volumeId superblock).IsNamed w := by
  have hholds := hs.holds id call hcall
  have hserves := hholds.served slot (by rw [hphase]; rfl)
    (Phase.uses_of_slot? (by rw [hphase]; rfl))
  obtain ⟨-, -, -, -, hi, -⟩ := s.format_spec hserves superblock
  obtain ⟨image, himage, hsome⟩ := h
  by_cases heq : call.volumeId = w
  · have hbare := hholds.bare (by rw [hphase]; rfl) image (heq ▸ himage)
    rw [Superblock.filesystemUuid, hbare] at hsome
    exact Bool.noConfusion hsome
  · refine ⟨image, ?_, hsome⟩
    rw [hi, ExtTreeMap.getElem?_modify_ite, if_neg heq, himage]

theorem format_frame (superblock : Superblock) (volumeId : VolumeId) :
    (s.format slot volumeId superblock).lent = s.lent ∧
      (s.format slot volumeId superblock).takenDown = s.takenDown := by
  rw [format]
  split <;> exact ⟨rfl, rfl⟩

theorem Lending.format (hs : s.Lending) (hcall : s.calls[id]? = some call)
    (hphase : call.phase = .formatting slot) (superblock : Superblock) (well : Bool) :
    let s' := s.format slot call.volumeId superblock
    (if well then s'.handOut id call slot else s'.goTo id call .done).Consistent →
      (if well then s'.handOut id call slot else s'.goTo id call .done).Lending := by
  have hslot : call.phase.slot? = some slot := by rw [hphase]; rfl
  have hserves := (hs.consistent.holds id call hcall).served slot (by rw [hphase]; rfl)
    (Phase.uses_of_slot? hslot)
  obtain ⟨hd, ha, hc, -, -, -⟩ := s.format_spec hserves superblock
  obtain ⟨hl, ht⟩ := @format_frame s slot superblock call.volumeId
  have hn (w : VolumeId) (hw : s.IsNamed w) : (s.format slot call.volumeId superblock).IsNamed w :=
    isNamed_format hs.consistent hcall hphase superblock hw
  intro s'
  split
  · exact hs.handOut hcall hslot (by rw [hphase]; rfl) (by rw [hphase]; rfl) hd ha hl hc ht hn
  · exact fun hcons => hs.keep hcall hcons hd ha hl hn (congrArg (List.set · id _) hc) ht (.inl rfl)

/-- **A step of a call** of a pass. -/
theorem Lending.stepCall (hs : s.Lending) (hcall : s.calls[id]? = some call) (h : s.Lends call)
    (hspares : ∀ slot ∈ s.turns call, ∀ volumeId ∈ s.lent[slot]?,
      volumeId = call.volumeId ∨ s.isUsable slot = false) (answer : Answer)
    (hcons : (s.stepCall id call answer).Consistent) : (s.stepCall id call answer).Lending := by
  revert hcons
  rw [ZerofsVolumes.stepCall]
  split
  case h_1 => exact hs.enter hcall h answer
  case h_2 => exact hs.lookUp hcall h
  case h_3 => exact hs.probe hcall h
  case h_4 => exact hs.recall hcall h
  case h_5 slot hphase =>
    refine hs.compare hcall h hphase fun volumeId hlent hcarries => hspares slot ?_ volumeId hlent
    cases hr : call.request <;> first
      | exact absurd h.request (by rw [hr]; decide)
      | simp [turns, hphase, hr, hcarries]
  case h_6 hphase =>
    exact hs.remember hcall h (by rw [hphase]; rfl) (by rw [hphase]; rfl) (.inl hphase)
  case h_7 hphase =>
    exact hs.remember hcall h (by rw [hphase]; rfl) (by rw [hphase]; rfl) (.inr hphase)
  case h_8 slot again hphase =>
    exact hs.forget hcall h (reworks_of_phase hphase rfl rfl) rfl rfl (by rintro ⟨⟩)
  case h_9 slot again hphase =>
    have hreworks : call.phase.reworks slot := reworks_of_phase hphase rfl rfl
    have hunlent := h.unlent slot hreworks
    split
    · exact fun hcons => hs.keep hcall hcons rfl rfl rfl (fun _ hw => hw) rfl rfl
        (.inr (lends_of_unlent h rfl rfl (hunlent.imp_right fun hu => ⟨hu.1, by rintro ⟨⟩⟩)))
    · exact fun hcons => hs.keep hcall hcons rfl rfl rfl (fun _ hw => hw) rfl rfl
        (.inr (lends_of_unlent h rfl rfl (hunlent.imp_right fun hu => ⟨hu.1, by rintro ⟨⟩⟩)))
  case h_10 slot again hphase =>
    exact hs.forget hcall h (reworks_of_phase hphase rfl rfl) rfl rfl (by rintro ⟨⟩)
  case h_11 slot again hphase =>
    have hto : disconnected call.request slot again = .waiting slot again := by
      cases hr : call.request <;> first | rfl | exact absurd h.request (by rw [hr]; decide)
    rw [hto]
    exact hs.takeAway hcall h (reworks_of_phase hphase rfl rfl) (by rw [hphase]; rfl)
      (.inr ⟨rfl, rfl⟩) answer.letsGo
  case h_12 slot again hphase =>
    exact hs.wait hcall h (reworks_of_phase hphase rfl rfl) (by rw [hphase]; rfl) again
      answer.letsGo
  case h_13 slot again hphase =>
    have hreworks : call.phase.reworks slot := reworks_of_phase hphase rfl rfl
    split
    · exact hs.connect hcall h hreworks (by rw [hphase]; rfl)
    · refine hs.takeAway hcall h hreworks (by rw [hphase]; rfl) ?_ answer.letsGo
      cases again
      · exact .inr ⟨rfl, rfl⟩
      · exact .inl rfl
  case h_14 hphase => exact hs.useProven hcall h hphase answer
  case h_15 =>
    cases answer.exitsWell
    · exact hs.quiet hcall h rfl
    · exact hs.quiet hcall h rfl
  case h_16 hphase => exact hs.format hcall hphase answer.superblock _
  case h_17 hphase => exact absurd hphase h.notDeleting
  case h_18 => exact fun _ => hs

theorem Lending.begin (hs : s.Lending) {request : Request} {volumeId : VolumeId} {appId : AppId}
    (hrequest : request = .attach ∨ request.isProvision = true)
    (hcons : (s.step (.begin request volumeId appId)).Consistent) :
    (s.step (.begin request volumeId appId)).Lending := by
  refine ⟨hcons, fun id call h => ?_, hs.lent, hs.spared⟩
  have h : (s.calls ++ [⟨request, volumeId, appId, .entering⟩])[id]? = some call := h
  rw [List.getElem?_append] at h
  split at h
  · refine (hs.lends id call h).imp_right fun h' => ?_
    exact ⟨h'.request, h'.notDeleting, h'.compared, h'.named, h'.unlent⟩
  · rw [List.getElem?_singleton] at h
    split at h
    · obtain rfl := Option.some.inj h
      exact .inr ⟨hrequest, nofun, nofun, nofun, fun _ hr => Bool.noConfusion hr⟩
    · exact absurd h nofun

theorem Lending.step (hs : s.Lending) {m : Move} (hm : s.Apart m) : (s.step m).Lending := by
  obtain ⟨hof, hundisturbed, hspares, hdistinct⟩ := hm
  have hcons := hs.consistent.step ⟨hundisturbed, hdistinct⟩
  cases m with
  | begin request volumeId appId =>
    refine hs.begin ?_ hcons
    cases request <;> first | exact .inl rfl | exact .inr rfl | exact hof.elim
  | advance id answer =>
    revert hcons
    rw [ZerofsVolumes.step]
    split
    · rename_i call hcall
      rcases hs.lends id call hcall with hdone | h
      · rw [ZerofsVolumes.stepCall, hdone]
        exact fun _ => hs
      · exact hs.stepCall hcall h (hspares call hcall) answer
    · exact fun _ => hs
  | releaseSlot appId | allocateSlot appId | daemonRestarts allocator | storageRestarts
  | guestWrites volumeId superblock => exact hof.elim

/-- A pass begins in any state that calls keeping apart lead to. -/
theorem Consistent.passBegins (hs : s.Consistent) (hidle : s.Idle) : s.passBegins.Lending where
  consistent := .of_idle hidle hs.known (hs.safe.of_same rfl rfl)
  lends id call h := .inl (hidle call (List.mem_of_getElem? h))
  lent slot volumeId h := absurd h (by simp [ZerofsVolumes.passBegins])
  spared := nofun

/-- **The calls of a pass are safe together** where they keep apart. -/
theorem kept_apart (allocator : SlotAllocator) (images : ExtTreeMap VolumeId Image)
    (devices : ExtTreeMap ℕ Device) (before pass : List Move)
    (hbefore : Run.Meets ZerofsVolumes.step (fun s m => s.Undisturbed m ∧ s.Distinct)
      (start allocator images devices) before)
    (hidle : (Run.run ZerofsVolumes.step (start allocator images devices) before).Idle)
    (hpass : Run.Meets ZerofsVolumes.step Apart
      (Run.run ZerofsVolumes.step (start allocator images devices) before).passBegins pass) :
    let s := Run.run ZerofsVolumes.step
      (Run.run ZerofsVolumes.step (start allocator images devices) before).passBegins pass
    (∀ f ∈ s.formatted, f.served = true ∧ f.hadFilesystem = false) ∧
      ∀ t ∈ s.takenDown, ¬ (t.lent = true ∧ t.answered = true) := by
  have hs := Run.Meets.invariant (I := Lending) (fun _ _ hs hm => hs.step hm)
    ((consistent_run hbefore).passBegins hidle) hpass
  exact ⟨hs.consistent.safe.formatted, hs.spared⟩

/-! ### Two volumes -/

private def first : VolumeId := ⟨"volume-first"⟩
private def second : VolumeId := ⟨"volume-second"⟩
private def someApp : AppId := ⟨"app-one"⟩
private def otherApp : AppId := ⟨"app-two"⟩

private def goesWell (uuid : BitVec 128) : Answer where
  opens := true
  exitsWell := true
  letsGo := true
  superblock := ⟨true, uuid⟩

private def fresh : ZerofsVolumes := start (SlotAllocator.addressing 300) ∅ ∅

/-- The volumes of two apps are provisioned at once, and a wake attaches the first meanwhile. -/
theorem kept_apart_two_apps :
    let pass : List Move :=
      [.begin (.provision 4096) first someApp, .begin (.provision 4096) second otherApp] ++
      List.replicate 8 (.advance 0 (goesWell 1)) ++ List.replicate 10 (.advance 1 (goesWell 2)) ++
      .begin .attach first someApp :: List.replicate 5 (.advance 2 (goesWell 3)) ++
      List.replicate 2 (.advance 0 (goesWell 1))
    let s := Run.run ZerofsVolumes.step fresh.passBegins pass
    (s.handedOut.length = 3 ∧ s.formatted.length = 2) ∧
      (∀ f ∈ s.formatted, f.served = true ∧ f.hadFilesystem = false) ∧
        ∀ t ∈ s.takenDown, ¬ (t.lent = true ∧ t.answered = true) := by
  refine ⟨by decide +kernel, kept_apart _ _ _ [] _ trivial (by decide) ?_⟩
  decide +kernel

/-- The volumes of one app are provisioned at once: the first has a proven device and is about to
format it when the second attaches the device to its own export. -/
theorem not_kept_apart :
    ¬ ∀ (allocator : SlotAllocator) (images : ExtTreeMap VolumeId Image)
      (devices : ExtTreeMap ℕ Device) (pass : List Move),
      Run.Meets ZerofsVolumes.step (fun s m => s.OfPass m ∧ s.Distinct)
          (start allocator images devices).passBegins pass →
        let s := Run.run ZerofsVolumes.step (start allocator images devices).passBegins pass
        (∀ f ∈ s.formatted, f.served = true ∧ f.hadFilesystem = false) ∧
          ∀ t ∈ s.takenDown, ¬ (t.lent = true ∧ t.answered = true) := by
  intro h
  let pass : List Move :=
    [.begin (.provision 4096) first someApp, .begin (.provision 4096) second someApp] ++
    List.replicate 8 (.advance 0 (goesWell 1)) ++ List.replicate 12 (.advance 1 (goesWell 2)) ++
    List.replicate 2 (.advance 0 (goesWell 1))
  let s := Run.run ZerofsVolumes.step fresh.passBegins pass
  have hserved : ∀ f ∈ s.formatted, f.served = true ∧ f.hadFilesystem = false :=
    (h _ ∅ ∅ pass (by decide +kernel)).1
  have hformatted : s.formatted.map Formatted.served = [false] := by decide +kernel
  obtain ⟨run, hrun⟩ := List.map_eq_singleton_iff.mp hformatted
  exact absurd ((hserved run (hrun.1 ▸ List.mem_singleton_self run)).1) (by rw [hrun.2]; decide)

end ZerofsVolumes

end Nibrunner.Nbd
