import Nibrunner.Volumes.Devices

/-!
# What a device carries

A call relies on what it has learned of its device: that it answers, that it serves the volume, that
this is on record, that its volume holds no filesystem. Others may take the device down meanwhile.

`Consistent` is what holds while the calls keep apart (`Undisturbed`): a call gets a slot while no
other is taking its device down, and takes a device down while no other is using it. `Effect` sums
up what one step does to what is shared, `Effect.holds` says that it leaves alone what the others
rely on, and `consistent_run` is the result: **what was returned served its volume, and what was
formatted served the volume and held no filesystem**.
-/

namespace Nibrunner.Nbd

open Std

/-! ### Runs whose calls keep apart -/

namespace ZerofsVolumes

/-- No other call is in such a phase. -/
def Others (s : ZerofsVolumes) (id : CallId) (p : Phase → Bool) : Prop :=
  ∀ call ∈ s.calls.eraseIdx id, p call.phase = false

instance (s : ZerofsVolumes) (id : CallId) (p : Phase → Bool) : Decidable (s.Others id p) :=
  inferInstanceAs (Decidable (∀ call ∈ s.calls.eraseIdx id, p call.phase = false))

/-- No call is under way. -/
def Idle (s : ZerofsVolumes) : Prop := ∀ call ∈ s.calls, call.phase = .done

instance (s : ZerofsVolumes) : Decidable s.Idle :=
  inferInstanceAs (Decidable (∀ call ∈ s.calls, call.phase = .done))

/-- The slot a call is about to get, to use its device. -/
def obtains (s : ZerofsVolumes) (call : Call) : Option ℕ :=
  match call.phase, call.request with
  | .lookingUp, .provision _ => (s.allocator.allocate call.appId).map (·.1.slot)
  | .lookingUp, .attach | .lookingUp, .observe => s.allocator.slotOf call.appId
  | _, _ => none

/-- The slot whose device a call is about to take down: it finds the device unproven, or it is there
to disconnect it. -/
def turns (s : ZerofsVolumes) (call : Call) : Option ℕ :=
  match call.phase, call.request with
  | .lookingUp, .detach | .lookingUp, .teardown => s.allocator.slotOf call.appId
  | .probing _, .observe | .comparing _, .observe => none
  | .probing slot, _ => if s.isUsable slot then none else some slot
  | .comparing slot, _ => if s.carriesTheImage slot call.volumeId then none else some slot
  | _, _ => none

/-- Two formatted volumes have filesystems of different uuids. -/
def Distinct (s : ZerofsVolumes) : Prop :=
  ∀ (v w : VolumeId) (image image' : Image), s.images[v]? = some image →
    s.images[w]? = some image' → ∀ uuid, image.superblock.filesystemUuid = some uuid →
      image'.superblock.filesystemUuid = some uuid → v = w

instance (s : ZerofsVolumes) : Decidable s.Distinct :=
  decidable_of_iff (∀ p ∈ s.images.toList, ∀ q ∈ s.images.toList,
      p.2.superblock.filesystemUuid.isSome →
        p.2.superblock.filesystemUuid = q.2.superblock.filesystemUuid → p.1 = q.1) <| by
    constructor
    · intro h v w image image' hv hw uuid hu hu'
      exact h (v, image) (ExtTreeMap.mem_toList_iff_getElem?_eq_some.mpr hv) (w, image')
        (ExtTreeMap.mem_toList_iff_getElem?_eq_some.mpr hw) (by simp [hu]) (hu.trans hu'.symm)
    · intro h p hp q hq hsome heq
      obtain ⟨uuid, hu⟩ := Option.isSome_iff_exists.mp hsome
      exact h p.1 q.1 p.2 q.2 (ExtTreeMap.mem_toList_iff_getElem?_eq_some.mp hp)
        (ExtTreeMap.mem_toList_iff_getElem?_eq_some.mp hq) uuid hu (heq ▸ hu)

/-- A call gets a slot while no other is taking down its device, and takes a device down while no
other is using it. A volume is provisioned by one call at a time, and the rest happens while no call
is under way. -/
def Undisturbed (s : ZerofsVolumes) : Move → Prop
  | .begin request volumeId _ => request.isProvision = true →
    ∀ call ∈ s.calls, call.request.isProvision = true → call.volumeId = volumeId →
      call.phase = .done
  | .advance id _ => ∀ call ∈ s.calls[id]?,
    (∀ slot ∈ s.obtains call, s.Others id (Phase.reworks slot)) ∧
      ∀ slot ∈ s.turns call, s.Others id (Phase.uses slot)
  | _ => s.Idle

instance (s : ZerofsVolumes) : (m : Move) → Decidable (s.Undisturbed m)
  | .begin request volumeId _ => inferInstanceAs (Decidable (request.isProvision = true →
    ∀ call ∈ s.calls, call.request.isProvision = true → call.volumeId = volumeId →
      call.phase = .done))
  | .advance id _ => inferInstanceAs (Decidable (∀ call ∈ s.calls[id]?,
    (∀ slot ∈ s.obtains call, s.Others id (Phase.reworks slot)) ∧
      ∀ slot ∈ s.turns call, s.Others id (Phase.uses slot)))
  | .releaseSlot _ | .allocateSlot _ | .daemonRestarts _ | .storageRestarts
  | .guestWrites _ _ => inferInstanceAs (Decidable s.Idle)

end ZerofsVolumes

/-! ### What holds in every state -/

namespace Phase

/-- The device is known to carry the volume. -/
def isProven : Phase → Bool
  | remembering _ | attached _ | proven _ | staging _ | formatting _ => true
  | _ => false

/-- So it is on record. -/
def isRecorded : Phase → Bool
  | proven _ | staging _ | formatting _ => true
  | _ => false

/-- The device is off the record. -/
def isForgotten : Phase → Bool
  | looking _ _ | disconnecting _ _ | waiting _ _ | attaching _ _ | attached _ => true
  | _ => false

/-- The device was found to hold no filesystem. -/
def isBare : Phase → Bool
  | staging _ | formatting _ => true
  | _ => false

/-- A call relies on nothing. -/
def isPlain : Phase → Bool
  | entering | lookingUp | probing _ | comparing _ | takingDown _ _ | forgetting _ _ | deleting
  | done => true
  | _ => false

theorem uses_of_reworks {slot : ℕ} {phase : Phase} (h : phase.reworks slot) : phase.uses slot := by
  rw [reworks, Bool.and_eq_true] at h
  exact h.2

theorem isRework_of_reworks {slot : ℕ} {phase : Phase} (h : phase.reworks slot) :
    phase.isRework := by
  rw [reworks, Bool.and_eq_true] at h
  exact h.1

theorem isRework_of_isForgotten {phase : Phase} (h : phase.isForgotten) : phase.isRework := by
  cases phase <;> first | rfl | exact Bool.noConfusion h

end Phase

namespace ZerofsVolumes

/-- What a call relies on. -/
structure Holds (s : ZerofsVolumes) (call : Call) : Prop where
  answers (slot : ℕ) (h : call.phase = .recalling slot) :
    ∃ device, s.devices[slot]? = some device ∧ device.answers = true
  served (slot : ℕ) (h : call.phase.isProven) (hs : call.phase.uses slot) :
    s.serves slot call.volumeId = true
  recorded (slot : ℕ) (h : call.phase.isRecorded) (hs : call.phase.uses slot) :
    s.attachedTo[slot]? = some call.volumeId
  forgotten (slot : ℕ) (h : call.phase.isForgotten) (hs : call.phase.uses slot) :
    s.attachedTo[slot]? = none
  bare (h : call.phase.isBare) (image : Image) (hi : s.images[call.volumeId]? = some image) :
    image.superblock.magic = false
  provisions (h : call.phase.isBare) : call.request.isProvision = true

/-- What the histories say. -/
structure Safe (s : ZerofsVolumes) : Prop where
  handedOut : ∀ h ∈ s.handedOut, h.served = true
  formatted : ∀ f ∈ s.formatted, f.served = true ∧ f.hadFilesystem = false

/-- What holds in every state of a run whose calls keep apart. -/
structure Consistent (s : ZerofsVolumes) : Prop where
  known (slot : ℕ) (volumeId : VolumeId) (device : Device)
    (h : s.attachedTo[slot]? = some volumeId) (hd : s.devices[slot]? = some device) :
    device.exported = volumeId
  holds (id : CallId) (call : Call) (h : s.calls[id]? = some call) : s.Holds call
  alone (id id' : CallId) (call call' : Call) (slot : ℕ) (hne : id ≠ id')
    (h : s.calls[id]? = some call) (h' : s.calls[id']? = some call')
    (hr : call.phase.reworks slot) : call'.phase.uses slot = false
  oneProvision (id id' : CallId) (call call' : Call) (h : s.calls[id]? = some call)
    (h' : s.calls[id']? = some call') (hp : call.request.isProvision)
    (hp' : call'.request.isProvision) (hv : call.volumeId = call'.volumeId)
    (hd : call.phase ≠ .done) (hd' : call'.phase ≠ .done) : id = id'
  safe : s.Safe

variable {s s' : ZerofsVolumes} {id : CallId} {call : Call} {phase : Phase} {slot : ℕ}

/-- What a step of a call does to what it shares with others: it changes a device, and the record
of it, only while it reworks it, and otherwise notes what the device serves. -/
structure Effect (s s' : ZerofsVolumes) (call : Call) : Prop where
  device (slot : ℕ) : s'.devices[slot]? = s.devices[slot]? ∨
    call.phase.reworks slot ∧ s'.attachedTo[slot]? = none
  attachedTo (slot : ℕ) : s'.attachedTo[slot]? = s.attachedTo[slot]? ∨
    (call.phase.reworks slot ∧ s'.attachedTo[slot]? = none) ∨
    (s'.attachedTo[slot]? = some call.volumeId ∧ s.serves slot call.volumeId = true ∧
      call.phase.uses slot ∧ s'.devices[slot]? = s.devices[slot]?)
  image (volumeId : VolumeId) (image' : Image) (h : s'.images[volumeId]? = some image')
    (hm : image'.superblock.magic = true) :
    (volumeId = call.volumeId ∧ call.request.isProvision ∧ call.phase ≠ .done) ∨
      ∃ image, s.images[volumeId]? = some image ∧ image.superblock.magic = true

/-- A step that changes nothing others see. -/
theorem Effect.of_same (hd : s'.devices = s.devices) (ha : s'.attachedTo = s.attachedTo)
    (hi : s'.images = s.images) : Effect s s' call where
  device slot := .inl (by rw [hd])
  attachedTo slot := .inl (by rw [ha])
  image volumeId image' h hm := .inr ⟨image', hi ▸ h, hm⟩

theorem serves_of_devices {volumeId : VolumeId} (h : s'.devices[slot]? = s.devices[slot]?) :
    s'.serves slot volumeId = s.serves slot volumeId := by
  rw [serves, serves, h]

theorem exists_of_serves {volumeId : VolumeId} (h : s.serves slot volumeId) :
    ∃ device, s.devices[slot]? = some device ∧ device.exported = volumeId ∧
      device.answers = true := by
  rw [serves, Option.any_eq_true] at h
  obtain ⟨device, hd, hboth⟩ := h
  rw [Bool.and_eq_true, decide_eq_true_eq] at hboth
  exact ⟨device, hd, hboth⟩

theorem serves_unique {v w : VolumeId} (hv : s.serves slot v) (hw : s.serves slot w) : v = w := by
  obtain ⟨device, hd, hev, -⟩ := exists_of_serves hv
  obtain ⟨device', hd', hew, -⟩ := exists_of_serves hw
  obtain rfl := Option.some.inj (hd.symm.trans hd')
  exact hev.symm.trans hew

/-- The record stays right. -/
theorem Effect.known (e : Effect s s' call) (hs : s.Consistent) (slot : ℕ) (volumeId : VolumeId)
    (device : Device) (h : s'.attachedTo[slot]? = some volumeId)
    (hd : s'.devices[slot]? = some device) : device.exported = volumeId := by
  rcases e.attachedTo slot with ha | ⟨-, hnone⟩ | ⟨hsome, hserves, -, hsame⟩
  · rcases e.device slot with hsame | ⟨-, hnone⟩
    · exact hs.known slot volumeId device (ha ▸ h) (hsame ▸ hd)
    · exact absurd (hnone.symm.trans h) (by simp)
  · exact absurd (hnone.symm.trans h) (by simp)
  · obtain rfl := Option.some.inj (hsome.symm.trans h)
    obtain ⟨device', hd', hexported, -⟩ := exists_of_serves hserves
    obtain rfl := Option.some.inj ((hsame.symm.trans hd).symm.trans hd')
    exact hexported

/-- What another call relies on stays. -/
theorem Effect.holds (e : Effect s s' call) (hs : s.Consistent) (hcall : s.calls[id]? = some call)
    {id' : CallId} {call' : Call} (hne : id ≠ id') (hcall' : s.calls[id']? = some call') :
    s'.Holds call' := by
  have h' := hs.holds id' call' hcall'
  have hfree (slot : ℕ) (hu : call'.phase.uses slot) : ¬ call.phase.reworks slot := fun hr =>
    absurd hu (by rw [hs.alone id id' call call' slot hne hcall hcall' hr]; decide)
  have hdevice (slot : ℕ) (hu : call'.phase.uses slot) :
      s'.devices[slot]? = s.devices[slot]? :=
    (e.device slot).resolve_right fun h => hfree slot hu h.1
  have hattached (slot : ℕ) (hu : call'.phase.uses slot) :
      s'.attachedTo[slot]? = s.attachedTo[slot]? ∨
        s'.attachedTo[slot]? = some call.volumeId ∧ s.serves slot call.volumeId = true ∧
          call.phase.uses slot :=
    (e.attachedTo slot).imp_right fun h =>
      (h.resolve_left fun h => hfree slot hu h.1).imp_right fun h => ⟨h.1, h.2.1⟩
  exact {
    answers := fun slot hp => by
      rw [hdevice slot (by rw [Phase.uses, hp]; simp [Phase.slot?])]
      exact h'.answers slot hp
    served := fun slot hp hu => by
      rw [serves_of_devices (hdevice slot hu)]
      exact h'.served slot hp hu
    recorded := fun slot hp hu => by
      rcases hattached slot hu with hsame | ⟨hsome, hserves, -⟩
      · exact hsame.trans (h'.recorded slot hp hu)
      · have hproven : call'.phase.isProven := by
          cases hph : call'.phase <;> simp_all [Phase.isRecorded, Phase.isProven]
        rw [hsome, serves_unique hserves (h'.served slot hproven hu)]
    forgotten := fun slot hp hu => by
      rcases hattached slot hu with hsame | ⟨-, -, huses⟩
      · exact hsame.trans (h'.forgotten slot hp hu)
      · have hr : call'.phase.reworks slot := by
          rw [Phase.reworks, Phase.isRework_of_isForgotten hp, hu]
          rfl
        exact absurd huses (by
          rw [hs.alone id' id call' call slot hne.symm hcall' hcall hr]; decide)
    bare := fun hp image hi => by
      have hprov := h'.provisions hp
      by_contra hm
      rcases e.image call'.volumeId image hi (by simpa using hm) with
        ⟨hv, hpc, hdone⟩ | ⟨old, ho, hmo⟩
      · have hdone' : call'.phase ≠ .done := fun h => by rw [h] at hp; exact absurd hp (by decide)
        exact hne (hs.oneProvision id id' call call' hcall hcall' hpc hprov hv.symm hdone hdone')
      · exact absurd (hmo.symm.trans (h'.bare hp old ho)) (by decide)
    provisions := h'.provisions }

/-! ### A call goes on -/

theorem mem_others {id' : CallId} {call' : Call} (hne : id' ≠ id)
    (h : s.calls[id']? = some call') : call' ∈ s.calls.eraseIdx id :=
  List.mem_eraseIdx_iff_getElem?.mpr ⟨id', hne, h⟩

/-- A call goes on: what it relies on next, and that it keeps apart from the others. -/
theorem Consistent.goesOn (hs : s.Consistent) (hcall : s.calls[id]? = some call)
    (hdone : call.phase ≠ .done) (e : Effect s s' call)
    (hcalls : s'.calls = s.calls.set id { call with phase := phase })
    (hown : s'.Holds { call with phase := phase })
    (hreworks : ∀ slot, phase.reworks slot →
      call.phase.reworks slot ∨ s.Others id (Phase.uses slot))
    (huses : ∀ slot, phase.uses slot →
      call.phase.uses slot ∨ s.Others id (Phase.reworks slot))
    (hsafe : s'.Safe) : s'.Consistent := by
  have hlt : id < s.calls.length := (List.getElem?_eq_some_iff.mp hcall).1
  have hself : s'.calls[id]? = some { call with phase := phase } := by
    rw [hcalls, List.getElem?_set_self hlt]
  have hother {id' : CallId} (hne : id ≠ id') : s'.calls[id']? = s.calls[id']? := by
    rw [hcalls, List.getElem?_set_ne hne]
  refine ⟨e.known hs, fun id' call' h => ?_, fun id₁ id₂ call₁ call₂ slot hne h₁ h₂ hr => ?_,
    fun id₁ id₂ call₁ call₂ h₁ h₂ hp₁ hp₂ hv hd₁ hd₂ => ?_, hsafe⟩
  · by_cases heq : id = id'
    · subst heq
      obtain rfl := Option.some.inj (hself.symm.trans h)
      exact hown
    · exact e.holds hs hcall heq ((hother heq).symm.trans h)
  · by_cases heq₁ : id = id₁
    · subst heq₁
      obtain rfl := Option.some.inj (hself.symm.trans h₁)
      rw [hother hne] at h₂
      rcases hreworks slot hr with hr | hothers
      · exact hs.alone id id₂ call call₂ slot hne hcall h₂ hr
      · exact hothers call₂ (mem_others hne.symm h₂)
    · rw [hother heq₁] at h₁
      by_cases heq₂ : id = id₂
      · subst heq₂
        obtain rfl := Option.some.inj (hself.symm.trans h₂)
        by_contra hu
        rw [Bool.not_eq_false] at hu
        rcases huses slot hu with hu | hothers
        · rw [hs.alone id₁ id call₁ call slot hne h₁ hcall hr] at hu
          exact Bool.noConfusion hu
        · rw [hothers call₁ (mem_others hne h₁)] at hr
          exact Bool.noConfusion hr
      · rw [hother heq₂] at h₂
        exact hs.alone id₁ id₂ call₁ call₂ slot hne h₁ h₂ hr
  · -- The calls are for the volumes they were for.
    have hback {id' : CallId} {call' : Call} (h : s'.calls[id']? = some call')
        (hd : call'.phase ≠ .done) : ∃ old, s.calls[id']? = some old ∧
          old.request = call'.request ∧ old.volumeId = call'.volumeId ∧ old.phase ≠ .done := by
      by_cases heq : id = id'
      · subst heq
        obtain rfl := Option.some.inj (hself.symm.trans h)
        exact ⟨call, hcall, rfl, rfl, hdone⟩
      · exact ⟨call', (hother heq).symm.trans h, rfl, rfl, hd⟩
    obtain ⟨old₁, ho₁, hr₁, hw₁, hn₁⟩ := hback h₁ hd₁
    obtain ⟨old₂, ho₂, hr₂, hw₂, hn₂⟩ := hback h₂ hd₂
    exact hs.oneProvision id₁ id₂ old₁ old₂ ho₁ ho₂ (hr₁ ▸ hp₁) (hr₂ ▸ hp₂)
      (hw₁.trans (hv.trans hw₂.symm)) hn₁ hn₂

theorem holds_of_isPlain (h : phase.isPlain) : s.Holds { call with phase := phase } := by
  constructor <;> cases phase <;> first | exact Bool.noConfusion h | nofun

/-! ### The steps of a call -/

theorem Safe.of_same (hs : s.Safe) (hh : s'.handedOut = s.handedOut)
    (hf : s'.formatted = s.formatted) : s'.Safe :=
  ⟨by rw [hh]; exact hs.handedOut, by rw [hf]; exact hs.formatted⟩

/-- A call goes on and others see no change. -/
theorem Consistent.goTo (hs : s.Consistent) (hcall : s.calls[id]? = some call)
    (hdone : call.phase ≠ .done) (hown : s.Holds { call with phase := phase })
    (hreworks : ∀ slot, phase.reworks slot →
      call.phase.reworks slot ∨ s.Others id (Phase.uses slot))
    (huses : ∀ slot, phase.uses slot →
      call.phase.uses slot ∨ s.Others id (Phase.reworks slot)) :
    (s.goTo id call phase).Consistent :=
  hs.goesOn hcall hdone (.of_same rfl rfl rfl) rfl
    ⟨hown.answers, hown.served, hown.recorded, hown.forgotten, hown.bare, hown.provisions⟩
    hreworks huses (hs.safe.of_same rfl rfl)

/-- A call that ends, or goes on without a device. -/
theorem Consistent.leave (hs : s.Consistent) (hcall : s.calls[id]? = some call)
    (hdone : call.phase ≠ .done) (hplain : phase.isPlain) (hslot : phase.slot? = none) :
    (s.goTo id call phase).Consistent := by
  have hnot (slot : ℕ) : phase.uses slot = false := by rw [Phase.uses, hslot]; rfl
  refine hs.goTo hcall hdone (holds_of_isPlain hplain) (fun slot h => ?_) fun slot h => ?_
  · exact absurd (Phase.uses_of_reworks h) (by rw [hnot]; decide)
  · exact absurd h (by rw [hnot]; decide)

theorem Phase.eq_of_uses {p : Phase} {slot slot' : ℕ} (hp : p.slot? = some slot)
    (h : p.uses slot') : slot' = slot := by
  rw [Phase.uses, hp, decide_eq_true_eq] at h
  exact (Option.some.inj h).symm

theorem Phase.uses_of_slot? {p : Phase} (hp : p.slot? = some slot) : p.uses slot := by
  rw [Phase.uses, hp, decide_eq_true_eq]

/-- A call that goes on with the device it uses, without taking it down. -/
theorem Consistent.proceed (hs : s.Consistent) (hcall : s.calls[id]? = some call)
    (hdone : call.phase ≠ .done) (hown : s.Holds { call with phase := phase })
    (hbefore : call.phase.slot? = some slot) (hafter : phase.slot? = some slot)
    (hkeep : phase.isRework → call.phase.isRework) : (s.goTo id call phase).Consistent := by
  have huses (slot' : ℕ) (h : phase.uses slot') : call.phase.uses slot' := by
    rw [Phase.eq_of_uses hafter h]
    exact Phase.uses_of_slot? hbefore
  refine hs.goTo hcall hdone hown (fun slot' h => .inl ?_) fun slot' h => .inl (huses slot' h)
  rw [Phase.reworks, hkeep (Phase.isRework_of_reworks h), huses slot' (Phase.uses_of_reworks h)]
  rfl

/-- A call that finds its device unproven. -/
theorem Consistent.turn (hs : s.Consistent) (hcall : s.calls[id]? = some call)
    (hdone : call.phase ≠ .done) (hbefore : call.phase.slot? = some slot)
    (hturn : call.request ≠ .observe → s.Others id (Phase.uses slot)) :
    (s.goTo id call (unproven call.request slot)).Consistent := by
  by_cases hobserve : call.request = .observe
  · rw [hobserve, unproven]
    exact hs.leave hcall hdone rfl rfl
  · have hto : unproven call.request slot = .takingDown slot false := by
      cases hr : call.request <;> first | rfl | exact absurd hr hobserve
    rw [hto]
    refine hs.goTo hcall hdone (holds_of_isPlain rfl) (fun slot' h => .inr ?_)
      fun slot' h => .inl ?_
    · rw [Phase.eq_of_uses rfl (Phase.uses_of_reworks h)]
      exact hturn hobserve
    · rw [Phase.eq_of_uses rfl h]
      exact Phase.uses_of_slot? hbefore

/-- The image of the volume keeps its superblock, and no other is touched. -/
theorem ensureDeviceFile_spec (s : ZerofsVolumes) (volumeId : VolumeId) (sizeBytes : ℕ)
    (answer : Answer) :
    let s' := (s.ensureDeviceFile volumeId sizeBytes answer).1
    s'.devices = s.devices ∧ s'.attachedTo = s.attachedTo ∧ s'.calls = s.calls ∧
      s'.handedOut = s.handedOut ∧ s'.formatted = s.formatted ∧
      ∀ (w : VolumeId) image', s'.images[w]? = some image' → image'.superblock.magic = true →
        ∃ image, s.images[w]? = some image ∧ image.superblock.magic = true := by
  have hkept (image : Image) (hi : image.superblock = (s.images[volumeId]?.getD .empty).superblock)
      (w : VolumeId) (image' : Image) (h : (s.images.insert volumeId image)[w]? = some image')
      (hm : image'.superblock.magic = true) :
      ∃ image, s.images[w]? = some image ∧ image.superblock.magic = true := by
    rw [ExtTreeMap.getElem?_insert_ite] at h
    split at h
    · rename_i heq
      subst heq
      obtain rfl := Option.some.inj h
      cases hold : s.images[volumeId]? with
      | none =>
        rw [hi, hold] at hm
        exact Bool.noConfusion hm
      | some old =>
        rw [hi, hold] at hm
        exact ⟨old, rfl, hm⟩
    · exact ⟨image', h, hm⟩
  rw [ensureDeviceFile]
  split_ifs
  · exact ⟨rfl, rfl, rfl, rfl, rfl, fun w image' h hm => ⟨image', h, hm⟩⟩
  · exact ⟨rfl, rfl, rfl, rfl, rfl, fun w image' h hm => ⟨image', h, hm⟩⟩
  · exact ⟨rfl, rfl, rfl, rfl, rfl, fun w image' h hm => ⟨image', h, hm⟩⟩
  · exact ⟨rfl, rfl, rfl, rfl, rfl, hkept _ rfl⟩
  · exact ⟨rfl, rfl, rfl, rfl, rfl, hkept _ rfl⟩

theorem Consistent.enter (hs : s.Consistent) (hcall : s.calls[id]? = some call)
    (hphase : call.phase = .entering) (answer : Answer) : (s.enter id call answer).Consistent := by
  have hdone : call.phase ≠ .done := by rw [hphase]; exact nofun
  rw [ZerofsVolumes.enter]
  split
  · rename_i sizeBytes hr
    obtain ⟨hd, ha, hc, hh, hf, hi⟩ := s.ensureDeviceFile_spec call.volumeId sizeBytes answer
    have hnot (made : Bool) (slot : ℕ) :
        (if made then Phase.lookingUp else .done).uses slot = false := by cases made <;> rfl
    have hplain (made : Bool) : (if made then Phase.lookingUp else .done).isPlain := by
      cases made <;> rfl
    refine hs.goesOn hcall hdone ⟨fun slot => .inl ?_, fun slot => .inl ?_, fun w image' h hm =>
      .inr (hi w image' h hm)⟩ (congrArg (List.set · id _) hc) (holds_of_isPlain (hplain _))
      (fun slot h => absurd (Phase.uses_of_reworks h) ?_) (fun slot h => absurd h ?_)
      (hs.safe.of_same hh hf)
    · exact congrArg (·[slot]?) hd
    · exact congrArg (·[slot]?) ha
    · rw [hnot]; decide
    · rw [hnot]; decide
  · split <;> exact hs.leave hcall hdone rfl rfl
  · split <;> exact hs.leave hcall hdone rfl rfl
  · exact hs.leave hcall hdone rfl rfl
  · exact hs.leave hcall hdone rfl rfl

theorem Consistent.lookUp (hs : s.Consistent) (hcall : s.calls[id]? = some call)
    (hphase : call.phase = .lookingUp)
    (hobtain : ∀ slot, s.obtains call = some slot → s.Others id (Phase.reworks slot))
    (hturn : ∀ slot, s.turns call = some slot → s.Others id (Phase.uses slot)) :
    (s.lookUp id call).Consistent := by
  have hdone : call.phase ≠ .done := by rw [hphase]; exact nofun
  -- A call that gets a slot to probe its device.
  have hprobe (slot : ℕ) (h : s.obtains call = some slot) (slot' : ℕ)
      (h' : (Phase.probing slot).uses slot') : s.Others id (Phase.reworks slot') := by
    rw [Phase.eq_of_uses rfl h']
    exact hobtain slot h
  have hnone (slot slot' : ℕ) (h' : (Phase.probing slot).reworks slot') : False :=
    Bool.noConfusion (Phase.isRework_of_reworks h')
  -- One that gets it to take the device down.
  have hforget (slot : ℕ) (h : s.turns call = some slot) :
      (s.goTo id call (.forgetting slot false)).Consistent := by
    refine hs.goTo hcall hdone (holds_of_isPlain rfl) (fun slot' h' => .inr ?_)
      fun slot' h' => .inr fun other ho => ?_
    · rw [Phase.eq_of_uses rfl (Phase.uses_of_reworks h')]
      exact hturn slot h
    · rw [Phase.eq_of_uses rfl h', Phase.reworks, hturn slot h other ho, Bool.and_false]
  rw [ZerofsVolumes.lookUp]
  cases hr : call.request with
  | provision sizeBytes =>
    dsimp only
    split
    · rename_i slot allocator halloc
      have hslot : s.obtains call = some slot.slot := by simp [obtains, hphase, hr, halloc]
      exact hs.goesOn hcall hdone (.of_same rfl rfl rfl) rfl (holds_of_isPlain rfl)
        (fun slot' h => (hnone _ _ h).elim) (fun slot' h => .inr (hprobe _ hslot slot' h))
        (hs.safe.of_same rfl rfl)
    · exact hs.leave hcall hdone rfl rfl
  | attach | observe =>
    dsimp only
    split
    · rename_i slot hslot
      have hslot : s.obtains call = some slot := by simp [obtains, hphase, hr, hslot]
      exact hs.goTo hcall hdone (holds_of_isPlain rfl) (fun slot' h => (hnone _ _ h).elim)
        fun slot' h => .inr (hprobe _ hslot slot' h)
    · exact hs.leave hcall hdone rfl rfl
  | detach | teardown =>
    dsimp only
    split
    · rename_i slot hslot
      exact hforget slot (by simp [turns, hphase, hr, hslot])
    · exact hs.leave hcall hdone rfl rfl

theorem Consistent.probe (hs : s.Consistent) (hcall : s.calls[id]? = some call)
    (hphase : call.phase = .probing slot)
    (hturn : ∀ slot, s.turns call = some slot → s.Others id (Phase.uses slot)) :
    (s.goTo id call (if s.isUsable slot then .recalling slot
      else unproven call.request slot)).Consistent := by
  have hdone : call.phase ≠ .done := by rw [hphase]; exact nofun
  have hslot : call.phase.slot? = some slot := by rw [hphase]; rfl
  split
  · rename_i husable
    refine hs.proceed hcall hdone ?_ hslot rfl nofun
    rw [isUsable, Option.any_eq_true] at husable
    obtain ⟨device, hd, hboth⟩ := husable
    rw [Bool.and_eq_true] at hboth
    constructor
    · intro slot' h
      obtain rfl := Phase.recalling.inj h
      exact ⟨device, hd, hboth.2⟩
    all_goals exact nofun
  · rename_i husable
    refine hs.turn hcall hdone hslot fun hne => hturn slot ?_
    cases hr : call.request <;> first
      | exact absurd hr hne
      | simp [turns, hphase, hr, husable]

/-- A phase after the device was proven, before the format. -/
theorem holds_proven (hserves : s.serves slot call.volumeId = true)
    (hrecorded : s.attachedTo[slot]? = some call.volumeId) :
    s.Holds { call with phase := .proven slot } := by
  constructor
  · exact nofun
  · intro slot' _ h
    rw [Phase.eq_of_uses rfl h]
    exact hserves
  · intro slot' _ h
    rw [Phase.eq_of_uses rfl h]
    exact hrecorded
  all_goals exact nofun

theorem Consistent.recall (hs : s.Consistent) (hcall : s.calls[id]? = some call)
    (hphase : call.phase = .recalling slot) :
    (s.goTo id call (if s.attachedTo[slot]? = some call.volumeId then .proven slot
      else .comparing slot)).Consistent := by
  have hdone : call.phase ≠ .done := by rw [hphase]; exact nofun
  have hslot : call.phase.slot? = some slot := by rw [hphase]; rfl
  split
  · rename_i hknown
    obtain ⟨device, hd, hanswers⟩ := (hs.holds id call hcall).answers slot hphase
    refine hs.proceed hcall hdone (holds_proven ?_ hknown) hslot rfl nofun
    simp [serves, hd, hs.known slot call.volumeId device hknown hd, hanswers]
  · exact hs.proceed hcall hdone (holds_of_isPlain rfl) hslot rfl nofun

/-- A device that shows the filesystem of a volume's image serves it. -/
theorem serves_of_carriesTheImage (hdistinct : s.Distinct) {volumeId : VolumeId}
    (h : s.carriesTheImage slot volumeId) : s.serves slot volumeId = true := by
  rw [carriesTheImage] at h
  split at h
  · rename_i carried hcarried
    rw [decide_eq_true_eq, superblockOf, Option.bind_eq_some_iff] at h
    obtain ⟨superblock, hshown, huuid⟩ := h
    obtain ⟨image, hi, hu⟩ := Option.bind_eq_some_iff.mp hcarried
    obtain ⟨device, hd, hs'⟩ := Option.bind_eq_some_iff.mp hshown
    obtain ⟨image', hi', rfl⟩ := Option.map_eq_some_iff.mp hs'
    obtain ⟨hd, hanswers⟩ := Option.filter_eq_some_iff.mp hd
    rw [serves, hd, Option.any_some, hanswers, Bool.and_true, decide_eq_true_eq]
    exact hdistinct _ _ image' image hi' hi carried huuid hu
  · exact Bool.noConfusion h

theorem Consistent.compare (hs : s.Consistent) (hcall : s.calls[id]? = some call)
    (hphase : call.phase = .comparing slot) (hdistinct : s.Distinct)
    (hturn : ∀ slot, s.turns call = some slot → s.Others id (Phase.uses slot)) :
    (s.goTo id call (if s.carriesTheImage slot call.volumeId then .remembering slot
      else unproven call.request slot)).Consistent := by
  have hdone : call.phase ≠ .done := by rw [hphase]; exact nofun
  have hslot : call.phase.slot? = some slot := by rw [hphase]; rfl
  split
  · rename_i hcarries
    refine hs.proceed hcall hdone ?_ hslot rfl nofun
    constructor
    · exact nofun
    · intro slot' _ h
      rw [Phase.eq_of_uses rfl h]
      exact serves_of_carriesTheImage hdistinct hcarries
    all_goals exact nofun
  · rename_i hcarries
    refine hs.turn hcall hdone hslot fun hne => hturn slot ?_
    cases hr : call.request <;> first
      | exact absurd hr hne
      | simp [turns, hphase, hr, hcarries]

/-- The device is noted to carry the volume. -/
theorem Consistent.remember (hs : s.Consistent) (hcall : s.calls[id]? = some call)
    (hslot : call.phase.slot? = some slot) (hproven : call.phase.isProven) :
    ((s.remember slot call.volumeId).goTo id call (.proven slot)).Consistent := by
  have hdone : call.phase ≠ .done := fun h => by rw [h] at hslot; exact absurd hslot nofun
  have huses := Phase.uses_of_slot? hslot
  have hserves := (hs.holds id call hcall).served slot hproven huses
  have hsame : (s.remember slot call.volumeId).serves slot call.volumeId = true := hserves
  have hnoted : (s.remember slot call.volumeId).attachedTo[slot]? = some call.volumeId := by
    simp [ZerofsVolumes.remember]
  have hown : (s.remember slot call.volumeId).Holds { call with phase := .proven slot } :=
    holds_proven hsame hnoted
  refine hs.goesOn hcall hdone ⟨fun _ => .inl rfl, fun slot' => ?_, fun w image' h hm =>
    .inr ⟨image', h, hm⟩⟩ rfl
    ⟨hown.answers, hown.served, hown.recorded, hown.forgotten, hown.bare, hown.provisions⟩
    (fun slot' h => Bool.noConfusion (Phase.isRework_of_reworks h))
    (fun slot' h => .inl ((Phase.eq_of_uses rfl h) ▸ huses)) (hs.safe.of_same rfl rfl)
  by_cases heq : slot = slot'
  · subst heq
    exact .inr (.inr ⟨hnoted, hserves, huses, rfl⟩)
  · exact .inl ((ExtTreeMap.getElem?_insert_ite s.attachedTo slot slot' call.volumeId).trans
      (if_neg heq))

/-- What a step does that reworks a device: the device changes, and is off the record. -/
theorem Effect.of_rework (hreworks : call.phase.reworks slot)
    (hd : ∀ slot', slot' ≠ slot → s'.devices[slot']? = s.devices[slot']?)
    (ha : ∀ slot', slot' ≠ slot → s'.attachedTo[slot']? = s.attachedTo[slot']?)
    (hnone : s'.attachedTo[slot]? = none) (hi : s'.images = s.images) : Effect s s' call where
  device slot' := by
    by_cases h : slot' = slot
    · subst h
      exact .inr ⟨hreworks, hnone⟩
    · exact .inl (hd slot' h)
  attachedTo slot' := by
    by_cases h : slot' = slot
    · subst h
      exact .inr (.inl ⟨hreworks, hnone⟩)
    · exact .inl (ha slot' h)
  image volumeId image' h hm := .inr ⟨image', hi ▸ h, hm⟩

/-- A call that reworks a device goes on, with the device or without it. -/
theorem Consistent.rework (hs : s.Consistent) (hcall : s.calls[id]? = some call)
    (hreworks : call.phase.reworks slot) (hslot : phase.slot? = some slot ∨ phase.slot? = none)
    (hd : ∀ slot', slot' ≠ slot → s'.devices[slot']? = s.devices[slot']?)
    (ha : ∀ slot', slot' ≠ slot → s'.attachedTo[slot']? = s.attachedTo[slot']?)
    (hnone : s'.attachedTo[slot]? = none) (hi : s'.images = s.images)
    (hcalls : s'.calls = s.calls.set id { call with phase := phase })
    (hh : s'.handedOut = s.handedOut) (hf : s'.formatted = s.formatted)
    (hown : phase.isPlain ∨ phase.isForgotten ∧ ¬ phase.isProven ∨ phase = .attached slot ∧
      s'.serves slot call.volumeId = true) : s'.Consistent := by
  have hdone : call.phase ≠ .done := fun h => by
    rw [h] at hreworks
    exact Bool.noConfusion hreworks
  have hto (slot' : ℕ) (h : phase.uses slot') : slot' = slot := by
    rcases hslot with hslot | hslot
    · exact Phase.eq_of_uses hslot h
    · rw [Phase.uses, hslot] at h
      exact Bool.noConfusion h
  refine hs.goesOn hcall hdone (.of_rework hreworks hd ha hnone hi) hcalls ?_
    (fun slot' h => .inl (hto slot' (Phase.uses_of_reworks h) ▸ hreworks))
    (fun slot' h => .inl (hto slot' h ▸ Phase.uses_of_reworks hreworks)) (hs.safe.of_same hh hf)
  rcases hown with hplain | ⟨hforgotten, hproven⟩ | ⟨rfl, hserves⟩
  · exact holds_of_isPlain hplain
  · constructor
    · rintro slot' h
      rw [show phase = .recalling slot' from h] at hforgotten
      exact Bool.noConfusion hforgotten
    · exact fun slot' h => absurd h hproven
    · exact fun slot' h => absurd (show phase.isProven by
        cases phase <;> first | rfl | exact Bool.noConfusion h) hproven
    · intro slot' _ h
      rw [hto slot' h]
      exact hnone
    · exact fun h => absurd (show phase.isProven by
        cases phase <;> first | rfl | exact Bool.noConfusion h) hproven
    · exact fun h => absurd (show phase.isProven by
        cases phase <;> first | rfl | exact Bool.noConfusion h) hproven
  · constructor
    · exact nofun
    · intro slot' _ h
      rw [hto slot' h]
      exact hserves
    · exact nofun
    · intro slot' _ h
      rw [hto slot' h]
      exact hnone
    all_goals exact nofun

theorem reworks_of_phase {p : Phase} (h : call.phase = p) (hr : p.isRework)
    (hslot : p.slot? = some slot) : call.phase.reworks slot := by
  rw [Phase.reworks, h, hr, Phase.uses_of_slot? hslot]
  rfl

theorem erase_of_ne {m : ExtTreeMap ℕ α} {slot slot' : ℕ} (h : slot' ≠ slot) :
    (m.erase slot)[slot']? = m[slot']? :=
  (ExtTreeMap.getElem?_erase_ite m slot slot').trans (if_neg (Ne.symm h))

theorem erase_self {m : ExtTreeMap ℕ α} {slot : ℕ} : (m.erase slot)[slot]? = none :=
  (ExtTreeMap.getElem?_erase_ite m slot slot).trans (if_pos rfl)

/-- The record of the device is dropped. -/
theorem Consistent.forget (hs : s.Consistent) (hcall : s.calls[id]? = some call)
    (hreworks : call.phase.reworks slot) (hslot : phase.slot? = some slot)
    (hown : phase.isForgotten ∧ ¬ phase.isProven) :
    ((s.forget slot).goTo id call phase).Consistent :=
  hs.rework hcall hreworks (.inl hslot) (fun _ _ => rfl) (fun _ h => erase_of_ne h) erase_self rfl
    rfl rfl rfl (.inr (.inl hown))

theorem release_attachedTo (letsGo : Bool) : (s.release slot letsGo).attachedTo = s.attachedTo := by
  cases letsGo <;> rfl

theorem release_images (letsGo : Bool) : (s.release slot letsGo).images = s.images := by
  cases letsGo <;> rfl

theorem release_calls (letsGo : Bool) : (s.release slot letsGo).calls = s.calls := by
  cases letsGo <;> rfl

theorem release_handedOut (letsGo : Bool) : (s.release slot letsGo).handedOut = s.handedOut := by
  cases letsGo <;> rfl

theorem release_formatted (letsGo : Bool) : (s.release slot letsGo).formatted = s.formatted := by
  cases letsGo <;> rfl

theorem release_of_ne (letsGo : Bool) {slot' : ℕ} (h : slot' ≠ slot) :
    (s.release slot letsGo).devices[slot']? = s.devices[slot']? := by
  cases letsGo with
  | false => rfl
  | true => exact erase_of_ne h

/-- The kernel may let go of a device that is off the record. -/
theorem Consistent.release (hs : s.Consistent) (hcall : s.calls[id]? = some call)
    (hreworks : call.phase.reworks slot) (hforgotten : call.phase.isForgotten)
    (hslot : phase.slot? = some slot ∨ phase.slot? = none)
    (hown : phase.isPlain ∨ phase.isForgotten ∧ ¬ phase.isProven) (letsGo : Bool)
    {t : ZerofsVolumes} (hd : t.devices = s.devices) (ha : t.attachedTo = s.attachedTo)
    (hi : t.images = s.images) (hc : t.calls = s.calls) (hh : t.handedOut = s.handedOut)
    (hf : t.formatted = s.formatted) :
    ((t.release slot letsGo).goTo id call phase).Consistent := by
  have hnone := (hs.holds id call hcall).forgotten slot hforgotten (Phase.uses_of_reworks hreworks)
  refine hs.rework hcall hreworks hslot (fun slot' h => ?_) (fun slot' _ => ?_) ?_ ?_ ?_ ?_ ?_
    (hown.imp_right .inl)
  · exact (release_of_ne letsGo h).trans (by rw [hd])
  · exact congrArg (·[slot']?) ((release_attachedTo letsGo).trans ha)
  · exact (congrArg (·[slot]?) ((release_attachedTo letsGo).trans ha)).trans hnone
  · exact (release_images letsGo).trans hi
  · exact congrArg (List.set · id _) ((release_calls letsGo).trans hc)
  · exact (release_handedOut letsGo).trans hh
  · exact (release_formatted letsGo).trans hf

/-- The device is attached by name. -/
theorem Consistent.connect (hs : s.Consistent) (hcall : s.calls[id]? = some call)
    (hreworks : call.phase.reworks slot) (hforgotten : call.phase.isForgotten) :
    (((s.takeAway slot).connect slot call.volumeId).goTo id call (.attached slot)).Consistent := by
  have hnone := (hs.holds id call hcall).forgotten slot hforgotten (Phase.uses_of_reworks hreworks)
  refine hs.rework hcall hreworks (.inl rfl) (fun slot' h => ?_) (fun _ _ => rfl) hnone rfl rfl rfl
    rfl (.inr (.inr ⟨rfl, ?_⟩))
  · exact (ExtTreeMap.getElem?_insert_ite s.devices slot slot' _).trans (if_neg (Ne.symm h))
  · simp [serves, ZerofsVolumes.goTo, ZerofsVolumes.connect]

/-! ### A proven device -/

/-- The device is returned. -/
theorem Consistent.handOut (hs : s.Consistent) (hcall : s.calls[id]? = some call)
    (hdone : call.phase ≠ .done) (hserves : s.serves slot call.volumeId = true) :
    (s.handOut id call slot).Consistent := by
  refine hs.goesOn hcall hdone (.of_same rfl rfl rfl) rfl (holds_of_isPlain rfl) nofun nofun
    ⟨fun h hh => ?_, hs.safe.formatted⟩
  rcases List.mem_append.mp hh with hh | hh
  · exact hs.safe.handedOut h hh
  · obtain rfl := List.mem_singleton.mp hh
    exact hserves

/-- What a device shows that serves a volume is the volume's own superblock. -/
theorem superblockOf_of_serves {volumeId : VolumeId} (h : s.serves slot volumeId) :
    s.superblockOf slot = s.images[volumeId]?.map Image.superblock := by
  obtain ⟨device, hd, rfl, hanswers⟩ := exists_of_serves h
  rw [superblockOf, hd, Option.filter_some, if_pos hanswers, Option.bind_some]

theorem Consistent.useProven (hs : s.Consistent) (hcall : s.calls[id]? = some call)
    (hphase : call.phase = .proven slot) (answer : Answer) :
    (s.useProven id call slot answer).Consistent := by
  have hdone : call.phase ≠ .done := by rw [hphase]; exact nofun
  have hslot : call.phase.slot? = some slot := by rw [hphase]; rfl
  have huses := Phase.uses_of_slot? hslot
  have hholds := hs.holds id call hcall
  have hserves := hholds.served slot (by rw [hphase]; rfl) huses
  have hrecorded := hholds.recorded slot (by rw [hphase]; rfl) huses
  rw [ZerofsVolumes.useProven]
  split
  · rename_i sizeBytes hr
    split
    · rename_i superblock hshown
      obtain ⟨hshown, -⟩ := Option.filter_eq_some_iff.mp hshown
      split
      · exact hs.handOut hcall hdone hserves
      · rename_i hmagic
        refine hs.proceed hcall hdone ?_ hslot rfl nofun
        constructor
        · exact nofun
        · intro slot' _ h
          rw [Phase.eq_of_uses rfl h]
          exact hserves
        · intro slot' _ h
          rw [Phase.eq_of_uses rfl h]
          exact hrecorded
        · exact nofun
        · intro _ image hi
          -- What the device showed is the superblock of the volume's image.
          rw [superblockOf_of_serves hserves] at hshown
          obtain ⟨image', hi', rfl⟩ := Option.map_eq_some_iff.mp hshown
          obtain rfl := Option.some.inj (hi.symm.trans hi')
          exact Bool.not_eq_true _ ▸ hmagic
        · intro _
          rw [hr]
          rfl
    · exact hs.leave hcall hdone rfl rfl
  · exact hs.handOut hcall hdone hserves
  all_goals exact hs.leave hcall hdone rfl rfl

theorem Consistent.stage (hs : s.Consistent) (hcall : s.calls[id]? = some call)
    (hphase : call.phase = .staging slot) (staged : Bool) :
    (s.goTo id call (if staged then .formatting slot else .done)).Consistent := by
  have hdone : call.phase ≠ .done := by rw [hphase]; exact nofun
  have hslot : call.phase.slot? = some slot := by rw [hphase]; rfl
  cases staged with
  | false => exact hs.leave hcall hdone rfl rfl
  | true =>
    have huses := Phase.uses_of_slot? hslot
    have hholds := hs.holds id call hcall
    refine hs.proceed hcall hdone ?_ hslot rfl nofun
    constructor
    · exact nofun
    · intro slot' _ h
      rw [Phase.eq_of_uses rfl h]
      exact hholds.served slot (by rw [hphase]; rfl) huses
    · intro slot' _ h
      rw [Phase.eq_of_uses rfl h]
      exact hholds.recorded slot (by rw [hphase]; rfl) huses
    · exact nofun
    · exact fun _ => hholds.bare (by rw [hphase]; rfl)
    · exact fun _ => hholds.provisions (by rw [hphase]; rfl)

/-- What a format changes: the superblock of the volume the device serves, and the history. -/
theorem format_spec {volumeId : VolumeId} (hserves : s.serves slot volumeId)
    (superblock : Superblock) :
    let s' := s.format slot volumeId superblock
    s'.devices = s.devices ∧ s'.attachedTo = s.attachedTo ∧ s'.calls = s.calls ∧
      s'.handedOut = s.handedOut ∧
      s'.images = s.images.modify volumeId (fun image => { image with superblock := superblock }) ∧
      s'.formatted = s.formatted ++
        [⟨volumeId, true, (s.images[volumeId]?.map Image.superblock).any Superblock.magic⟩] := by
  obtain ⟨device, hd, rfl, hanswers⟩ := exists_of_serves hserves
  rw [format, hserves, superblockOf_of_serves hserves, hd, Option.filter_some, if_pos hanswers]
  exact ⟨rfl, rfl, rfl, rfl, rfl, rfl⟩

/-- The device is formatted, and returned if that went well. -/
theorem Consistent.format (hs : s.Consistent) (hcall : s.calls[id]? = some call)
    (hphase : call.phase = .formatting slot) (superblock : Superblock) (well : Bool) :
    let s' := s.format slot call.volumeId superblock
    (if well then s'.handOut id call slot else s'.goTo id call .done).Consistent := by
  have hdone : call.phase ≠ .done := by rw [hphase]; exact nofun
  have huses : call.phase.uses slot := Phase.uses_of_slot? (by rw [hphase]; rfl)
  have hholds := hs.holds id call hcall
  have hserves := hholds.served slot (by rw [hphase]; rfl) huses
  have hprovision := hholds.provisions (by rw [hphase]; rfl)
  have hbare := hholds.bare (by rw [hphase]; rfl)
  obtain ⟨hd, ha, hc, hh, hi, hf⟩ := s.format_spec hserves superblock
  intro s'
  -- The volume held no filesystem.
  have hsafe : s'.Safe := by
    refine ⟨hh ▸ hs.safe.handedOut, fun f hmem => ?_⟩
    rw [hf, List.mem_append, List.mem_singleton] at hmem
    rcases hmem with hmem | rfl
    · exact hs.safe.formatted f hmem
    · refine ⟨rfl, ?_⟩
      cases himage : s.images[call.volumeId]? with
      | none => rfl
      | some image => exact hbare image himage
  have heffect (t : ZerofsVolumes) (hd' : t.devices = s'.devices)
      (ha' : t.attachedTo = s'.attachedTo) (hi' : t.images = s'.images) : Effect s t call := by
    refine ⟨fun slot => .inl (by rw [hd', hd]), fun slot => .inl (by rw [ha', ha]),
      fun w image' himage hm => ?_⟩
    rw [hi', hi, ExtTreeMap.getElem?_modify_ite] at himage
    split at himage
    · rename_i heq
      exact .inl ⟨heq.symm, hprovision, hdone⟩
    · exact .inr ⟨image', himage, hm⟩
  have hserves' : s'.serves slot call.volumeId = true :=
    (serves_of_devices (by rw [hd])).trans hserves
  split
  · refine hs.goesOn hcall hdone (heffect _ rfl rfl rfl) (congrArg (List.set · id _) hc)
      (holds_of_isPlain rfl) nofun nofun ⟨fun h hmem => ?_, hsafe.formatted⟩
    rcases List.mem_append.mp hmem with hmem | hmem
    · exact hsafe.handedOut h hmem
    · obtain rfl := List.mem_singleton.mp hmem
      exact hserves'
  · exact hs.goesOn hcall hdone (heffect _ rfl rfl rfl) (congrArg (List.set · id _) hc)
      (holds_of_isPlain rfl) nofun nofun (hsafe.of_same rfl rfl)

theorem Consistent.delete (hs : s.Consistent) (hcall : s.calls[id]? = some call)
    (hphase : call.phase = .deleting) (deleted : Bool) :
    ((if deleted then { s with images := s.images.erase call.volumeId } else s).goTo id call
      .done).Consistent := by
  have hdone : call.phase ≠ .done := by rw [hphase]; exact nofun
  cases deleted with
  | false => exact hs.leave hcall hdone rfl rfl
  | true =>
    refine hs.goesOn hcall hdone
      ⟨fun _ => .inl rfl, fun _ => .inl rfl, fun w image' h hm => .inr ?_⟩ rfl
      (holds_of_isPlain rfl) nofun nofun (hs.safe.of_same rfl rfl)
    have h : (s.images.erase call.volumeId)[w]? = some image' := h
    rw [ExtTreeMap.getElem?_erase_ite] at h
    split at h
    · exact absurd h nofun
    · exact ⟨image', h, hm⟩

/-- **A step of a call** that keeps apart from the others. -/
theorem Consistent.stepCall (hs : s.Consistent) (hdistinct : s.Distinct)
    (hcall : s.calls[id]? = some call)
    (hobtain : ∀ slot, s.obtains call = some slot → s.Others id (Phase.reworks slot))
    (hturn : ∀ slot, s.turns call = some slot → s.Others id (Phase.uses slot)) (answer : Answer) :
    (s.stepCall id call answer).Consistent := by
  rw [ZerofsVolumes.stepCall]
  split
  case h_1 hphase => exact hs.enter hcall hphase answer
  case h_2 hphase => exact hs.lookUp hcall hphase hobtain hturn
  case h_3 hphase => exact hs.probe hcall hphase hturn
  case h_4 hphase => exact hs.recall hcall hphase
  case h_5 hphase => exact hs.compare hcall hphase hdistinct hturn
  case h_6 hphase => exact hs.remember hcall (by rw [hphase]; rfl) (by rw [hphase]; rfl)
  case h_7 hphase => exact hs.remember hcall (by rw [hphase]; rfl) (by rw [hphase]; rfl)
  case h_8 slot again hphase =>
    exact hs.forget hcall (reworks_of_phase hphase rfl rfl) rfl ⟨rfl, nofun⟩
  case h_9 slot again hphase =>
    have hreworks : call.phase.reworks slot := reworks_of_phase hphase rfl rfl
    have hnone := (hs.holds id call hcall).forgotten slot (by rw [hphase]; rfl)
      (Phase.uses_of_reworks hreworks)
    split
    · exact hs.rework hcall hreworks (.inl rfl) (fun _ _ => rfl) (fun _ _ => rfl) hnone rfl rfl rfl
        rfl (.inl rfl)
    · exact hs.rework hcall hreworks (.inl rfl) (fun _ _ => rfl) (fun _ _ => rfl) hnone rfl rfl rfl
        rfl (.inr (.inl ⟨rfl, nofun⟩))
  case h_10 slot again hphase =>
    exact hs.forget hcall (reworks_of_phase hphase rfl rfl) rfl ⟨rfl, nofun⟩
  case h_11 slot again hphase =>
    refine hs.release hcall (reworks_of_phase hphase rfl rfl) (by rw [hphase]; rfl) ?_ ?_
      answer.letsGo rfl rfl rfl rfl rfl rfl
    · cases call.request <;> first | exact .inl rfl | exact .inr rfl
    · cases call.request <;> first | exact .inl rfl | exact .inr ⟨rfl, fun h => Bool.noConfusion h⟩
  case h_12 slot again hphase =>
    exact hs.release hcall (reworks_of_phase hphase rfl rfl) (by rw [hphase]; rfl) (.inl rfl)
      (.inr ⟨rfl, fun h => Bool.noConfusion h⟩) answer.letsGo rfl rfl rfl rfl rfl rfl
  case h_13 slot again hphase =>
    have hreworks : call.phase.reworks slot := reworks_of_phase hphase rfl rfl
    split
    · exact hs.connect hcall hreworks (by rw [hphase]; rfl)
    · refine hs.release hcall hreworks (by rw [hphase]; rfl) ?_ ?_ answer.letsGo rfl rfl rfl rfl rfl
        rfl
      · cases again <;> first | exact .inl rfl | exact .inr rfl
      · cases again <;> exact .inl rfl
  case h_14 hphase => exact hs.useProven hcall hphase answer
  case h_15 hphase => exact hs.stage hcall hphase answer.exitsWell
  case h_16 hphase => exact hs.format hcall hphase answer.superblock _
  case h_17 hphase => exact hs.delete hcall hphase answer.exitsWell
  case h_18 => exact hs

/-! ### Moves and runs -/

theorem Consistent.begin (hs : s.Consistent) {request : Request} {volumeId : VolumeId}
    {appId : AppId} (hone : request.isProvision = true →
      ∀ call ∈ s.calls, call.request.isProvision = true →
      call.volumeId = volumeId → call.phase = .done) :
    (s.step (.begin request volumeId appId)).Consistent := by
  have hcases {id : ℕ} {call : Call}
      (h : (s.calls ++ [⟨request, volumeId, appId, .entering⟩])[id]? = some call) :
      s.calls[id]? = some call ∨
        id = s.calls.length ∧ call = ⟨request, volumeId, appId, .entering⟩ := by
    rw [List.getElem?_append] at h
    split at h
    · exact .inl h
    · rename_i hlt
      rw [List.getElem?_singleton] at h
      split at h
      · exact .inr ⟨by omega, (Option.some.inj h).symm⟩
      · exact absurd h nofun
  refine ⟨hs.known, fun id call h => ?_, fun id id' call call' slot hne h h' hr => ?_,
    fun id id' call call' h h' hp hp' hv hd hd' => ?_, hs.safe.of_same rfl rfl⟩
  · rcases hcases h with h | ⟨-, rfl⟩
    · have hold := hs.holds id call h
      exact ⟨hold.answers, hold.served, hold.recorded, hold.forgotten, hold.bare, hold.provisions⟩
    · exact @holds_of_isPlain _ ⟨request, volumeId, appId, .entering⟩ _ rfl
  · rcases hcases h with h | ⟨-, rfl⟩
    · rcases hcases h' with h' | ⟨-, rfl⟩
      · exact hs.alone id id' call call' slot hne h h' hr
      · rfl
    · exact Bool.noConfusion hr
  · rcases hcases h with h | ⟨rfl, rfl⟩ <;> rcases hcases h' with h' | ⟨rfl, rfl⟩
    · exact hs.oneProvision id id' call call' h h' hp hp' hv hd hd'
    · exact absurd (hone hp' call (List.mem_of_getElem? h) hp hv) hd
    · exact absurd (hone hp call' (List.mem_of_getElem? h') hp' hv.symm) hd'
    · rfl

/-- While no call is under way nothing is relied on, so only the record has to stay right. -/
theorem Consistent.of_idle (hidle : s'.Idle)
    (hknown : ∀ (slot : ℕ) volumeId device, s'.attachedTo[slot]? = some volumeId →
      s'.devices[slot]? = some device → device.exported = volumeId) (hsafe : s'.Safe) :
    s'.Consistent := by
  have hdone {id : CallId} {call : Call} (h : s'.calls[id]? = some call) : call.phase = .done :=
    hidle call (List.mem_of_getElem? h)
  refine ⟨hknown, fun id call h => ?_, fun id id' call call' slot _ h _ hr => ?_,
    fun id id' call call' h _ _ _ _ hd => absurd (hdone h) hd, hsafe⟩
  · have hplain : s'.Holds { call with phase := .done } := holds_of_isPlain rfl
    rwa [← hdone h] at hplain
  · rw [hdone h] at hr
    exact Bool.noConfusion hr

/-- **The invariant** of runs whose calls keep apart. -/
theorem Consistent.step (hs : s.Consistent) {m : Move} (hm : s.Undisturbed m ∧ s.Distinct) :
    (s.step m).Consistent := by
  obtain ⟨hm, hdistinct⟩ := hm
  cases m with
  | begin request volumeId appId => exact hs.begin hm
  | advance id answer =>
    rw [ZerofsVolumes.step]
    split
    · rename_i call hcall
      obtain ⟨hobtain, hturn⟩ := hm call hcall
      exact hs.stepCall hdistinct hcall hobtain hturn answer
    · exact hs
  | releaseSlot appId | allocateSlot appId => exact .of_idle hm hs.known (hs.safe.of_same rfl rfl)
  | daemonRestarts allocator =>
    refine .of_idle (fun call h => ?_) (fun slot volumeId device h => absurd h (by
      simp [ZerofsVolumes.step])) (hs.safe.of_same rfl rfl)
    obtain ⟨old, -, rfl⟩ := List.mem_map.mp h
    rfl
  | storageRestarts =>
    refine .of_idle hm (fun slot volumeId device h hd => ?_) (hs.safe.of_same rfl rfl)
    have hd : (s.devices.map fun _ device => { device with answers := false })[slot]? =
      some device := hd
    rw [ExtTreeMap.getElem?_map, Option.map_eq_some_iff] at hd
    obtain ⟨old, ho, rfl⟩ := hd
    exact hs.known slot volumeId old h ho
  | guestWrites volumeId superblock => exact .of_idle hm hs.known (hs.safe.of_same rfl rfl)

theorem consistent_start (allocator : SlotAllocator) (images : ExtTreeMap VolumeId Image)
    (devices : ExtTreeMap ℕ Device) : (start allocator images devices).Consistent :=
  .of_idle (fun call h => absurd h List.not_mem_nil)
    (fun slot volumeId device h => absurd h (by simp [start])) ⟨nofun, nofun⟩

theorem consistent_run {allocator : SlotAllocator} {images : ExtTreeMap VolumeId Image}
    {devices : ExtTreeMap ℕ Device} {moves : List Move}
    (h : Run.Meets ZerofsVolumes.step (fun s m => s.Undisturbed m ∧ s.Distinct)
      (start allocator images devices) moves) :
    (Run.run ZerofsVolumes.step (start allocator images devices) moves).Consistent :=
  Run.Meets.invariant (fun _ _ hs hm => hs.step hm) (consistent_start allocator images devices) h

end ZerofsVolumes

end Nibrunner.Nbd
