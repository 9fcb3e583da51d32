import Nibrunner.Reconcile.SuccessfulPass

/-!
# A volume whose device is gone

The storage server goes, every device it served stops answering, and the passes that follow bring
the volumes back: each one is provisioned again, and its app is booted once `nbd-client` is let in.

The planner and the backend do not judge a volume's size alike. A file is long enough for the
planner when it is no shorter than the document says; the backend refuses one that is longer than
the document says, rounded up to a sector. A volume whose document has been cut below its file is
therefore left alone while its device answers and cannot be brought back once it does not
(`recovers_iff`).
-/

namespace Nibrunner

open Std

namespace Host

/-! ### The outage -/

/-- The devices that `lost` names stop answering. -/
def loseDevices (h : Host) (lost : ℕ → Bool) : Host :=
  { h with devices := h.devices.filter fun slot _ => !lost slot }

/-- The host after devices were lost and `nbd-client` has been turned away at each try to bring the
volume back. -/
def outage (h : Host) (lost : ℕ → Bool) (v : DesiredVolume) (refusals : List String) : Host :=
  refusals.foldl (fun h reason => h.provisionVolume v (.deviceFailed reason)) (h.loseDevices lost)

/-- **The volume can be brought back**: its file takes the size the document lists, and its app
holds a slot or can be given one. -/
def Recoverable (h : Host) (v : DesiredVolume) : Prop :=
  h.FileFits v ∧ (h.allocator.allocate v.appId).isSome = true

/-! ### Provisioning it again -/

theorem Recoverable.provisioned {h : Host} {v : DesiredVolume} (hv : h.Recoverable v) :
    Provisioned v h (h.provisionVolume v .ok) := by
  obtain ⟨hfits, hslot⟩ := hv
  obtain ⟨⟨slot, allocator⟩, hal⟩ := Option.isSome_iff_exists.mp hslot
  exact provisioned_of_fileFits hfits hal

/-- Provisioning is refused exactly where the volume cannot be brought back. -/
theorem provision_eq_ok_iff (h : Host) (v : DesiredVolume) :
    (h.provision v .ok).2 = .ok () ↔ h.Recoverable v := by
  by_cases hfits : h.FileFits v
  · unfold provision
    rw [hfits.ensureDeviceFile_eq]
    dsimp only [slotFor]
    cases hal : h.allocator.allocate v.appId with
    | none =>
      refine iff_of_false (by simp) ?_
      rintro ⟨-, hslot⟩
      rw [hal] at hslot
      cases hslot
    | some pair =>
      refine iff_of_true rfl ⟨hfits, ?_⟩
      rw [hal, Option.isSome_some]
  · obtain ⟨reason, hrefused⟩ := exists_refusal_of_not_fileFits hfits
    unfold provision
    rw [hrefused]
    exact iff_of_false (by simp) fun hv => hfits hv.1

/-- A volume that cannot be brought back is reported failed, and nothing is booted onto it. -/
theorem volumeRefusal_provisionVolume {h : Host} {v : DesiredVolume} (hv : ¬ h.Recoverable v) :
    (h.provisionVolume v .ok).volumeRefusal v.volumeId ≠ none := by
  have hfailed : ∃ r ∈ (h.provisionVolume v .ok).volumeReports,
      r.volumeId = v.volumeId ∧ r.state = .failed := by
    have hanswer : (h.provision v .ok).2 ≠ .ok () :=
      fun hok => hv ((provision_eq_ok_iff h v).mp hok)
    unfold provisionVolume
    split
    · rename_i hok
      exact absurd (congrArg Prod.snd hok) hanswer
    · exact ⟨_, mem_mergeVolumeReports_self _ _, rfl, rfl⟩
  obtain ⟨r, hr, hvolume, hstate⟩ := hfailed
  rw [Host.volumeRefusal, ne_eq, Option.map_eq_none_iff, List.find?_eq_none]
  intro hnone
  refine hnone r hr ?_
  rw [hvolume, hstate, decide_eq_true rfl, decide_eq_true rfl, Bool.and_self]

/-! ### What the tries that fail leave -/

/-- The volume's device is gone since `h`, and whether it can be brought back is as it was. -/
structure StillDown (v : DesiredVolume) (h k : Host) : Prop where
  records : k.records = h.records
  unserved : ∀ slot : ℕ, k.devices[slot]? ≠ some v.volumeId
  recoverable : k.Recoverable v ↔ h.Recoverable v

theorem stillDown_loseDevices {h : Host} {v : DesiredVolume} {lost : ℕ → Bool}
    (hlost : ∀ slot : ℕ, h.devices[slot]? = some v.volumeId → lost slot = true) :
    StillDown v h (h.loseDevices lost) := by
  refine ⟨rfl, fun slot hserved => ?_, Iff.rfl⟩
  simp only [loseDevices, ExtTreeMap.getElem?_filter', Option.filter_eq_some_iff] at hserved
  obtain ⟨hserved, hkept⟩ := hserved
  rw [hlost slot hserved] at hkept
  cases hkept

/-- A try that fails may have made the file longer and taken the app's slot, and no more. -/
theorem StillDown.provisionVolume {v : DesiredVolume} {h k : Host} (hd : StillDown v h k)
    (reason : String) : StillDown v h (k.provisionVolume v (.deviceFailed reason)) := by
  by_cases hfits : k.FileFits v
  · -- the file is as long as the document says from here on
    have hfits' : ∀ k' : Host, k'.images = k.images.insert v.volumeId
        { k.images[v.volumeId]?.getD { sizeBytes := 0, formatted := false } with
          sizeBytes := alignToSector v.sizeBytes } → k'.FileFits v := by
      intro k' himages
      refine ⟨fun image himage => ?_, hfits.2⟩
      rw [himages, ExtTreeMap.getElem?_insert_ite, if_pos rfl] at himage
      rw [← Option.some.inj himage]
    have hrecoverable : k.Recoverable v ↔ (k.allocator.allocate v.appId).isSome = true :=
      and_iff_right hfits
    unfold Host.provisionVolume provision
    rw [hfits.ensureDeviceFile_eq]
    dsimp only [slotFor]
    cases hal : k.allocator.allocate v.appId with
    | none =>
      refine ⟨hd.records, hd.unserved, ?_⟩
      rw [← hd.recoverable, hrecoverable, Recoverable, and_iff_right (hfits' _ rfl)]
      exact Iff.rfl
    | some pair =>
      obtain ⟨slot, allocator⟩ := pair
      have hheld := (SlotAllocator.allocate_spec hal).2.2.1
      refine ⟨hd.records, hd.unserved, ?_⟩
      rw [← hd.recoverable, hrecoverable, hal]
      refine iff_of_true ⟨hfits' _ rfl, ?_⟩ rfl
      show (allocator.allocate v.appId).isSome = true
      rw [SlotAllocator.allocate_of_held hheld, Option.isSome_some]
  · obtain ⟨refusal, hrefused⟩ := exists_refusal_of_not_fileFits hfits
    unfold Host.provisionVolume provision
    rw [hrefused]
    exact ⟨hd.records, hd.unserved, hd.recoverable⟩

theorem StillDown.foldl {v : DesiredVolume} {h : Host} (refusals : List String) {k : Host}
    (hd : StillDown v h k) : StillDown v h
      (refusals.foldl (fun h reason => h.provisionVolume v (.deviceFailed reason)) k) := by
  induction refusals generalizing k with
  | nil => exact hd
  | cons reason refusals ih => exact ih (hd.provisionVolume reason)

/-- A volume no device serves is observed on none. -/
theorem StillDown.not_attached {v : DesiredVolume} {h k : Host} (hd : StillDown v h k)
    {d : HostDesiredState} {o : ObservedVolume} (ho : o ∈ (k.observe d).volumes)
    (hvolume : o.volumeId = v.volumeId) : o.attached = false := by
  obtain ⟨image, app, -, -, heq⟩ := mem_observeVolumes_iff.mp ho
  have hserved : k.isServed o.volumeId app = false := by
    rw [Bool.eq_false_iff, isServed, ne_eq, Option.any_eq_true]
    rintro ⟨slot, -, hserves⟩
    rw [hvolume] at hserves
    exact hd.unserved slot (of_decide_eq_true hserves)
  rw [heq]
  exact hserved

/-- A pass provisions a volume that is down, whatever it was run for. -/
theorem StillDown.mem_provisions {v : DesiredVolume} {h k : Host} (hd : StillDown v h k)
    {d : HostDesiredState} (hv : v ∈ d.volumes) (hpresent : v.desiredState = .present)
    (trigger : Trigger) : v ∈ provisions (planReconcile d (k.observe d)) (k.observe d) trigger := by
  refine mem_provisions_iff.mpr ⟨hv, ?_, ?_⟩
  · have hcurrent : ∀ o, (k.observe d).volumesById[v.volumeId]? = some o → o.attached = false := by
      intro o ho
      obtain ⟨hmem, hvolume⟩ := ExtTreeMap.mem_of_getElem?_indexBy ho
      exact hd.not_attached hmem hvolume
    rw [planVolume, hpresent]
    dsimp only
    rw [if_neg]
    rw [Option.any_eq_true]
    rintro ⟨o, ho, hready⟩
    rw [hcurrent o ho, Bool.false_and, Bool.false_and] at hready
    cases hready
  · rintro ⟨-, hbare⟩
    obtain ⟨o, ho, hready⟩ := List.any_eq_true.mp hbare
    rw [Bool.and_eq_true, Bool.and_eq_true, decide_eq_true_eq] at hready
    obtain ⟨⟨hvolume, hattached⟩, -⟩ := hready
    rw [hd.not_attached ho hvolume] at hattached
    cases hattached

/-! ### Booting onto it again -/

/-- Nothing is booted while the volume is reported failed. -/
theorem isUp_startInstance_of_volumeRefusal [Platform] {h : Host} {desired : DesiredInstance}
    (hrefusal : h.volumeRefusal desired.volumeId ≠ none) (hdown : h.isUp desired.appId = false)
    (answers : StartAnswers) :
    (h.startInstance desired answers).isUp desired.appId = false := by
  unfold startInstance
  dsimp only
  split
  · exact hdown
  · exact hdown
  · rename_i href
    cases hslot : h.slotFor desired.appId with
    | none => exact hdown
    | some pair =>
      obtain ⟨slot, allocated⟩ := pair
      simp only [Host.slotFor, Option.map_eq_some_iff, Prod.mk.injEq] at hslot
      obtain ⟨⟨slot', allocator⟩, -, rfl, rfl⟩ := hslot
      dsimp only
      split
      · exact hdown
      · split
        · exact hdown
        · rename_i hnone
          exact absurd hnone hrefusal

/-- **Booting onto a volume that was down.** Once the volume is provisioned again, an app that is
down and is not refused for anything else is booted exactly where the volume could be brought
back. -/
theorem isUp_startInstance_iff [Platform] {k : Host} {v : DesiredVolume} {wanted : DesiredInstance}
    {nowMs : ℤ} (happ : wanted.appId = v.appId) (hvolume : wanted.volumeId = v.volumeId)
    (hingress : ingressRefusal wanted k.config = none) (hdown : k.isUp wanted.appId = false)
    (href : startRefused k.records[wanted.appId]? nowMs wanted = none) :
    ((k.provisionVolume v .ok).startInstance wanted (.succeed nowMs)).isUp wanted.appId = true ↔
      k.Recoverable v := by
  by_cases hv : k.Recoverable v
  · refine iff_of_true ?_ hv
    have hp := hv.provisioned
    obtain ⟨slot, hal, hdevices⟩ := hp.slot
    have hslot : (k.provisionVolume v .ok).slotOf wanted.appId = some slot.slot := by
      rw [happ]
      exact (SlotAllocator.allocate_spec hal).2.2.1
    have hdevice : (k.provisionVolume v .ok).devices[slot.slot]? = some wanted.volumeId := by
      rw [hdevices, ExtTreeMap.getElem?_insert_ite, if_pos rfl, hvolume]
    have himage : (k.provisionVolume v .ok).images[wanted.volumeId]? =
        some { sizeBytes := alignToSector v.sizeBytes, formatted := true } := by
      rw [hp.images, hvolume, ExtTreeMap.getElem?_insert_ite, if_pos rfl]
    have hreport : (k.provisionVolume v .ok).volumeRefusal wanted.volumeId = none := by
      rw [hvolume]
      exact (hp.notFailed (.inl rfl)).volumeRefusal
    have hbackoff : startRefused (k.provisionVolume v .ok).records[wanted.appId]? nowMs wanted =
        none := by
      rw [hp.only.records, href]
    have hreachable : ingressRefusal wanted (k.provisionVolume v .ok).config = none := by
      rw [hp.only.config, hingress]
    have hstopped : (k.provisionVolume v .ok).isUp wanted.appId = false := by
      rw [isUp, hp.only.vms]
      exact hdown
    rw [startInstance_eq_of_ready hbackoff hslot hdevice himage hreport hreachable hstopped]
    simp [isUp, updateRecord, putVm, Vm.spawned, Vm.isUp]
  · refine iff_of_false ?_ hv
    have hrefusal : (k.provisionVolume v .ok).volumeRefusal wanted.volumeId ≠ none := by
      rw [hvolume]
      exact volumeRefusal_provisionVolume hv
    have hvms : (k.provisionVolume v .ok).isUp wanted.appId = false := by
      obtain ⟨slot, hview, -⟩ := OnlySlots.provisionVolume k v .ok wanted.appId
      have hvm : (k.provisionVolume v .ok).vms[wanted.appId]? = k.vms[wanted.appId]? :=
        congrArg AppView.vm hview
      rw [isUp, hvm]
      exact hdown
    rw [isUp_startInstance_of_volumeRefusal hrefusal hvms]
    exact Bool.false_ne_true

/-! ### What becomes of a volume that was left alone -/

/-- Of a volume that is ready, only the length of its file is left to ask. -/
theorem Serves.recoverable_iff {h : Host} {v : DesiredVolume} (hs : h.Serves v) :
    h.Recoverable v ↔ ∃ image, h.images[v.volumeId]? = some image ∧
      image.sizeBytes ≤ alignToSector v.sizeBytes ∧ alignToSector v.sizeBytes < 2 ^ 63 := by
  obtain ⟨slot, image, hslot, -, himage, -, -⟩ := hs
  have hheld : (h.allocator.allocate v.appId).isSome = true := by
    rw [SlotAllocator.allocate_of_held hslot, Option.isSome_some]
  constructor
  · rintro ⟨⟨hsize, hrange⟩, -⟩
    exact ⟨image, himage, hsize image himage, hrange⟩
  · rintro ⟨image', himage', hsize, hrange⟩
    refine ⟨⟨fun image'' himage'' => ?_, hrange⟩, hheld⟩
    rw [himage', Option.some.injEq] at himage''
    rw [← himage'']
    exact hsize

/-- **A volume the planner leaves alone can be brought back exactly where its file is no longer than
the document says, rounded up to a sector.** Once its device stops answering, every pass provisions
it again, however often `nbd-client` has been turned away since; the first try that `nbd-client` is
let in for goes through, and the app is booted onto it, exactly where the volume is recoverable.
A document that lists the volume twice may also want it for an app there is no slot for. -/
theorem recovers_iff [Platform] {h : Host} {d : HostDesiredState} {v : DesiredVolume}
    (hv : v ∈ d.volumes) (hpresent : v.desiredState = .present)
    (hrest : planVolume d (h.observe d) v = .none v.volumeId) (lost : ℕ → Bool)
    (hlost : ∀ slot : ℕ, h.devices[slot]? = some v.volumeId → lost slot = true)
    (refusals : List String) :
    let k := h.outage lost v refusals
    (∀ trigger, v ∈ provisions (planReconcile d (k.observe d)) (k.observe d) trigger) ∧
      ((k.provision v .ok).2 = .ok () ↔ h.Recoverable v) ∧
      (∀ (stopped : Host) (wanted : DesiredInstance) (nowMs : ℤ), OnlyInstances k stopped →
        wanted.appId = v.appId → wanted.volumeId = v.volumeId →
        ingressRefusal wanted stopped.config = none → stopped.isUp wanted.appId = false →
        startRefused stopped.records[wanted.appId]? nowMs wanted = none →
        (((stopped.provisionVolume v .ok).startInstance wanted (.succeed nowMs)).isUp
          wanted.appId = true ↔ h.Recoverable v)) ∧
      (d.volumeIds.Nodup →
        (h.Recoverable v ↔ ∃ image, h.images[v.volumeId]? = some image ∧
          image.sizeBytes ≤ alignToSector v.sizeBytes ∧
          alignToSector v.sizeBytes < 2 ^ 63)) := by
  intro k
  have hdown : StillDown v h k := (stillDown_loseDevices hlost).foldl refusals
  refine ⟨hdown.mem_provisions hv hpresent, ?_, ?_, fun hd => ?_⟩
  · rw [provision_eq_ok_iff, hdown.recoverable]
  · intro stopped wanted nowMs hsame happ hvolume hingress hstopped href
    -- the stops of the pass leave the storage as it is
    have hrecoverable : stopped.Recoverable v ↔ k.Recoverable v := by
      rw [Recoverable, Recoverable, FileFits, FileFits, hsame.images, hsame.allocator]
    rw [isUp_startInstance_iff happ hvolume hingress hstopped href, hrecoverable,
      hdown.recoverable]
  · exact ((planVolume_eq_none_iff h hd hv hpresent).mp hrest).recoverable_iff

end Host

/-! ### A volume whose document was cut -/

/-- The sole volume, listed at two sectors. -/
def twoSectors : DesiredVolume := { soleVolume with sizeBytes := 1024 }

/-- A host that made it at that size. -/
def cutHost : Host := smallHost.provisionVolume twoSectors .ok

/-- A document that has since listed it at one. -/
def cutDocument : HostDesiredState := ⟨[soleVolume], [], [], []⟩

/-- While the document says what it said, the volume comes back. -/
theorem recovers_twoSectors :
    ((cutHost.outage (fun _ => true) twoSectors ["nbd-client exited 1"]).provision twoSectors
      .ok).2 = .ok () := by
  have hrecovers := @Host.recovers_iff .plain cutHost ⟨[twoSectors], [], [], []⟩ twoSectors
    (by decide) rfl (by decide +kernel) (fun _ => true) (fun _ _ => rfl) ["nbd-client exited 1"]
  refine hrecovers.2.1.mpr ((hrecovers.2.2.2 (List.nodup_singleton _)).mpr ?_)
  exact ⟨{ sizeBytes := 1024, formatted := true }, by decide +kernel, by decide, by decide⟩

/-- Once the document says one sector, the volume is left alone while its device answers, and
refused for good when it no longer does. -/
theorem not_recovers_of_cut :
    planVolume cutDocument (cutHost.observe cutDocument) soleVolume =
        .none soleVolume.volumeId ∧
      ((cutHost.outage (fun _ => true) soleVolume []).provision soleVolume .ok).2 =
        .error "a volume of 1024 bytes cannot be resized down to 512" := by
  decide +kernel

end Nibrunner
