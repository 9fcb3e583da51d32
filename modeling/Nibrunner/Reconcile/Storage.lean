import Nibrunner.Reconcile.SlotSafety

/-!
# Slots, files and devices across a pass

What a pass over a document does to the storage of a host when its adapters succeed.

* `Host.Serves`: a volume is ready to be booted onto, which is when a pass has nothing to plan for
  it (`planVolume_eq_none_iff`);
* `volumesReady_applyVolumes`: the volumes of a pass are all ready once it has provisioned, and none
  is reported failed;
* `OnlyInstances`: what the operations on instances leave alone, the device of an instance's volume
  included where it serves that volume already;
* `takenAway_applyTeardowns`: taking volumes away leaves those listed as present ready, and deletes
  the files it is to delete;
* `settled_applyCheckpoints`: the checkpoints of a pass are taken and deleted as listed.
-/

namespace Nibrunner

open Std

/-! ### What is observed of a volume -/

/-- A volume the document lists is held for the app it is listed for. -/
theorem volumeOwners_of_mem {d : HostDesiredState} (hd : d.volumeIds.Nodup)
    (records : ExtTreeMap AppId InstanceRecord) {v : DesiredVolume} (hv : v ∈ d.volumes) :
    (volumeOwners d records)[v.volumeId]? = some v.appId :=
  ExtTreeMap.getElem?_foldl_insert_of_mem DesiredVolume.volumeId DesiredVolume.appId hd _ hv

namespace Host

theorem mem_observeVolumes_iff {h : Host} {owners : ExtTreeMap VolumeId AppId}
    {o : ObservedVolume} :
    o ∈ h.observeVolumes owners ↔
      ∃ image app, h.images[o.volumeId]? = some image ∧ owners[o.volumeId]? = some app ∧
        o = h.observeVolume o.volumeId image app := by
  rw [observeVolumes, List.mem_filterMap]
  constructor
  · rintro ⟨⟨volume, image⟩, hmem, hobserved⟩
    obtain ⟨app, howner, rfl⟩ := Option.map_eq_some_iff.mp hobserved
    exact ⟨image, app, ExtTreeMap.mem_toList_iff_getElem?_eq_some.mp hmem, howner, rfl⟩
  · rintro ⟨image, app, himage, howner, ho⟩
    refine ⟨(o.volumeId, image), ExtTreeMap.mem_toList_iff_getElem?_eq_some.mpr himage, ?_⟩
    show owners[o.volumeId]?.map _ = some o
    rw [howner, Option.map_some, ← ho]

/-- What is observed of a volume is found under it. -/
theorem volumesById_observe (h : Host) (d : HostDesiredState) (volume : VolumeId) :
    (h.observe d).volumesById[volume]? =
      h.images[volume]?.bind fun image =>
        (volumeOwners d h.records)[volume]?.map (h.observeVolume volume image) := by
  cases hfound : (h.observe d).volumesById[volume]? with
  | some o =>
    obtain ⟨hmem, rfl⟩ := ExtTreeMap.mem_of_getElem?_indexBy hfound
    obtain ⟨image, app, himage, howner, ho⟩ := mem_observeVolumes_iff.mp hmem
    rw [himage, Option.bind_some, howner, Option.map_some, ← ho]
  | none =>
    rw [ObservedState.volumesById, ExtTreeMap.getElem?_indexBy_eq_none_iff] at hfound
    refine Eq.symm (Option.eq_none_iff_forall_ne_some.mpr fun o ho => ?_)
    obtain ⟨image, himage, hmap⟩ := Option.bind_eq_some_iff.mp ho
    obtain ⟨app, howner, rfl⟩ := Option.map_eq_some_iff.mp hmap
    exact hfound (h.observeVolume volume image app)
      (mem_observeVolumes_iff.mpr ⟨image, app, himage, howner, rfl⟩) rfl

/-! ### A volume that is ready -/

/-- **The volume is ready to be booted onto**: its app holds a slot, the slot's device serves it,
and its file carries a filesystem and is as long as the document says. -/
def Serves (h : Host) (v : DesiredVolume) : Prop :=
  ∃ slot image, h.slotOf v.appId = some slot ∧ h.devices[slot]? = some v.volumeId ∧
    h.images[v.volumeId]? = some image ∧ image.formatted = true ∧ v.sizeBytes ≤ image.sizeBytes

/-- There is nothing to do about a listed volume exactly when it is ready. -/
theorem planVolume_eq_none_iff (h : Host) {d : HostDesiredState} (hd : d.volumeIds.Nodup)
    {v : DesiredVolume} (hv : v ∈ d.volumes) (hpresent : v.desiredState = .present) :
    planVolume d (h.observe d) v = .none v.volumeId ↔ h.Serves v := by
  have hcurrent : (h.observe d).volumesById[v.volumeId]? =
      h.images[v.volumeId]?.map (h.observeVolume v.volumeId · v.appId) := by
    rw [volumesById_observe, volumeOwners_of_mem hd h.records hv]
    cases h.images[v.volumeId]? <;> rfl
  rw [planVolume, hpresent, hcurrent]
  dsimp only
  cases himage : h.images[v.volumeId]? with
  | none =>
    refine iff_of_false (by simp) ?_
    rintro ⟨slot, image, -, -, hsome, -⟩
    rw [himage] at hsome
    cases hsome
  | some image =>
    have hserved : h.isServed v.volumeId v.appId = true ↔
        ∃ slot, h.slotOf v.appId = some slot ∧ h.devices[slot]? = some v.volumeId := by
      simp only [isServed, Option.any_eq_true, decide_eq_true_eq]
    -- attached, formatted and large enough is what it is to serve
    have hready : (Option.any
        (fun o => o.attached && o.formatted && decide (v.sizeBytes ≤ o.sizeBytes))
        ((some image).map (h.observeVolume v.volumeId · v.appId))) = true ↔ h.Serves v := by
      simp only [Option.map_some, Option.any_some, observeVolume, Bool.and_eq_true,
        decide_eq_true_eq, hserved]
      constructor
      · rintro ⟨⟨⟨slot, hslot, hdevice⟩, -, hformatted⟩, hsize⟩
        exact ⟨slot, image, hslot, hdevice, himage, hformatted, hsize⟩
      · rintro ⟨slot, image', hslot, hdevice, himage', hformatted, hsize⟩
        obtain rfl : image = image' := Option.some.inj (himage.symm.trans himage')
        exact ⟨⟨⟨slot, hslot, hdevice⟩, ⟨slot, hslot, hdevice⟩, hformatted⟩, hsize⟩
    rw [← hready]
    split <;> simp_all

/-- A ready volume is one this host can read. -/
theorem Serves.notMem_lostVolumes {h : Host} {d : HostDesiredState} (hd : d.volumeIds.Nodup)
    {v : DesiredVolume} (hv : v ∈ d.volumes) (hs : h.Serves v) :
    v.volumeId ∉ (h.observe d).lostVolumes := by
  obtain ⟨slot, image, hslot, hdevice, -⟩ := hs
  intro hmem
  obtain ⟨o, ho, hid⟩ := List.mem_map.mp hmem
  obtain ⟨hobserved, hlost⟩ := List.mem_filter.mp ho
  obtain ⟨image', app, -, howner, heq⟩ := mem_observeVolumes_iff.mp hobserved
  rw [hid, volumeOwners_of_mem hd h.records hv] at howner
  cases howner
  rw [heq, hid] at hlost
  simp [observeVolume, isServed, hslot, hdevice] at hlost

/-! ### Provisioning one volume -/

theorem alignToSector_spec {sizeBytes : ℕ} (h : sizeBytes + sectorSizeBytes ≤ 2 ^ 63) :
    sizeBytes ≤ alignToSector sizeBytes ∧ alignToSector sizeBytes < 2 ^ 63 := by
  unfold alignToSector sectorSizeBytes at *
  omega

/-- The volume's file can be given its size: a file is never made smaller, and none is as long as
`2 ^ 63` bytes. -/
def CanHold (h : Host) (v : DesiredVolume) : Prop :=
  v.sizeBytes + sectorSizeBytes ≤ 2 ^ 63 ∧
    ∀ image, h.images[v.volumeId]? = some image → image.sizeBytes ≤ alignToSector v.sizeBytes

/-- The volume's file takes the size the document lists: it is no longer than that, rounded up, and
the kernel makes a file of that length. -/
def FileFits (h : Host) (v : DesiredVolume) : Prop :=
  (∀ image, h.images[v.volumeId]? = some image → image.sizeBytes ≤ alignToSector v.sizeBytes) ∧
    alignToSector v.sizeBytes < 2 ^ 63

theorem CanHold.fileFits {h : Host} {v : DesiredVolume} (hv : h.CanHold v) : h.FileFits v :=
  ⟨hv.2, (alignToSector_spec hv.1).2⟩

/-- A file that takes its size is given it. -/
theorem FileFits.ensureDeviceFile_eq {h : Host} {v : DesiredVolume} (hv : h.FileFits v) :
    h.ensureDeviceFile v.volumeId v.sizeBytes = .ok
      { h with
        images := h.images.insert v.volumeId
          { h.images[v.volumeId]?.getD { sizeBytes := 0, formatted := false } with
            sizeBytes := alignToSector v.sizeBytes } } := by
  have hsize : ¬ alignToSector v.sizeBytes <
      (h.images[v.volumeId]?.getD { sizeBytes := 0, formatted := false }).sizeBytes := by
    cases himage : h.images[v.volumeId]? with
    | none => exact Nat.not_lt_zero _
    | some image => exact Nat.not_lt.mpr (hv.1 image himage)
  unfold ensureDeviceFile
  dsimp only
  rw [if_neg hsize, if_neg (Nat.not_le.mpr hv.2)]

/-- A file that does not is left as it is, and the volume refused. -/
theorem exists_refusal_of_not_fileFits {h : Host} {v : DesiredVolume} (hv : ¬ h.FileFits v) :
    ∃ reason, h.ensureDeviceFile v.volumeId v.sizeBytes = .error reason := by
  unfold ensureDeviceFile
  dsimp only
  split
  · exact ⟨_, rfl⟩
  · rename_i hsize
    split
    · exact ⟨_, rfl⟩
    · rename_i hrange
      refine absurd ⟨fun image himage => ?_, Nat.not_le.mp hrange⟩ hv
      rw [himage, Option.getD_some] at hsize
      exact Nat.not_lt.mp hsize

/-- What provisioning a volume leaves where it goes through. -/
structure Provisioned (v : DesiredVolume) (h h' : Host) : Prop where
  only : OnlyVolumes h h'
  slot : ∃ slot, h.allocator.allocate v.appId = some (slot, h'.allocator) ∧
    h'.devices = h.devices.insert slot.slot v.volumeId
  images : h'.images = h.images.insert v.volumeId
    { sizeBytes := alignToSector v.sizeBytes, formatted := true }
  report : ∃ report : ReportedVolume, report.volumeId = v.volumeId ∧ report.state = .ready ∧
    h'.volumeReports = mergeVolumeReports h.volumeReports [report]
  deleted : h'.deletedVolumes = h.deletedVolumes
  checkpoints : h'.checkpoints = h.checkpoints

/-- **A volume is made ready** where its file takes its size and its app can be given a slot. -/
theorem provisioned_of_fileFits {h : Host} {v : DesiredVolume} (hv : h.FileFits v)
    {slot : AppSlot} {allocator : SlotAllocator}
    (hal : h.allocator.allocate v.appId = some (slot, allocator)) :
    Provisioned v h (h.provisionVolume v .ok) := by
  have hfile := hv.ensureDeviceFile_eq
  -- the file is as long as it is to be, and formatting it says so
  have hformatted : (h.images.insert v.volumeId
      { h.images[v.volumeId]?.getD { sizeBytes := 0, formatted := false } with
        sizeBytes := alignToSector v.sizeBytes }).modify v.volumeId ({ · with formatted := true }) =
      h.images.insert v.volumeId
        { sizeBytes := alignToSector v.sizeBytes, formatted := true } := by
    refine ExtTreeMap.ext_getElem? fun x => ?_
    rw [ExtTreeMap.getElem?_modify_ite, ExtTreeMap.getElem?_insert_ite,
      ExtTreeMap.getElem?_insert_ite]
    split <;> rfl
  have hslot : ∀ images, { h with images := images }.slotFor v.appId =
      some (slot, { h with images := images, allocator := allocator }) := fun images => by
    rw [slotFor, hal]
    rfl
  have hprovision : h.provision v .ok =
      ({ h with
          allocator := allocator
          devices := h.devices.insert slot.slot v.volumeId
          images := h.images.insert v.volumeId
            { sizeBytes := alignToSector v.sizeBytes, formatted := true } }, .ok ()) := by
    unfold provision
    rw [hfile]
    dsimp only
    rw [hslot]
    dsimp only [serve]
    rw [hformatted]
  unfold provisionVolume
  rw [hprovision]
  exact
    { only := ⟨rfl, rfl, rfl, rfl, rfl⟩
      slot := ⟨slot, hal, rfl⟩
      images := rfl
      report := ⟨_, rfl, rfl, rfl⟩
      deleted := rfl
      checkpoints := rfl }

theorem provisioned_provisionVolume {h : Host} {v : DesiredVolume} (hv : h.CanHold v)
    {slot : AppSlot} {allocator : SlotAllocator}
    (hal : h.allocator.allocate v.appId = some (slot, allocator)) :
    Provisioned v h (h.provisionVolume v .ok) :=
  provisioned_of_fileFits hv.fileFits hal

/-! ### Reports -/

/-- Nothing on report says that the volume could not be made ready. -/
def NotFailed (h : Host) (volume : VolumeId) : Prop :=
  ∀ r ∈ h.volumeReports, r.volumeId = volume → r.state ≠ .failed

theorem NotFailed.volumeRefusal {h : Host} {volume : VolumeId} (hn : h.NotFailed volume) :
    h.volumeRefusal volume = none := by
  rw [Host.volumeRefusal, Option.map_eq_none_iff, List.find?_eq_none]
  intro r hr hfailed
  rw [Bool.and_eq_true, decide_eq_true_eq, decide_eq_true_eq] at hfailed
  exact hn r hr hfailed.1 hfailed.2

theorem mem_of_mem_mergeVolumeReports {existing updates : List ReportedVolume} {r : ReportedVolume}
    (h : r ∈ mergeVolumeReports existing updates) : r ∈ existing ++ updates := by
  obtain ⟨⟨volume, r'⟩, hmem, rfl⟩ := List.mem_map.mp h
  exact (ExtTreeMap.mem_of_getElem?_indexBy
    (ExtTreeMap.mem_toList_iff_getElem?_eq_some.mp hmem)).1

/-- A report put on record is on record. -/
theorem mem_mergeVolumeReports_self (existing : List ReportedVolume) (report : ReportedVolume) :
    report ∈ mergeVolumeReports existing [report] := by
  refine List.mem_map.mpr ⟨(report.volumeId, report), ?_, rfl⟩
  rw [ExtTreeMap.mem_toList_iff_getElem?_eq_some, ExtTreeMap.indexBy, List.foldl_append,
    List.foldl_cons, List.foldl_nil, ExtTreeMap.getElem?_insert_ite, if_pos rfl]

/-- A report replaces those about its volume. -/
theorem mem_mergeVolumeReports_singleton {existing : List ReportedVolume}
    {report r : ReportedVolume} (h : r ∈ mergeVolumeReports existing [report]) :
    r = report ∨ r ∈ existing ∧ r.volumeId ≠ report.volumeId := by
  obtain ⟨⟨volume, r'⟩, hmem, rfl⟩ := List.mem_map.mp h
  have hfound := ExtTreeMap.mem_toList_iff_getElem?_eq_some.mp hmem
  rw [ExtTreeMap.indexBy, List.foldl_append, List.foldl_cons, List.foldl_nil,
    ExtTreeMap.getElem?_insert_ite] at hfound
  split at hfound
  · exact .inl (Option.some.inj hfound).symm
  · rename_i hne
    obtain ⟨hexisting, hvolume⟩ := ExtTreeMap.mem_of_getElem?_indexBy hfound
    exact .inr ⟨hexisting, fun heq => hne (heq.symm.trans hvolume)⟩

end Host

/-! ### What a document may ask for -/

/-- **A document a host can converge on**: no app or volume is listed twice, no app has two volumes,
every instance names the present volume of its own app, only a volume of an app without an instance
is absent, and no checkpoint is listed as present and as absent. -/
structure HostDesiredState.Consistent (d : HostDesiredState) : Prop where
  apps : d.appIds.Nodup
  volumes : d.volumeIds.Nodup
  owners : (d.volumes.map (·.appId)).Nodup
  instances : ∀ i ∈ d.instances, ∃ v ∈ d.volumes,
    v.volumeId = i.volumeId ∧ v.appId = i.appId ∧ v.desiredState = .present
  absent : ∀ v ∈ d.volumes, v.desiredState = .absent → v.appId ∉ d.appIds
  checkpoints : ∀ a ∈ d.checkpoints, ∀ b ∈ d.checkpoints, a.checkpointId = b.checkpointId →
    a.desiredState = b.desiredState

namespace Host

/-- No slot is held twice, and there is one for every app a volume is listed for beside those that
hold one. -/
structure Laid (d : HostDesiredState) (h : Host) : Prop where
  injective : h.allocator.Injective
  enough : ∃ apps, h.allocator.Suffices apps ∧
    ∀ v ∈ d.volumes, v.desiredState = .present → v.appId ∈ apps

/-! ### Provisioning the volumes of a pass -/

namespace Provisioned

variable {d : HostDesiredState} {v u : DesiredVolume} {h h' : Host}

theorem laid (hp : Provisioned v h h') (hl : h.Laid d) (hv : v ∈ d.volumes)
    (hpresent : v.desiredState = .present) : h'.Laid d := by
  obtain ⟨slot, hal, -⟩ := hp.slot
  obtain ⟨apps, hsuffices, happs⟩ := hl.enough
  exact ⟨hl.injective.allocate hal, apps, hsuffices.allocate (happs v hv hpresent) hal, happs⟩

theorem serves (hp : Provisioned v h h') (hv : h.CanHold v) : h'.Serves v := by
  obtain ⟨slot, hal, hdevices⟩ := hp.slot
  have hslot : h'.slotOf v.appId = some slot.slot := (SlotAllocator.allocate_spec hal).2.2.1
  refine ⟨slot.slot, { sizeBytes := alignToSector v.sizeBytes, formatted := true }, hslot, ?_, ?_,
    rfl, (alignToSector_spec hv.1).1⟩
  · rw [hdevices, ExtTreeMap.getElem?_insert_ite, if_pos rfl]
  · rw [hp.images, ExtTreeMap.getElem?_insert_ite, if_pos rfl]

/-- A volume of another app that is ready stays ready. -/
theorem serves_of_ne (hp : Provisioned v h h') (hl : h'.allocator.Injective)
    (happ : u.appId ≠ v.appId) (hvolume : u.volumeId ≠ v.volumeId) (hs : h.Serves u) :
    h'.Serves u := by
  obtain ⟨slot, hal, hdevices⟩ := hp.slot
  obtain ⟨-, -, hheld, hother, -⟩ := SlotAllocator.allocate_spec hal
  obtain ⟨slot', image, hslot', hdevice, himage, hformatted, hsize⟩ := hs
  have hkept : h'.slotOf u.appId = some slot' := (hother u.appId happ).trans hslot'
  have hne : slot.slot ≠ slot' := by
    rintro rfl
    exact happ (hl u.appId v.appId slot.slot hkept hheld)
  refine ⟨slot', image, hkept, ?_, ?_, hformatted, hsize⟩
  · rw [hdevices, ExtTreeMap.getElem?_insert_ite, if_neg hne, hdevice]
  · rw [hp.images, ExtTreeMap.getElem?_insert_ite, if_neg hvolume.symm, himage]

/-- A file that could be given its size still can be. -/
theorem canHold (hp : Provisioned v h h') (hsame : u.volumeId = v.volumeId → u = v)
    (hu : h.CanHold u) : h'.CanHold u := by
  refine ⟨hu.1, fun image himage => ?_⟩
  rw [hp.images, ExtTreeMap.getElem?_insert_ite] at himage
  split at himage
  · rename_i heq
    rw [← Option.some.inj himage, hsame heq.symm]
  · exact hu.2 image himage

theorem notFailed (hp : Provisioned v h h') {volume : VolumeId}
    (hn : volume = v.volumeId ∨ h.NotFailed volume) : h'.NotFailed volume := by
  obtain ⟨report, hid, hready, hreports⟩ := hp.report
  intro r hr hvolume hfailed
  rw [hreports] at hr
  rcases mem_mergeVolumeReports_singleton hr with rfl | ⟨hold, hne⟩
  · rw [hready] at hfailed
    cases hfailed
  · rcases hn with rfl | hn
    · exact hne (hvolume.trans hid.symm)
    · exact hn r hold hvolume hfailed

end Provisioned

/-- What the volumes provisioned in a pass leave: each of them ready and none reported failed, what
was ready still ready, and the files of the others what they were. -/
structure AllProvisioned (d : HostDesiredState) (l : List DesiredVolume) (h h' : Host) : Prop where
  only : OnlyVolumes h h'
  laid : h'.Laid d
  serves : ∀ u ∈ d.volumes, u ∈ l ∨ h.Serves u → h'.Serves u
  notFailed : ∀ u ∈ d.volumes, u ∈ l ∨ h.NotFailed u.volumeId → h'.NotFailed u.volumeId
  images : ∀ volume, volume ∉ l.map (·.volumeId) → h'.images[volume]? = h.images[volume]?
  deleted : h'.deletedVolumes = h.deletedVolumes
  checkpoints : h'.checkpoints = h.checkpoints

/-- **The volumes of a pass are made ready**, one after the other. -/
theorem allProvisioned_foldl {d : HostDesiredState} (hd : d.Consistent) {l : List DesiredVolume}
    (hlisted : ∀ v ∈ l, v ∈ d.volumes ∧ v.desiredState = .present) {h : Host} (hl : h.Laid d)
    (hhold : ∀ v ∈ l, h.CanHold v) :
    AllProvisioned d l h (l.foldl (fun h v => h.provisionVolume v .ok) h) := by
  induction l generalizing h with
  | nil =>
    refine ⟨.refl h, hl, fun u _ hu => hu.resolve_left List.not_mem_nil,
      fun u _ hu => hu.resolve_left List.not_mem_nil, fun _ _ => rfl, rfl, rfl⟩
  | cons v l ih =>
    obtain ⟨hv, hpresent⟩ := hlisted v List.mem_cons_self
    obtain ⟨apps, hsuffices, happs⟩ := hl.enough
    obtain ⟨slot, allocator, hal⟩ := hsuffices.exists_allocate (happs v hv hpresent)
    have hvhold := hhold v List.mem_cons_self
    have hp := provisioned_provisionVolume hvhold hal
    -- no other volume has this one's id, and none its app
    have hvolume : ∀ u ∈ d.volumes, u.volumeId = v.volumeId → u = v := fun u hu heq =>
      List.inj_on_of_nodup_map hd.volumes hu hv heq
    have happ : ∀ u ∈ d.volumes, u.appId = v.appId → u = v := fun u hu heq =>
      List.inj_on_of_nodup_map hd.owners hu hv heq
    have hlaid := hp.laid hl hv hpresent
    have hrest := ih (fun u hu => hlisted u (List.mem_cons_of_mem v hu)) hlaid fun u hu =>
      have hu := List.mem_cons_of_mem v hu
      hp.canHold (hvolume u (hlisted u hu).1) (hhold u hu)
    rw [List.foldl_cons]
    refine ⟨hp.only.trans hrest.only, hrest.laid, fun u hu hcase => ?_, fun u hu hcase => ?_,
      fun volume hnot => ?_, hrest.deleted.trans hp.deleted,
      hrest.checkpoints.trans hp.checkpoints⟩
    · refine hrest.serves u hu ?_
      by_cases heq : u = v
      · rw [heq]
        exact .inr (hp.serves hvhold)
      · refine hcase.imp (fun hmem => (List.mem_cons.mp hmem).resolve_left heq) fun hs => ?_
        exact hp.serves_of_ne hlaid.injective (fun h => heq (happ u hu h))
          (fun h => heq (hvolume u hu h)) hs
    · refine hrest.notFailed u hu ?_
      by_cases heq : u = v
      · exact .inr (hp.notFailed (.inl (congrArg DesiredVolume.volumeId heq)))
      · exact hcase.imp (fun hmem => (List.mem_cons.mp hmem).resolve_left heq)
          fun hn => hp.notFailed (.inr hn)
    · rw [List.map_cons, List.mem_cons, not_or] at hnot
      rw [hrest.images volume hnot.2, hp.images, ExtTreeMap.getElem?_insert_ite,
        if_neg (Ne.symm hnot.1)]

/-! ### The volumes of a pass -/

/-- The slots, files, devices, reports and checkpoints are those before. -/
structure OnlyInstances (h h' : Host) : Prop where
  allocator : h'.allocator = h.allocator
  images : h'.images = h.images
  devices : h'.devices = h.devices
  volumeReports : h'.volumeReports = h.volumeReports
  deletedVolumes : h'.deletedVolumes = h.deletedVolumes
  checkpoints : h'.checkpoints = h.checkpoints
  isolated : h'.isolated = h.isolated
  config : h'.config = h.config

namespace OnlyInstances

variable {h h' h'' : Host}

protected theorem refl (h : Host) : OnlyInstances h h := ⟨rfl, rfl, rfl, rfl, rfl, rfl, rfl, rfl⟩

protected theorem trans (h₁ : OnlyInstances h h') (h₂ : OnlyInstances h' h'') :
    OnlyInstances h h'' :=
  ⟨h₂.allocator.trans h₁.allocator, h₂.images.trans h₁.images, h₂.devices.trans h₁.devices,
    h₂.volumeReports.trans h₁.volumeReports, h₂.deletedVolumes.trans h₁.deletedVolumes,
    h₂.checkpoints.trans h₁.checkpoints, h₂.isolated.trans h₁.isolated, h₂.config.trans h₁.config⟩

theorem slotOf (hi : OnlyInstances h h') (app : AppId) : h'.slotOf app = h.slotOf app := by
  rw [Host.slotOf, Host.slotOf, hi.allocator]

theorem serves (hi : OnlyInstances h h') {v : DesiredVolume} (hs : h.Serves v) : h'.Serves v := by
  rw [Serves, hi.slotOf, hi.devices, hi.images]
  exact hs

theorem laid (hi : OnlyInstances h h') {d : HostDesiredState} (hl : h.Laid d) : h'.Laid d := by
  obtain ⟨hinjective, henough⟩ := hl
  rw [← hi.allocator] at hinjective henough
  exact ⟨hinjective, henough⟩

theorem notFailed (hi : OnlyInstances h h') {volume : VolumeId} (hn : h.NotFailed volume) :
    h'.NotFailed volume := by
  rw [NotFailed, hi.volumeReports]
  exact hn

end OnlyInstances

/-- A volume this host no longer holds is on report as deleted. -/
def DeletedOnReport (h : Host) : Prop :=
  ∀ (volume : VolumeId) (r : ReportedVolume), h.deletedVolumes[volume]? = some r →
    r.state = .deleted

end Host

/-- A listed volume is ready, or is provisioned. -/
theorem planVolume_of_present (d : HostDesiredState) (o : ObservedState) {v : DesiredVolume}
    (hpresent : v.desiredState = .present) :
    planVolume d o v = .none v.volumeId ∨ planVolume d o v = .provision v := by
  rw [planVolume, hpresent]
  dsimp only
  split
  · exact .inl rfl
  · exact .inr rfl

/-- What is provisioned is a listed volume. -/
theorem eq_of_planVolume_eq_provision {d : HostDesiredState} {o : ObservedState}
    {v desired : DesiredVolume} (h : planVolume d o v = .provision desired) :
    v = desired ∧ v.desiredState = .present := by
  unfold planVolume at h
  dsimp only at h
  split at h
  · repeat' split at h
    all_goals cases h
  · rename_i hpresent
    split at h
    · cases h
    · cases h
      exact ⟨rfl, hpresent⟩

namespace Host

theorem mem_provisions_iff {d : HostDesiredState} {o : ObservedState} {trigger : Trigger}
    {v : DesiredVolume} :
    v ∈ provisions (planReconcile d o) o trigger ↔
      v ∈ d.volumes ∧ planVolume d o v = .provision v ∧
        ¬ (trigger = .tick ∧ isBare o v.volumeId = true) := by
  rw [provisions, List.mem_filterMap]
  simp only [planReconcile, planVolumes, List.mem_append, List.mem_map]
  constructor
  · rintro ⟨p, ⟨w, hw, rfl⟩ | ⟨c, -, rfl⟩, hp⟩
    · split at hp
      · rename_i desired heq
        obtain ⟨rfl, -⟩ := eq_of_planVolume_eq_provision heq
        split at hp
        · cases hp
        · rename_i hgo
          cases hp
          exact ⟨hw, heq, hgo⟩
      · cases hp
    · cases hp
  · rintro ⟨hv, hplan, hgo⟩
    refine ⟨.provision v, .inl ⟨v, hv, hplan⟩, ?_⟩
    exact if_neg hgo

/-- A volume observed ready is reported ready. -/
private theorem Serves.state_toReportedVolume {h : Host} {d : HostDesiredState}
    (hd : d.volumeIds.Nodup) {v : DesiredVolume} (hv : v ∈ d.volumes) (hs : h.Serves v)
    {o : ObservedVolume} (ho : o ∈ (h.observe d).volumes) (hid : o.volumeId = v.volumeId)
    (refusal : Option String) : (toReportedVolume o refusal).state = .ready := by
  obtain ⟨slot, image, hslot, hdevice, himage, hformatted, -⟩ := hs
  obtain ⟨image', app, himage', howner, heq⟩ := mem_observeVolumes_iff.mp ho
  rw [hid, volumeOwners_of_mem hd h.records hv] at howner
  rw [hid, himage] at himage'
  cases howner
  cases himage'
  have hserved : h.isServed v.volumeId v.appId = true := by
    simp [isServed, hslot, hdevice]
  rw [heq, hid]
  simp [toReportedVolume, observeVolume, hserved, hformatted]

/-- What the volumes of a pass leave. -/
structure VolumesReady (d : HostDesiredState) (h h' : Host) : Prop where
  only : OnlyVolumes h h'
  laid : h'.Laid d
  serves : ∀ v ∈ d.volumes, v.desiredState = .present → h'.Serves v
  notFailed : ∀ v ∈ d.volumes, v.desiredState = .present → h'.NotFailed v.volumeId
  images : ∀ volume, (∀ v ∈ d.volumes, v.desiredState = .present → v.volumeId ≠ volume) →
    h'.images[volume]? = h.images[volume]?
  deleted : h.DeletedOnReport → h'.DeletedOnReport
  checkpoints : h'.checkpoints = h.checkpoints

/-- **Every listed volume is ready** once a pass has provisioned, and none is reported failed. A
tick leaves a bare volume as it is. -/
theorem volumesReady_applyVolumes {d : HostDesiredState} (hd : d.Consistent) {h₀ h : Host}
    (hsame : OnlyInstances h₀ h) (hl : h₀.Laid d) (hdeleted : h₀.DeletedOnReport)
    {trigger : Trigger}
    (hready : ∀ v ∈ d.volumes, v.desiredState = .present → h₀.Serves v ∨
      h₀.CanHold v ∧ (trigger = .tick → isBare (h₀.observe d) v.volumeId = false)) :
    VolumesReady d h (h.applyVolumes (planReconcile d (h₀.observe d)) (h₀.observe d) d trigger
      fun _ => .ok) := by
  have hplanned : ∀ v ∈ provisions (planReconcile d (h₀.observe d)) (h₀.observe d) trigger,
      v ∈ d.volumes ∧ v.desiredState = .present ∧ ¬ h₀.Serves v := by
    intro v hv
    obtain ⟨hmem, hplan, -⟩ := mem_provisions_iff.mp hv
    obtain ⟨-, hpresent⟩ := eq_of_planVolume_eq_provision hplan
    refine ⟨hmem, hpresent, fun hs => ?_⟩
    rw [(planVolume_eq_none_iff h₀ hd.volumes hmem hpresent).mpr hs] at hplan
    cases hplan
  have hlaid := hsame.laid hl
  have hall := allProvisioned_foldl hd (fun v hv => ⟨(hplanned v hv).1, (hplanned v hv).2.1⟩)
    (h := { h with
      deletedVolumes := h.deletedVolumes.filter fun volume _ => volume ∈ d.volumeIds
      volumeReports := mergeVolumeReports
        ((h₀.observe d).volumes.map fun v =>
          toReportedVolume v (lastRefusals h.volumeReports)[v.volumeId]?)
        ((h.deletedVolumes.filter fun volume _ => volume ∈ d.volumeIds).toList.map (·.2)) })
    ⟨hlaid.injective, hlaid.enough⟩ fun v hv => by
      obtain ⟨hmem, hpresent, hnot⟩ := hplanned v hv
      have hhold := ((hready v hmem hpresent).resolve_left hnot).1
      rw [CanHold, ← hsame.images] at hhold
      exact hhold
  -- a listed volume is provisioned, or it is ready already
  have hcase : ∀ v ∈ d.volumes, v.desiredState = .present →
      v ∈ provisions (planReconcile d (h₀.observe d)) (h₀.observe d) trigger ∨ h₀.Serves v := by
    intro v hv hpresent
    rcases planVolume_of_present d (h₀.observe d) hpresent with hplan | hplan
    · exact .inr ((planVolume_eq_none_iff h₀ hd.volumes hv hpresent).mp hplan)
    · rcases hready v hv hpresent with hs | ⟨-, hbare⟩
      · exact .inr hs
      · refine .inl (mem_provisions_iff.mpr ⟨hv, hplan, fun ⟨htick, hb⟩ => ?_⟩)
        rw [hbare htick] at hb
        cases hb
  have hfilter : ∀ (volume : VolumeId) (r : ReportedVolume),
      (h.deletedVolumes.filter fun volume _ => volume ∈ d.volumeIds)[volume]? = some r →
      r.state = .deleted := by
    intro volume r hr
    rw [ExtTreeMap.getElem?_filter', Option.filter_eq_some_iff, hsame.deletedVolumes] at hr
    exact hdeleted volume r hr.1
  unfold applyVolumes
  refine ⟨⟨hall.only.records, hall.only.vms, hall.only.snapshots, hall.only.boots,
    hall.only.config⟩, hall.laid,
    fun v hv hpresent => ?_, fun v hv hpresent => ?_, fun volume hnot => ?_, fun _ => ?_, ?_⟩
  · exact hall.serves v hv ((hcase v hv hpresent).imp_right fun hs => hsame.serves hs)
  · refine hall.notFailed v hv ((hcase v hv hpresent).imp_right fun hs r hr hid hfailed => ?_)
    rcases List.mem_append.mp (mem_of_mem_mergeVolumeReports hr) with hr | hr
    · obtain ⟨o, ho, rfl⟩ := List.mem_map.mp hr
      have hstate := hs.state_toReportedVolume hd.volumes hv ho hid
        (lastRefusals h.volumeReports)[o.volumeId]?
      rw [hstate] at hfailed
      cases hfailed
    · obtain ⟨⟨volume, r'⟩, hmem, rfl⟩ := List.mem_map.mp hr
      rw [hfilter volume r' (ExtTreeMap.mem_toList_iff_getElem?_eq_some.mp hmem)] at hfailed
      cases hfailed
  · refine hall.images volume fun hmem => ?_
    obtain ⟨v, hv, hid⟩ := List.mem_map.mp hmem
    exact hnot v (hplanned v hv).1 (hplanned v hv).2.1 hid
  · intro volume r hr
    have hkept := congrArg (fun m : ExtTreeMap VolumeId ReportedVolume => m[volume]?) hall.deleted
    exact hfilter volume r (hkept.symm.trans hr)
  · exact hall.checkpoints

/-! ### The instances of a pass -/

/-- Every volume listed as present is ready. -/
def AllServed (d : HostDesiredState) (h : Host) : Prop :=
  ∀ v ∈ d.volumes, v.desiredState = .present → h.Serves v

/-- The app of an instance holds a slot whose device serves the instance's volume. -/
theorem AllServed.exists_slot {d : HostDesiredState} (hd : d.Consistent) {h : Host}
    (hs : h.AllServed d) {i : DesiredInstance} (hi : i ∈ d.instances) :
    ∃ slot image, h.slotOf i.appId = some slot ∧ h.devices[slot]? = some i.volumeId ∧
      h.images[i.volumeId]? = some image := by
  obtain ⟨v, hv, hvolume, happ, hpresent⟩ := hd.instances i hi
  obtain ⟨slot, image, hslot, hdevice, himage, -⟩ := hs v hv hpresent
  rw [happ] at hslot
  rw [hvolume] at hdevice himage
  exact ⟨slot, image, hslot, hdevice, himage⟩

/-- An app that holds a slot is handed that one, and nothing changes. -/
theorem slotFor_of_held {h : Host} {app : AppId} {slot : ℕ} (hs : h.slotOf app = some slot) :
    h.slotFor app = some (describeSlot slot app, h) := by
  rw [slotFor, SlotAllocator.allocate_of_held hs]
  rfl

/-- Attaching a volume its device serves already changes nothing. -/
theorem attach_of_served {h : Host} {app : AppId} {volume : VolumeId} {slot : ℕ}
    {image : VolumeImage} (hslot : h.slotOf app = some slot)
    (hdevice : h.devices[slot]? = some volume) (himage : h.images[volume]? = some image) :
    h.attach volume app (.ok ()) = .ok h := by
  have hdevices : h.devices.insert slot volume = h.devices := by
    refine ExtTreeMap.ext_getElem? fun x => ?_
    rw [ExtTreeMap.getElem?_insert_ite]
    split
    · rename_i heq
      rw [← heq, hdevice]
    · rfl
  unfold attach
  rw [himage, hslot]
  dsimp only [serve]
  rw [hdevices]

namespace OnlyInstances

theorem syncDesired (h : Host) (d : HostDesiredState) : OnlyInstances h (h.syncDesired d) := by
  refine Frame.foldl_rel OnlyInstances.refl OnlyInstances.trans d.instances (fun h i _ => ?_) h
  exact ⟨rfl, rfl, rfl, rfl, rfl, rfl, rfl, rfl⟩

theorem applyStops (h : Host) (plan : ReconcilePlan) : OnlyInstances h (h.applyStops plan) := by
  refine Frame.foldl_rel OnlyInstances.refl OnlyInstances.trans plan.instances (fun h p _ => ?_) h
  cases p <;> exact ⟨rfl, rfl, rfl, rfl, rfl, rfl, rfl, rfl⟩

/-- A loop over operations that leave the storage alone as long as every volume is ready. -/
theorem foldl_of_served {ι : Type} {d : HostDesiredState} {f : Host → ι → Host} {l : List ι}
    (hf : ∀ h, ∀ x ∈ l, h.AllServed d → OnlyInstances h (f h x)) {h : Host}
    (hs : h.AllServed d) : OnlyInstances h (l.foldl f h) := by
  induction l generalizing h with
  | nil => exact .refl h
  | cons x l ih =>
    have hx := hf h x List.mem_cons_self hs
    refine hx.trans (ih (fun h y hy => hf h y (List.mem_cons_of_mem x hy)) fun v hv hpresent => ?_)
    exact hx.serves (hs v hv hpresent)

theorem sleepInstance {h : Host} {desired : DesiredInstance} {slot : ℕ}
    (hslot : h.slotOf desired.appId = some slot) : OnlyInstances h (h.sleepInstance desired) := by
  unfold Host.sleepInstance
  rw [slotFor_of_held hslot]
  exact ⟨rfl, rfl, rfl, rfl, rfl, rfl, rfl, rfl⟩

theorem holdInstance {h : Host} {desired : DesiredInstance} {slot : ℕ}
    (hslot : h.slotOf desired.appId = some slot) : OnlyInstances h (h.holdInstance desired) := by
  unfold Host.holdInstance
  rw [slotFor_of_held hslot]
  exact ⟨rfl, rfl, rfl, rfl, rfl, rfl, rfl, rfl⟩

end OnlyInstances

end Host

/-- The instance an action is to leave a record of. -/
def InstancePlan.desired? : InstancePlan → Option DesiredInstance
  | start desired | replace desired | recover desired | sleep desired | hold desired =>
    some desired
  | _ => Option.none

/-- What an action leaves a record of is the instance it is planned for. -/
theorem desired_planInstance {wanted desired : DesiredInstance} {current : Option ObservedInstance}
    {volumeLost : Bool} (h : (planInstance wanted current volumeLost).desired? = some desired) :
    desired = wanted := by
  rcases present_or_absent current with ⟨c, rfl, hp⟩ | ⟨hnone, -⟩
  · rw [planInstance_of_present wanted hp, planPresentInstance] at h
    revert h
    repeat' split
    all_goals
      intro h
      cases h
      try rfl
  · rw [planInstance_of_absent wanted hnone] at h
    revert h
    split
    all_goals
      intro h
      cases h
      rfl

namespace Host

/-- What a pass leaves a record of is an instance of the document. -/
theorem mem_instances_of_desired {h : Host} {d : HostDesiredState} {p : InstancePlan}
    (hp : p ∈ (planReconcile d (h.observe d)).instances) {desired : DesiredInstance}
    (hdesired : p.desired? = some desired) : desired ∈ d.instances := by
  rcases (mem_planInstances_iff h d p).mp hp with ⟨wanted, hw, rfl⟩ | ⟨app, -, -, rfl⟩
  · rw [desired_planInstance hdesired]
    exact hw
  · unfold planUnnamed at hdesired
    split at hdesired <;> cases hdesired

/-- The sleeps and holds of a pass leave the storage alone. -/
theorem OnlyInstances.sleepsAndHolds {d : HostDesiredState} (hd : d.Consistent) {h₀ h : Host}
    (hs : h.AllServed d) :
    OnlyInstances h ((h.applySleeps (planReconcile d (h₀.observe d))).applyHolds
      (planReconcile d (h₀.observe d))) := by
  have hsleeps : OnlyInstances h (h.applySleeps (planReconcile d (h₀.observe d))) := by
    refine OnlyInstances.foldl_of_served (fun h p hp hs => ?_) hs
    cases p with
    | sleep desired =>
      obtain ⟨slot, -, hslot, -⟩ := hs.exists_slot hd (mem_instances_of_desired hp rfl)
      exact .sleepInstance hslot
    | _ => exact .refl h
  have hserved : (h.applySleeps (planReconcile d (h₀.observe d))).AllServed d :=
    fun v hv hpresent => hsleeps.serves (hs v hv hpresent)
  refine hsleeps.trans (OnlyInstances.foldl_of_served (fun h p hp hs => ?_) hserved)
  cases p with
  | hold desired =>
    obtain ⟨slot, -, hslot, -⟩ := hs.exists_slot hd (mem_instances_of_desired hp rfl)
    exact .holdInstance hslot
  | _ => exact .refl h

/-! ### Taking volumes away -/

/-- Taking down the device of another app's slot leaves a ready volume ready. -/
theorem Serves.takeDown {h : Host} {v : DesiredVolume} (hs : h.Serves v)
    (hl : h.allocator.Injective) {app : AppId} (happ : v.appId ≠ app) :
    (h.takeDown app).Serves v := by
  unfold Host.takeDown
  split
  · rename_i slot hslot
    obtain ⟨held, image, hheld, hdevice, himage, hformatted, hsize⟩ := hs
    have hne : slot ≠ held := by
      rintro rfl
      exact happ (hl v.appId app slot hheld hslot)
    refine ⟨held, image, hheld, ?_, himage, hformatted, hsize⟩
    rw [ExtTreeMap.getElem?_erase_ite, if_neg hne, hdevice]
  · exact hs

theorem Serves.giveBackSlot {h : Host} {v : DesiredVolume} (hs : h.Serves v) {app : AppId}
    (happ : v.appId ≠ app) : (h.giveBackSlot app).Serves v := by
  obtain ⟨held, image, hheld, hrest⟩ := hs
  refine ⟨held, image, ?_, hrest⟩
  rw [slotOf, Host.giveBackSlot, SlotAllocator.slotOf_release, if_neg (Ne.symm happ)]
  exact hheld

theorem allocator_takeDown (h : Host) (app : AppId) : (h.takeDown app).allocator = h.allocator := by
  unfold takeDown
  split <;> rfl

theorem images_takeDown (h : Host) (app : AppId) : (h.takeDown app).images = h.images := by
  unfold takeDown
  split <;> rfl

theorem deletedVolumes_takeDown (h : Host) (app : AppId) :
    (h.takeDown app).deletedVolumes = h.deletedVolumes := by
  unfold takeDown
  split <;> rfl

theorem checkpoints_takeDown (h : Host) (app : AppId) :
    (h.takeDown app).checkpoints = h.checkpoints := by
  unfold takeDown
  split <;> rfl

theorem Laid.giveBackSlot {d : HostDesiredState} {h : Host} (hl : h.Laid d) (app : AppId) :
    (h.giveBackSlot app).Laid d := by
  obtain ⟨apps, hsuffices, happs⟩ := hl.enough
  exact ⟨hl.injective.release app, apps, hsuffices.release app, happs⟩

end Host

/-- The action takes away no volume listed as present, and nothing of its app. -/
def VolumePlan.Spares (d : HostDesiredState) : VolumePlan → Prop
  | teardown desired => ∀ v ∈ d.volumes, v.desiredState = .present →
      v.appId ≠ desired.appId ∧ v.volumeId ≠ desired.volumeId
  | detach _ app => ∀ v ∈ d.volumes, v.desiredState = .present → v.appId ≠ app
  | _ => True

namespace Host

/-- What taking volumes away keeps: the slots and the volumes listed as present, and that a file
that is gone is gone. -/
structure TakenAway (d : HostDesiredState) (h h' : Host) : Prop where
  only : OnlyVolumes h h'
  laid : h.Laid d → h'.Laid d
  served : h.Laid d → h.AllServed d → h'.AllServed d
  images : ∀ volume : VolumeId, h.images[volume]? = none → h'.images[volume]? = none
  deleted : h.DeletedOnReport → h'.DeletedOnReport
  checkpoints : h'.checkpoints = h.checkpoints

namespace TakenAway

variable {d : HostDesiredState} {h h' h'' : Host}

protected theorem refl (h : Host) : TakenAway d h h :=
  ⟨.refl h, id, fun _ => id, fun _ => id, id, rfl⟩

protected theorem trans (h₁ : TakenAway d h h') (h₂ : TakenAway d h' h'') : TakenAway d h h'' where
  only := h₁.only.trans h₂.only
  laid hl := h₂.laid (h₁.laid hl)
  served hl hs := h₂.served (h₁.laid hl) (h₁.served hl hs)
  images volume hnone := h₂.images volume (h₁.images volume hnone)
  deleted hd := h₂.deleted (h₁.deleted hd)
  checkpoints := h₂.checkpoints.trans h₁.checkpoints

/-- The device of an app goes, and then its slot. -/
theorem takeDown_giveBackSlot {app : AppId}
    (happ : ∀ v ∈ d.volumes, v.desiredState = .present → v.appId ≠ app) :
    TakenAway d h ((h.takeDown app).giveBackSlot app) := by
  have hlaid : h.Laid d → (h.takeDown app).Laid d := fun hl => by
    obtain ⟨hinjective, henough⟩ := hl
    rw [← allocator_takeDown h app] at hinjective henough
    exact ⟨hinjective, henough⟩
  refine ⟨(OnlyVolumes.takeDown h app).trans ⟨rfl, rfl, rfl, rfl, rfl⟩,
    fun hl => (hlaid hl).giveBackSlot app, fun hl hs v hv hpresent => ?_, fun volume hnone => ?_,
    fun hdeleted volume r hr => ?_, checkpoints_takeDown h app⟩
  · have hne := happ v hv hpresent
    exact ((hs v hv hpresent).takeDown hl.injective hne).giveBackSlot hne
  · rw [giveBackSlot, images_takeDown]
    exact hnone
  · rw [giveBackSlot, deletedVolumes_takeDown] at hr
    exact hdeleted volume r hr

/-- A file that is not of a volume listed as present goes. -/
theorem eraseImage {volume : VolumeId}
    (hvolume : ∀ v ∈ d.volumes, v.desiredState = .present → v.volumeId ≠ volume) :
    TakenAway d h { h with images := h.images.erase volume } := by
  refine ⟨⟨rfl, rfl, rfl, rfl, rfl⟩, fun hl => ⟨hl.injective, hl.enough⟩,
    fun _ hs v hv hpresent => ?_, fun gone hnone => ?_, id, rfl⟩
  · obtain ⟨slot, image, hslot, hdevice, himage, hrest⟩ := hs v hv hpresent
    refine ⟨slot, image, hslot, hdevice, ?_, hrest⟩
    rw [ExtTreeMap.getElem?_erase_ite, if_neg (Ne.symm (hvolume v hv hpresent)), himage]
  · rw [ExtTreeMap.getElem?_erase_ite, hnone, ite_self]

/-- What is reported moves nothing. -/
theorem of_reports {reports : List ReportedVolume} {volumes : ExtTreeMap VolumeId ReportedVolume}
    (hdeleted : h.DeletedOnReport → { h with deletedVolumes := volumes }.DeletedOnReport) :
    TakenAway d h { h with volumeReports := reports, deletedVolumes := volumes } :=
  ⟨⟨rfl, rfl, rfl, rfl, rfl⟩, fun hl => ⟨hl.injective, hl.enough⟩, fun _ hs => hs, fun _ => id,
    hdeleted, rfl⟩

end TakenAway

/-- A volume torn down leaves the volumes listed as present ready, and its file is gone. -/
theorem takenAway_tearDownVolume {d : HostDesiredState} (h : Host) {desired : DesiredVolume}
    (hspares : (VolumePlan.teardown desired).Spares d) :
    TakenAway d h (h.tearDownVolume desired true) ∧
      (h.tearDownVolume desired true).images[desired.volumeId]? = none := by
  have hslot : TakenAway d h ((h.takeDown desired.appId).giveBackSlot desired.appId) :=
    .takeDown_giveBackSlot fun v hv hpresent => (hspares v hv hpresent).1
  have hfile := hslot.trans (@TakenAway.eraseImage _ _ desired.volumeId
    fun v hv hpresent => (hspares v hv hpresent).2)
  constructor
  · refine hfile.trans (.of_reports fun hdeleted volume r hr => ?_)
    replace hr : (_ : ExtTreeMap VolumeId ReportedVolume)[volume]? = some r := hr
    rw [ExtTreeMap.getElem?_insert_ite] at hr
    split at hr
    · cases hr
      rfl
    · exact hdeleted volume r hr
  · show ((h.takeDown desired.appId).images.erase desired.volumeId)[desired.volumeId]? = none
    rw [ExtTreeMap.getElem?_erase_ite, if_pos rfl]

/-- Every volume the adapters are asked to take away goes. -/
def TeardownAnswers.succeed : TeardownAnswers where
  deleted _ := true
  detached _ := true

/-- **Taking volumes away leaves those listed as present ready**, and every file that is to go is
gone. -/
theorem takenAway_applyTeardowns {d : HostDesiredState} {plan : ReconcilePlan}
    (hspares : ∀ p ∈ plan.volumes, p.Spares d) (h : Host) :
    TakenAway d h (h.applyTeardowns plan .succeed) ∧
      ∀ desired, .teardown desired ∈ plan.volumes →
        (h.applyTeardowns plan .succeed).images[desired.volumeId]? = none := by
  have hstep : ∀ h : Host, ∀ p ∈ plan.volumes, TakenAway d h (applyTeardown .succeed h p) := by
    intro h p hp
    cases p with
    | teardown desired => exact (takenAway_tearDownVolume h (hspares _ hp)).1
    | detach volume app =>
      exact (TakenAway.takeDown_giveBackSlot (hspares _ hp)).trans (.of_reports id)
    | provision desired | blocked desired blockedBy | none volume => exact .refl h
  refine ⟨Frame.foldl_rel TakenAway.refl TakenAway.trans plan.volumes hstep h,
    fun desired hmem => ?_⟩
  obtain ⟨before, after, hsplit⟩ := List.append_of_mem hmem
  have hgone := (takenAway_tearDownVolume (before.foldl (applyTeardown .succeed) h)
    (hspares _ hmem)).2
  have hafter : TakenAway d ((before.foldl (applyTeardown .succeed) h).tearDownVolume desired true)
      (after.foldl (applyTeardown .succeed)
        ((before.foldl (applyTeardown .succeed) h).tearDownVolume desired true)) := by
    refine Frame.foldl_rel TakenAway.refl TakenAway.trans after (fun h p hp => hstep h p ?_) _
    rw [hsplit]
    exact List.mem_append_right _ (List.mem_cons_of_mem _ hp)
  rw [applyTeardowns, hsplit, List.foldl_append, List.foldl_cons]
  exact hafter.images _ hgone

/-! ### Checkpoints -/

end Host

/-- What is done about one checkpoint the document lists. -/
def planCheckpoint (o : ObservedState) (wanted : DesiredCheckpoint) : CheckpointPlan :=
  match wanted.desiredState,
      decide (wanted.checkpointId ∈ o.checkpoints.map (·.checkpointId)) with
  | .present, true => .none wanted.checkpointId
  | .present, false => .create wanted
  | .absent, true => .delete wanted
  | .absent, false => .none wanted.checkpointId

theorem planCheckpoints_eq (d : HostDesiredState) (o : ObservedState) :
    planCheckpoints d o = d.checkpoints.map (planCheckpoint o) := rfl

namespace Host

/-- The checkpoint is there exactly where it is listed as present. -/
def HasCheckpoint (h : Host) (c : DesiredCheckpoint) : Prop :=
  c.checkpointId ∈ h.checkpoints ↔ c.desiredState = .present

theorem mem_observeCheckpoints {h : Host} {d : HostDesiredState} {c : DesiredCheckpoint}
    (hc : c ∈ d.checkpoints) :
    c.checkpointId ∈ (h.observe d).checkpoints.map (·.checkpointId) ↔
      c.checkpointId ∈ h.checkpoints := by
  simp only [observe, observeCheckpoints, List.map_map, List.mem_map, List.mem_filter,
    Function.comp_def]
  constructor
  · rintro ⟨c', ⟨-, hmem⟩, hid⟩
    rw [← hid]
    exact of_decide_eq_true hmem
  · intro hmem
    exact ⟨c, ⟨hc, decide_eq_true hmem⟩, rfl⟩

/-- There is nothing to do about a checkpoint exactly when it is there as listed. -/
theorem planCheckpoint_eq_none_iff {h : Host} {d : HostDesiredState} {c : DesiredCheckpoint}
    (hc : c ∈ d.checkpoints) :
    planCheckpoint (h.observe d) c = .none c.checkpointId ↔ h.HasCheckpoint c := by
  rw [planCheckpoint, HasCheckpoint, ← mem_observeCheckpoints hc]
  cases c.desiredState <;>
    by_cases hmem : c.checkpointId ∈ (h.observe d).checkpoints.map (·.checkpointId) <;>
    simp [hmem]

/-- Every checkpoint the adapters are asked for is taken or deleted. -/
def CheckpointAnswers.succeed : CheckpointAnswers where
  created _ := true
  deleted _ := true

/-- One action on a checkpoint of the document leaves what is there as listed so, and does what it
is to do about its own. -/
theorem hasCheckpoint_applyCheckpoint {d : HostDesiredState} (hd : d.Consistent) {o : ObservedState}
    {q : DesiredCheckpoint} (hq : q ∈ d.checkpoints) (h : Host) {c : DesiredCheckpoint}
    (hc : c ∈ d.checkpoints)
    (hhas : h.HasCheckpoint c ∨
      c.checkpointId = q.checkpointId ∧ planCheckpoint o q ≠ .none q.checkpointId) :
    (applyCheckpoint .succeed h (planCheckpoint o q)).HasCheckpoint c := by
  have hsame := hd.checkpoints c hc q hq
  rw [planCheckpoint] at hhas ⊢
  cases hstate : q.desiredState <;>
    cases hseen : decide (q.checkpointId ∈ o.checkpoints.map (·.checkpointId)) <;>
    simp only [hstate, hseen] at hhas hsame ⊢
  · -- taken
    unfold HasCheckpoint at hhas ⊢
    by_cases hid : c.checkpointId = q.checkpointId
    · refine iff_of_true ?_ (hsame hid)
      rw [hid]
      simp only [applyCheckpoint, CheckpointAnswers.succeed, true_and]
      split
      · exact List.mem_append_right _ List.mem_cons_self
      · rename_i hin
        exact not_not.mp hin
    · rw [← hhas.resolve_right fun hcase => hid hcase.1]
      simp only [applyCheckpoint, CheckpointAnswers.succeed, true_and]
      split
      · simp [hid]
      · rfl
  · exact hhas.resolve_right fun hcase => hcase.2 rfl
  · exact hhas.resolve_right fun hcase => hcase.2 rfl
  · -- deleted
    unfold HasCheckpoint at hhas ⊢
    simp only [applyCheckpoint, CheckpointAnswers.succeed, if_true]
    by_cases hid : c.checkpointId = q.checkpointId
    · refine iff_of_false ?_ ?_
      · simp [hid]
      · rw [hsame hid]
        exact DesiredPresence.noConfusion
    · rw [← hhas.resolve_right fun hcase => hid hcase.1]
      simp [hid]

/-- **The checkpoints of a pass are taken and deleted as listed.** -/
theorem settled_applyCheckpoints {d : HostDesiredState} (hd : d.Consistent) {h₀ h : Host}
    (hsame : h.checkpoints = h₀.checkpoints) :
    ∀ c ∈ d.checkpoints,
      (h.applyCheckpoints (planReconcile d (h₀.observe d)) .succeed).HasCheckpoint c := by
  intro c hc
  have hkeeps : ∀ (l : List DesiredCheckpoint), (∀ q ∈ l, q ∈ d.checkpoints) → ∀ h : Host,
      h.HasCheckpoint c →
        ((l.map (planCheckpoint (h₀.observe d))).foldl
          (applyCheckpoint .succeed) h).HasCheckpoint c := by
    intro l hl h
    rw [List.foldl_map]
    refine Frame.foldl_rel (R := fun h h' : Host => h.HasCheckpoint c → h'.HasCheckpoint c)
      (fun _ => id) (fun h₁ h₂ hhas => h₂ (h₁ hhas)) l (fun h q hq hhas => ?_) h
    exact hasCheckpoint_applyCheckpoint hd (hl q hq) h hc (.inl hhas)
  obtain ⟨before, after, hsplit⟩ := List.append_of_mem hc
  have hlisted : ∀ q, q ∈ before ∨ q ∈ after → q ∈ d.checkpoints := fun q hq => by
    rw [hsplit]
    exact List.mem_append.mpr (hq.imp_right (List.mem_cons_of_mem c))
  show ((planCheckpoints d (h₀.observe d)).foldl (applyCheckpoint .succeed) h).HasCheckpoint c
  rw [planCheckpoints_eq, hsplit, List.map_append, List.map_cons, List.foldl_append,
    List.foldl_cons]
  refine hkeeps after (fun q hq => hlisted q (.inr hq)) _ ?_
  refine hasCheckpoint_applyCheckpoint hd hc _ hc ?_
  by_cases hnone : planCheckpoint (h₀.observe d) c = .none c.checkpointId
  · -- it is there as listed already, and nothing before its turn changes that
    refine .inl (hkeeps before (fun q hq => hlisted q (.inl hq)) h ?_)
    rw [HasCheckpoint, hsame]
    exact (planCheckpoint_eq_none_iff hc).mp hnone
  · exact .inr ⟨rfl, hnone⟩

end Host

end Nibrunner
