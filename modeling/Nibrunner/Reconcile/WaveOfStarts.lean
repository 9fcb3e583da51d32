import Nibrunner.Reconcile.MemoryAccounting
import Nibrunner.Reconcile.SuccessfulPass

/-!
# A wave of starts and the records read again

A wave of starts measures each of them against a copy of the records, into which only the record
of the app just started is read back. The loop it stands for reads the records again before each
start (`applyStartReread`).

The copy is what the loop would read, and beside it what the apps made to wait held when the wave
came to them (`Keeps`): an app made to wait holds nothing any more, and the copy still counts it.
So the wave decides as the loop does exactly where that has no say (`CopyAdmits`), and it never
commits more memory than there is for guests, or than was committed before.
-/

namespace Nibrunner

open Std

/-! ### Memory held -/

/-- The memory a record counts for. -/
def heldMib (r : InstanceRecord) : ℕ := if holdsSomething r then r.resources.memoryMib else 0

/-- The memory a list of records holds. -/
def committedIn (records : List InstanceRecord) : ℕ :=
  committedMemoryMib (committedResources records)

/-- The memory the records of some apps hold. -/
def committedOf (records : List InstanceRecord) (apps : AppId → Bool) : ℕ :=
  committedIn (records.filter fun r => apps r.appId)

/-- The memory a list of records holds beside an app's own. -/
def committedBeside (records : List InstanceRecord) (app : AppId) : ℕ :=
  committedOf records (· ≠ app)

theorem committedIn_eq_sum (records : List InstanceRecord) :
    committedIn records = (records.map heldMib).sum := by
  induction records with
  | nil => rfl
  | cons r records ih =>
    rw [committedIn, committedResources, committedMemoryMib] at ih ⊢
    by_cases hr : holdsSomething r
    · simp [heldMib, hr, ← ih]
    · simp [heldMib, hr, ← ih]

theorem committedOf_append (records more : List InstanceRecord) (apps : AppId → Bool) :
    committedOf (records ++ more) apps = committedOf records apps + committedOf more apps := by
  rw [committedOf, List.filter_append, committedIn_eq_sum, List.map_append, List.sum_append,
    ← committedIn_eq_sum, ← committedIn_eq_sum]
  rfl

theorem committedOf_filter_ne (records : List InstanceRecord) (app : AppId)
    (apps : AppId → Bool) :
    committedOf (records.filter (·.appId ≠ app)) apps =
      committedOf records fun a => apps a && a ≠ app := by
  rw [committedOf, List.filter_filter]
  rfl

theorem committedOf_le {records : List InstanceRecord} {apps apps' : AppId → Bool}
    (h : ∀ a, apps a = true → apps' a = true) :
    committedOf records apps ≤ committedOf records apps' := by
  rw [committedOf, committedOf, committedIn_eq_sum, committedIn_eq_sum]
  refine ((List.monotone_filter_right records fun r => h r.appId).map heldMib).sum_le_sum
    fun _ _ => Nat.zero_le _

/-- A record of one app is among those of some apps with all it holds, or not at all. -/
theorem committedOf_toList {existing : Option InstanceRecord} {app : AppId}
    (happ : ∀ r, existing = some r → r.appId = app) (apps : AppId → Bool) :
    committedOf existing.toList apps = if apps app then committedIn existing.toList else 0 := by
  cases existing with
  | none => split <;> rfl
  | some r =>
    rw [Option.toList_some, committedOf, List.filter_singleton, happ r rfl]
    cases apps app <;> rfl

theorem committedOf_perm {records records' : List InstanceRecord} (hp : records.Perm records')
    (apps : AppId → Bool) : committedOf records apps = committedOf records' apps := by
  rw [committedOf, committedOf, committedIn_eq_sum, committedIn_eq_sum]
  exact ((hp.filter _).map _).sum_eq

/-- What the host is short of, said by what is committed. -/
theorem memoryShortfallFor_eq (guestMemoryMib : ℕ) (records : List InstanceRecord) (app : AppId)
    (wanted : InstanceResources) :
    memoryShortfallFor guestMemoryMib records app wanted =
      if guestMemoryMib < committedBeside records app + wanted.memoryMib then
        some (committedBeside records app + wanted.memoryMib - guestMemoryMib)
      else none := by
  have hothers : committedBeside records app = committedMemoryMib
      ((records.filter fun r => r.appId ≠ app && holdsSomething r).map (·.resources)) := by
    rw [committedBeside, committedOf, committedIn, committedResources, List.filter_filter]
    simp only [Bool.and_comm]
  rw [hothers, memoryShortfallFor, memoryShortfallMib]
  simp only [Nat.sub_pos_iff_lt]

/-- The memory the record of an app counts for. -/
def AppView.heldMib (v : AppView) : ℕ := committedIn v.record.toList

namespace Host

/-! ### The host's records, app by app -/

theorem mem_recordList_iff {h : Host} (hk : h.Keyed) {r : InstanceRecord} :
    r ∈ h.recordList ↔ h.records[r.appId]? = some r := by
  refine ⟨fun hr => ?_, mem_recordList⟩
  obtain ⟨⟨app, r'⟩, hmem, rfl⟩ := List.mem_map.mp hr
  have hrecord := ExtTreeMap.mem_toList_iff_getElem?_eq_some.mp hmem
  rwa [hk app r' hrecord]

theorem OnlyApp.recordList_perm {app : AppId} {h h' : Host} (hf : OnlyApp app h h') (hk : h.Keyed)
    (hk' : h'.Keyed) :
    h'.recordList.Perm (h.recordList.filter (·.appId ≠ app) ++ h'.records[app]?.toList) := by
  have hown : ∀ r, r ∈ h'.records[app]?.toList → r.appId = app := fun r hr =>
    hk' app r (Option.mem_toList.mp hr)
  refine (List.perm_ext_iff_of_nodup hk'.nodup_recordList.of_map ?_).mpr fun r => ?_
  · refine List.nodup_append'.mpr ⟨hk.nodup_recordList.of_map.filter _, ?_, ?_⟩
    · cases h'.records[app]? <;> simp
    · intro r hr hr'
      exact (of_decide_eq_true (List.mem_filter.mp hr).2) (hown r hr')
  · rw [mem_recordList_iff hk', List.mem_append, List.mem_filter, mem_recordList_iff hk,
      Option.mem_toList]
    by_cases happ : r.appId = app
    · subst happ
      simp
    · rw [hf.record _ happ]
      have hnot : ¬ h'.records[app]? = some r := fun hr => happ (hk' app r hr)
      simp [happ, hnot]

theorem committedOf_record {h : Host} (hk : h.Keyed) (app : AppId) (apps : AppId → Bool) :
    committedOf h.records[app]?.toList apps =
      if apps app then (h.view app).heldMib else 0 :=
  committedOf_toList (hk app) apps

/-- What an operation on one app leaves committed: what the others held, and what its record does
now. -/
theorem OnlyApp.committedOf_recordList {app : AppId} {h h' : Host} (hf : OnlyApp app h h')
    (hk : h.Keyed) (hk' : h'.Keyed) (apps : AppId → Bool) :
    committedOf h'.recordList apps =
      (committedOf h.recordList fun a => apps a && a ≠ app) +
        if apps app then (h'.view app).heldMib else 0 := by
  rw [committedOf_perm (hf.recordList_perm hk hk') apps, committedOf_append,
    committedOf_filter_ne, committedOf_record hk']

end Host

namespace AppView

variable {v v' : AppView} {desired : DesiredInstance}

theorem heldMib_of_record {r : InstanceRecord} (hr : v.record = some r) :
    v.heldMib = Nibrunner.heldMib r := by
  rw [AppView.heldMib, hr, committedIn_eq_sum]
  exact Nat.add_zero _

/-- An app made to wait holds nothing, with a slot and without one. -/
theorem heldMib_of_waiting {shortfallMib : ℕ}
    (he : SlotEffect desired (waitingRecord v.record desired shortfallMib) v v') :
    v'.heldMib = 0 := by
  cases he <;> rw [heldMib_of_record rfl, Nibrunner.heldMib, if_neg] <;>
    simp [waitingRecord, noSlotRecord, holdsSomething, holdsNothing]

/-- An app started holds what it is given, or no more than it held. -/
theorem heldMib_of_start [Platform] {answers : StartAnswers}
    (he : StartEffect desired answers v v') :
    v'.heldMib ≤ v.heldMib ∨ v'.heldMib ≤ desired.config.resources.memoryMib := by
  have hgiven : ∀ r : InstanceRecord, v'.record = some r →
      r.resources = desired.config.resources →
      v'.heldMib ≤ desired.config.resources.memoryMib := by
    intro r hr hresources
    rw [heldMib_of_record hr, Nibrunner.heldMib, hresources]
    split <;> omega
  cases he with
  | refused r said hr => exact .inl (by rw [heldMib_of_record rfl, heldMib_of_record hr]; rfl)
  | noSlot | turnedDown | notBooted | bootFailed | busy
  | booted => exact .inr (hgiven _ rfl (by cases v.record <;> rfl))

end AppView

namespace Host

/-! ### The loop that reads the records again -/

section Wave

variable [Platform] (answers : AppId → StartAnswers)

/-- One start of the loop: measured against the records as they are. -/
def applyStartReread (h : Host) (desired : DesiredInstance) : Host :=
  match memoryShortfallFor h.config.guestMemoryMib h.recordList desired.appId
      desired.config.resources with
  | some shortfall => h.waitForRoom desired shortfall
  | none => h.startInstance desired (answers desired.appId)

/-- What a wave is short of at each of its starts, nothing where the start is made. -/
def waveDecisions : Wave → List DesiredInstance → List (Option ℕ)
  | _, [] => []
  | w, desired :: starts =>
    shortfallIn w desired :: waveDecisions (applyStart answers w desired) starts

/-- What the loop is short of at each of its starts. -/
def rereadDecisions : Host → List DesiredInstance → List (Option ℕ)
  | _, [] => []
  | h, desired :: starts =>
    shortfallIn (h, h.recordList) desired ::
      rereadDecisions (applyStartReread answers h desired) starts

/-- What `applyStarts` is short of at each of its starts. A host that is not isolated decides
nothing. -/
def startDecisions (h : Host) (plan : ReconcilePlan) : List (Option ℕ) :=
  if h.isolated then waveDecisions answers (h, h.recordList) (startsOf plan) else []

/-- The same of the loop. -/
def startDecisionsReread (h : Host) (plan : ReconcilePlan) : List (Option ℕ) :=
  if h.isolated then rereadDecisions answers h (startsOf plan) else []

/-- `applyStarts` with the loop in place of the wave. -/
def applyStartsReread (h : Host) (plan : ReconcilePlan) : Host :=
  if startsOf plan = [] ∨ ¬ h.isolated then h
  else (startsOf plan).foldl (applyStartReread answers) h

/-- **The wave decides as if it read the records again**: it starts, and makes wait for as much,
what the loop does, and leaves the host as the loop does; it makes an app wait only where the app
does not fit beside what is then committed; and it leaves committed no more than there is for
guests, or than there was before. -/
structure DecidesAsRereading (h : Host) (plan : ReconcilePlan) : Prop where
  decisions : h.startDecisions answers plan = h.startDecisionsReread answers plan
  host : h.applyStarts plan answers = h.applyStartsReread answers plan
  waits : h.isolated = true → ∀ before desired after,
    startsOf plan = before ++ desired :: after →
    let w := before.foldl (applyStart answers) (h, h.recordList)
    shortfallIn w desired ≠ none →
      h.config.guestMemoryMib <
        committedBeside w.1.recordList desired.appId + desired.config.resources.memoryMib
  committed : committedIn (h.applyStarts plan answers).recordList ≤
    max h.config.guestMemoryMib (committedIn h.recordList)

/-- **What is held twice has no say**: at each start of the loop, what the apps made to wait since
the records were read held then leaves room all the same, or is nothing. -/
def CopyAdmits : Host → List InstanceRecord → List DesiredInstance → Prop
  | _, _, [] => True
  | h, held, desired :: starts =>
    (committedBeside held desired.appId = 0 ∨
      committedBeside h.recordList desired.appId + committedBeside held desired.appId +
        desired.config.resources.memoryMib ≤ h.config.guestMemoryMib) ∧
    CopyAdmits (applyStartReread answers h desired)
      (if shortfallIn (h, h.recordList) desired = none then
        held.filter (·.appId ≠ desired.appId)
      else held ++ h.records[desired.appId]?.toList) starts

/-- The copy counts what the records do, and beside it what is in `held`. -/
structure Keeps (w : Wave) (held : List InstanceRecord) : Prop where
  keyed : w.1.Keyed
  counts : ∀ apps, committedOf w.2 apps = committedOf w.1.recordList apps + committedOf held apps

variable {answers}

theorem applyStart_fst (w : Wave) (desired : DesiredInstance) :
    (applyStart answers w desired).1 =
      match shortfallIn w desired with
      | some shortfall => w.1.waitForRoom desired shortfall
      | none => w.1.startInstance desired (answers desired.appId) := by
  rw [applyStart, applyStartAs, shortfallIn]
  cases memoryShortfallFor w.1.config.guestMemoryMib w.2 desired.appId
    desired.config.resources with
  | some shortfall => rfl
  | none => rfl

/-- A start decided as the loop decides it is made as the loop makes it. -/
theorem applyStart_fst_of_eq {w : Wave} {desired : DesiredInstance}
    (heq : shortfallIn w desired = shortfallIn (w.1, w.1.recordList) desired) :
    (applyStart answers w desired).1 = applyStartReread answers w.1 desired := by
  rw [applyStart_fst, heq]
  rfl

namespace Keeps

variable {w : Wave} {held : List InstanceRecord}

omit [Platform] in
/-- A copy just read. -/
theorem read {h : Host} (hk : h.Keyed) : Keeps (h, h.recordList) [] := ⟨hk, fun _ => rfl⟩

omit [Platform] in
/-- The copy decides as the records do exactly where what it holds twice has no say. -/
theorem shortfallIn_eq_iff (hw : Keeps w held) (desired : DesiredInstance) :
    shortfallIn w desired = shortfallIn (w.1, w.1.recordList) desired ↔
      committedBeside held desired.appId = 0 ∨
        committedBeside w.1.recordList desired.appId + committedBeside held desired.appId +
          desired.config.resources.memoryMib ≤ w.1.config.guestMemoryMib := by
  have hcounts : committedBeside w.2 desired.appId =
      committedBeside w.1.recordList desired.appId + committedBeside held desired.appId :=
    hw.counts _
  rw [shortfallIn, shortfallIn, memoryShortfallFor_eq, memoryShortfallFor_eq]
  dsimp only
  split <;> split
  · rw [Option.some.injEq]
    omega
  · rw [iff_false_left (Option.some_ne_none _)]
    omega
  · omega
  · rw [iff_true_left rfl]
    omega

/-- One start of the wave: made, its record is read back; put off, what it held is held twice. -/
theorem applyStart (hw : Keeps w held) (desired : DesiredInstance) :
    Keeps (Host.applyStart answers w desired)
      (if shortfallIn w desired = none then held.filter (·.appId ≠ desired.appId)
      else held ++ w.1.records[desired.appId]?.toList) := by
  have hk' := (local_start answers).keeps w desired hw.keyed
  refine ⟨hk', fun apps => ?_⟩
  have hafter :=
    (OnlyApp.applyStart answers hw.keyed desired).committedOf_recordList hw.keyed hk' apps
  rcases view_applyStart answers hw.keyed desired with
    ⟨shortfallMib, hshort, he⟩ | ⟨hroom, -⟩
  · rw [applyStart_snd, if_neg (by rw [hshort]; simp), if_neg (by rw [hshort]; simp), hw.counts,
      hafter, AppView.heldMib_of_waiting he, committedOf_append,
      committedOf_record hw.keyed]
    have hbefore :=
      (OnlyApp.refl desired.appId w.1).committedOf_recordList hw.keyed hw.keyed apps
    rw [ite_self]
    omega
  · rw [applyStart_snd, if_pos hroom, if_pos hroom, committedOf_append, committedOf_filter_ne,
      committedOf_filter_ne, hw.counts, hafter]
    change _ + _ + committedOf (Host.applyStart answers w desired).1.records[desired.appId]?.toList
      apps = _
    rw [committedOf_record hk']
    omega

/-- What one start leaves committed: no more than there is for guests, or than before it. -/
theorem committedIn_applyStart (hw : Keeps w held) (desired : DesiredInstance) :
    committedIn (Host.applyStart answers w desired).1.recordList ≤
      max w.1.config.guestMemoryMib (committedIn w.1.recordList) := by
  have hk' := (local_start answers).keeps w desired hw.keyed
  have hall : ∀ records, committedOf records (fun _ => true) = committedIn records :=
    fun records => congrArg committedIn (List.filter_eq_self.mpr fun _ _ => rfl)
  have hbefore :=
    (OnlyApp.refl desired.appId w.1).committedOf_recordList hw.keyed hw.keyed fun _ => true
  have hafter :=
    (OnlyApp.applyStart answers hw.keyed desired).committedOf_recordList hw.keyed hk' fun _ => true
  simp only [hall, Bool.true_and, if_true] at hbefore hafter
  change _ = committedBeside w.1.recordList desired.appId + _ at hbefore hafter
  rcases view_applyStart answers hw.keyed desired with ⟨shortfallMib, -, he⟩ | ⟨hroom, he⟩
  · have hnothing := AppView.heldMib_of_waiting he
    omega
  · rw [shortfallIn, memoryShortfallFor_eq] at hroom
    have hcounts : committedBeside w.2 desired.appId =
        committedBeside w.1.recordList desired.appId + committedBeside held desired.appId :=
      hw.counts _
    split at hroom
    · cases hroom
    · rcases AppView.heldMib_of_start he with hheld | hgiven <;> omega

end Keeps

/-! ### The wave -/

/-- The wave decides as the loop where what it holds twice has no say, and only there. -/
theorem Keeps.waveDecisions_eq_iff {w : Wave} {held : List InstanceRecord} (hw : Keeps w held)
    (starts : List DesiredInstance) :
    waveDecisions answers w starts = rereadDecisions answers w.1 starts ↔
      CopyAdmits answers w.1 held starts := by
  induction starts generalizing w held with
  | nil => exact iff_of_true rfl trivial
  | cons desired starts ih =>
    rw [waveDecisions, rereadDecisions, CopyAdmits, List.cons.injEq, hw.shortfallIn_eq_iff]
    refine and_congr_right fun hadmits => ?_
    have hsame := (hw.shortfallIn_eq_iff desired).mpr hadmits
    have hnext := ih (hw.applyStart desired : Keeps (Host.applyStart answers w desired) _)
    rwa [applyStart_fst_of_eq hsame, hsame] at hnext

/-- Deciding as the loop, the wave leaves the host as the loop does. -/
theorem foldl_applyStart_eq_of_decisions {w : Wave} {starts : List DesiredInstance}
    (heq : waveDecisions answers w starts = rereadDecisions answers w.1 starts) :
    (starts.foldl (Host.applyStart answers) w).1 =
      starts.foldl (applyStartReread answers) w.1 := by
  induction starts generalizing w with
  | nil => rfl
  | cons desired starts ih =>
    rw [waveDecisions, rereadDecisions, List.cons.injEq] at heq
    have hstart : (Host.applyStart answers w desired).1 = applyStartReread answers w.1 desired :=
      applyStart_fst_of_eq heq.1
    rw [List.foldl_cons, List.foldl_cons, ← hstart]
    refine ih ?_
    rw [heq.2, hstart]

/-- Deciding as the loop, the wave is short at each start of what the records then say. -/
theorem shortfallIn_of_decisions {w : Wave} {before after : List DesiredInstance}
    {desired : DesiredInstance}
    (heq : waveDecisions answers w (before ++ desired :: after) =
      rereadDecisions answers w.1 (before ++ desired :: after)) :
    shortfallIn (before.foldl (Host.applyStart answers) w) desired =
      shortfallIn ((before.foldl (Host.applyStart answers) w).1,
        (before.foldl (Host.applyStart answers) w).1.recordList) desired := by
  induction before generalizing w with
  | nil => exact (List.cons.inj heq).1
  | cons first before ih =>
    rw [List.cons_append, waveDecisions, rereadDecisions, List.cons.injEq] at heq
    rw [List.foldl_cons]
    refine ih ?_
    rw [heq.2, applyStart_fst_of_eq heq.1]

/-- What a wave leaves committed: no more than there is for guests, or than before it. -/
theorem Keeps.committedIn_foldl {w : Wave} {held : List InstanceRecord} (hw : Keeps w held)
    (starts : List DesiredInstance) :
    committedIn (starts.foldl (Host.applyStart answers) w).1.recordList ≤
      max w.1.config.guestMemoryMib (committedIn w.1.recordList) := by
  induction starts generalizing w held with
  | nil => exact Nat.le_max_right _ _
  | cons desired starts ih =>
    have hstep : committedIn (Host.applyStart answers w desired).1.recordList ≤ _ :=
      hw.committedIn_applyStart desired
    have hrest := ih (hw.applyStart desired : Keeps (Host.applyStart answers w desired) _)
    rw [(OnlyApp.applyStart answers hw.keyed desired).config] at hrest
    rw [List.foldl_cons]
    omega

/-- The starts before one leave the guests what they had. -/
private theorem config_foldl_applyStart {w : Wave} (hk : w.1.Keyed)
    (starts : List DesiredInstance) :
    (starts.foldl (Host.applyStart answers) w).1.config = w.1.config := by
  induction starts generalizing w with
  | nil => rfl
  | cons desired starts ih =>
    rw [List.foldl_cons, ih ((local_start answers).keeps w desired hk)]
    exact (OnlyApp.applyStart answers hk desired).config

/-- What a wave leaves committed is within what there is for guests, or was there before: a copy
that counts too much admits no start too many. -/
theorem committedIn_applyStarts {h : Host} (hk : h.Keyed) (plan : ReconcilePlan) :
    committedIn (h.applyStarts plan answers).recordList ≤
      max h.config.guestMemoryMib (committedIn h.recordList) := by
  rw [applyStarts]
  split
  · exact Nat.le_max_right _ _
  · exact (Keeps.read hk).committedIn_foldl (startsOf plan)

/-- **A wave decides as if it read the records again** exactly where what the apps it made to wait
held before leaves room all the same at each start behind them. -/
theorem decidesAsRereading_iff {h : Host} (hk : h.Keyed) (plan : ReconcilePlan) :
    h.DecidesAsRereading answers plan ↔
      (h.isolated = true → CopyAdmits answers h [] (startsOf plan)) := by
  have hread : waveDecisions answers (h, h.recordList) (startsOf plan) =
      rereadDecisions answers h (startsOf plan) ↔ CopyAdmits answers h [] (startsOf plan) :=
    (Keeps.read hk).waveDecisions_eq_iff (startsOf plan)
  constructor
  · intro hdecides hisolated
    have heq := hdecides.decisions
    rw [startDecisions, startDecisionsReread, if_pos hisolated, if_pos hisolated] at heq
    exact hread.mp heq
  · intro hadmits
    refine ⟨?_, ?_, ?_, committedIn_applyStarts hk plan⟩
    · rw [startDecisions, startDecisionsReread]
      split
      · rename_i hisolated
        exact hread.mpr (hadmits hisolated)
      · rfl
    · rw [applyStarts, applyStartsReread]
      split
      · rfl
      · rename_i hgoes
        have hisolated : h.isolated = true := by simpa using (not_or.mp hgoes).2
        exact foldl_applyStart_eq_of_decisions (hread.mpr (hadmits hisolated))
    · intro hisolated before desired after hsplit w hshort
      have heq := hread.mpr (hadmits hisolated)
      rw [hsplit] at heq
      rw [show shortfallIn w desired = _ from shortfallIn_of_decisions heq, shortfallIn,
        memoryShortfallFor_eq] at hshort
      have hconfig : w.1.config = h.config :=
        config_foldl_applyStart (w := (h, h.recordList)) hk before
      rw [← hconfig]
      dsimp only at hshort
      split at hshort
      · assumption
      · exact absurd rfl hshort

/-- Where none of the apps a wave is to start counts for anything, it decides as the loop does. -/
theorem copyAdmits_of_heldMib_eq_zero {h : Host} (hk : h.Keyed) {held : List InstanceRecord}
    (hheld : ∀ app, committedBeside held app = 0) {starts : List DesiredInstance}
    (hstarts : (starts.map (·.appId)).Nodup)
    (hnothing : ∀ desired ∈ starts, (h.view desired.appId).heldMib = 0) :
    CopyAdmits answers h held starts := by
  induction starts generalizing h held with
  | nil => trivial
  | cons desired starts ih =>
    rw [List.map_cons, List.nodup_cons] at hstarts
    refine ⟨.inl (hheld _), ?_⟩
    rw [← applyStart_fst_of_eq (w := (h, h.recordList)) rfl]
    refine ih ((local_start answers).keeps (h, h.recordList) desired hk) (fun app => ?_) hstarts.2
      fun next hnext => ?_
    · split
      · rw [committedBeside, committedOf_filter_ne]
        exact Nat.le_zero.mp (le_of_le_of_eq (committedOf_le fun a ha => by simp_all) (hheld app))
      · rw [committedBeside, committedOf_append, committedOf_record hk,
          hnothing desired List.mem_cons_self, ite_self]
        exact hheld app
    · have hne : next.appId ≠ desired.appId := fun heq =>
        hstarts.1 (List.mem_map.mpr ⟨next, hnext, heq⟩)
      rw [AppView.heldMib, (OnlyApp.applyStart answers hk desired).view hne]
      exact hnothing next (List.mem_cons_of_mem _ hnext)

end Wave

end Host

/-! ### Two apps of a small host -/

/-- The app that is up, given more memory than its host has. -/
def grownInstance : DesiredInstance :=
  { soleInstance with config := { soleInstance.config with resources := ⟨1, 2048⟩ } }

/-- Another app, on a volume of its own. -/
def nextInstance : DesiredInstance :=
  { soleInstance with appId := ⟨"app-2"⟩, volumeId := ⟨"vol-2"⟩ }

def nextVolume : DesiredVolume :=
  { soleVolume with volumeId := ⟨"vol-2"⟩, appId := ⟨"app-2"⟩ }

def grownDocument : HostDesiredState :=
  ⟨[soleVolume, nextVolume], [grownInstance, nextInstance], [], []⟩

/-- The first app was brought up and its guest is gone, which the status loop has not read yet. -/
def exitedHost : Host :=
  @Host.run .plain smallHost (soleBroughtUp ++ [.guestExit soleInstance.appId (.code 1)])

/-- The host as a pass over the grown document comes to its starts. -/
def grownHost : Host := exitedHost.beforeStarts grownDocument (.succeed .change 5000)

def grownPlan : ReconcilePlan := planReconcile grownDocument (exitedHost.observe grownDocument)

theorem keyed_grownHost : grownHost.Keyed :=
  (@Host.Keyed.run .plain smallHost (Host.keyed_fresh _ _) _).beforeStarts _

/-- A wave that starts an app and makes the other wait, neither of which held anything. -/
theorem decidesAsRereading_smallHost :
    let document := { grownDocument with instances := [nextInstance, grownInstance] }
    let plan := planReconcile document (smallHost.observe document)
    @Host.DecidesAsRereading .plain (fun _ => .succeed 5000)
      (smallHost.beforeStarts document (.succeed .change 5000)) plan := by
  intro document plan
  have hk := (Host.keyed_fresh smallHost.config 4).beforeStarts (d := document)
    (.succeed .change 5000)
  refine (@Host.decidesAsRereading_iff .plain _ _ hk plan).mpr fun _ => ?_
  exact @Host.copyAdmits_of_heldMib_eq_zero .plain _ _ hk [] (fun _ => rfl) _ (by decide +kernel)
    (by decide +kernel)

/-- The first app does not fit and waits, and holds nothing any more. The loop finds room for the
second; the wave, counting the first still, makes it wait. -/
theorem not_decidesAsRereading :
    ¬ ∀ (_ : Platform) (h : Host) (plan : ReconcilePlan) (answers : AppId → StartAnswers),
      h.Keyed → @Host.DecidesAsRereading _ answers h plan := by
  intro hrereads
  obtain ⟨hdecisions, -⟩ :=
    hrereads .plain grownHost grownPlan (fun _ => .succeed 5000) keyed_grownHost
  have hwave : @Host.startDecisions .plain (fun _ => .succeed 5000) grownHost grownPlan =
      [some 1024, some 1280] := by decide +kernel
  have hloop : @Host.startDecisionsReread .plain (fun _ => .succeed 5000) grownHost grownPlan =
      [some 1024, none] := by decide +kernel
  rw [hwave, hloop] at hdecisions
  exact absurd hdecisions (by decide)

end Nibrunner
