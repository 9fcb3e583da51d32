import Nibrunner.ForStd.Run
import Nibrunner.ForStd.UniqueTable
import Nibrunner.Net.Allocator
import Nibrunner.Repositories.LastWritten

/-!
# The slots a host keeps across a restart

The allocator's assignments and its cursor are written to two tables, and only what differs from
the last write. The table holds a slot once, and every statement is checked against that on its
own. Rows that are gone are deleted first; the rows that changed are then written in the order of
their keys.

* `SqliteSlots.Coherent`: what is remembered of the last write is what the tables hold, in every
  repository a run of writes leaves;
* `SqliteSlots.InOrder`: an app that takes the slot of one that stays comes after it;
* `replaceAll_lands_iff`: a write lands exactly when its assignment is in order. Two apps that
  have exchanged their slots never are.
-/

namespace Nibrunner

open Std

/-! ### The repository -/

/-- The two tables, and what the repository remembers of its last write to each. The memory is
taken when a write begins and put back once it is in. -/
structure SqliteSlots where
  slots : UniqueTable String ℤ
  slotCursor : Option ℤ
  lastWritten : Option (ExtTreeMap String ℤ)
  lastCursor : Option ℤ

namespace SqliteSlots

/-- The repository of a daemon that has just come up over tables an earlier one left. -/
def new (slots : UniqueTable String ℤ) (slotCursor : Option ℤ) : SqliteSlots :=
  ⟨slots, slotCursor, none, none⟩

def stored (r : SqliteSlots) : ExtTreeMap String ℤ := r.slots.rows

def cursor (r : SqliteSlots) : ℤ := r.slotCursor.getD 0

/-- The rows an assignment asks for. -/
def rowsOf (assignments : ExtTreeMap AppId ℕ) : ExtTreeMap String ℤ :=
  assignments.toList.foldl (fun rows held => rows.insert held.1.text (held.2 : ℤ)) ∅

/-- The transaction on the slots table: what is let go of is deleted before anything is taken. -/
def writeSlots (slots : UniqueTable String ℤ) (delta : Delta (ExtTreeMap String ℤ)) :
    Option (UniqueTable String ℤ) :=
  (slots.deleteAll delta.gone).upsertAll delta.changed

/-- SQLite's answer to a statement that would put a slot down twice. -/
def slotTaken : StoreError :=
  .unwritable
    "error returned from database: (code: 2067) UNIQUE constraint failed: slots.slot"

/-- Leaves the tables holding `assignments` and `cursor`, writing only what differs from the last
write. A transaction that fails is rolled back, and nothing is remembered of it. -/
def replaceAll (r : SqliteSlots) (assignments : ExtTreeMap AppId ℕ) (cursor : ℤ) :
    Except StoreError Unit × SqliteSlots :=
  let slots := towards r.lastWritten (rowsOf assignments) r.stored
  let cursors := towards r.lastCursor cursor r.cursor
  if slots.isEmpty ∧ cursors.isEmpty then
    (.ok (), { r with lastWritten := some slots.wanted, lastCursor := some cursors.wanted })
  else
    match writeSlots r.slots slots with
    | none => (.error slotTaken, { r with lastWritten := none, lastCursor := none })
    | some table =>
      (.ok (),
        { slots := table
          slotCursor := if cursors.isEmpty then r.slotCursor else some cursors.wanted
          lastWritten := some slots.wanted
          lastCursor := some cursors.wanted })

/-- One write of a run: its answer goes to the log of the pass that asked for it. -/
def write (r : SqliteSlots) (asked : ExtTreeMap AppId ℕ × ℤ) : SqliteSlots :=
  (r.replaceAll asked.1 asked.2).2

/-- What is remembered is what the tables hold. -/
structure Coherent (r : SqliteSlots) : Prop where
  slots : ∀ rows, r.lastWritten = some rows → rows = r.stored
  cursor : ∀ cursor, r.lastCursor = some cursor → cursor = r.cursor

/-- The write landed: it was answered with success and the tables hold what it asked for. -/
def Lands (r : SqliteSlots) (assignments : ExtTreeMap AppId ℕ) (cursor : ℤ) : Prop :=
  (r.replaceAll assignments cursor).1 = .ok () ∧
    (r.replaceAll assignments cursor).2.stored = rowsOf assignments ∧
    (r.replaceAll assignments cursor).2.cursor = cursor

/-- Two apps and their slots. -/
def slotsOf (a b : AppId) (s t : ℕ) : ExtTreeMap AppId ℕ :=
  ((∅ : ExtTreeMap AppId ℕ).insert a s).insert b t

/-- An app that takes the slot of one that stays comes after it in the order of the keys. -/
def InOrder (r : SqliteSlots) (assignments : ExtTreeMap AppId ℕ) : Prop :=
  ∀ (app other : AppId) (slot : ℕ), assignments[app]? = some slot →
    r.stored[other.text]? = some (slot : ℤ) → assignments.contains other → other ≠ app →
      compare other app = .lt

theorem of_getElem?_slotsOf {a b app : AppId} {s t slot : ℕ}
    (h : (slotsOf a b s t)[app]? = some slot) : a = app ∧ s = slot ∨ b = app ∧ t = slot := by
  rw [slotsOf, ExtTreeMap.getElem?_insert_ite, ExtTreeMap.getElem?_insert_ite] at h
  split at h
  · rename_i hb
    exact .inr ⟨hb, Option.some.inj h⟩
  · split at h
    · rename_i ha
      exact .inl ⟨ha, Option.some.inj h⟩
    · cases h

theorem oneSlotEach_slotsOf {a b : AppId} {s t : ℕ} (hne : s ≠ t) :
    OneSlotEach (slotsOf a b s t) := by
  intro c d slot hc hd
  rcases of_getElem?_slotsOf hc with ⟨rfl, rfl⟩ | ⟨rfl, rfl⟩
  · rcases of_getElem?_slotsOf hd with ⟨rfl, -⟩ | ⟨-, hts⟩
    · rfl
    · exact absurd hts.symm hne
  · rcases of_getElem?_slotsOf hd with ⟨-, hst⟩ | ⟨rfl, -⟩
    · exact absurd hst hne
    · rfl

/-! ### What a write does -/

theorem getElem?_rowsOf (assignments : ExtTreeMap AppId ℕ) (app : AppId) :
    (rowsOf assignments)[app.text]? = assignments[app]?.map fun slot : ℕ => (slot : ℤ) :=
  getElem?_foldl_insert_text _ assignments app

section WriteSlots

variable {slots table : UniqueTable String ℤ} {delta : Delta (ExtTreeMap String ℤ)}

/-- A transaction that goes through leaves what was wanted. -/
theorem rows_of_writeSlots (delta : Delta (ExtTreeMap String ℤ)) (hlast : delta.last = slots.rows)
    (h : writeSlots slots delta = some table) : table.rows = delta.wanted := by
  refine ExtTreeMap.ext_getElem? fun key => ?_
  rw [UniqueTable.upsertAll_eq_some h]
  -- a key is upserted, or it keeps its row unless it was deleted
  by_cases hkey : key ∈ delta.changed.map Prod.fst
  · obtain ⟨value, hwanted, hheld⟩ := Delta.mem_keys_changed_iff.mp hkey
    rw [hwanted]
    exact ExtTreeMap.getElem?_foldl_insert_of_mem (fun row : String × ℤ => row.1) (·.2)
      delta.nodup_keys_changed _ (Delta.mem_changed_iff.mpr ⟨hwanted, hheld⟩)
  · rw [ExtTreeMap.getElem?_foldl_insert_of_notMem (fun row : String × ℤ => row.1) (·.2) _ hkey,
      UniqueTable.getElem?_deleteAll, ← hlast]
    rw [Delta.mem_keys_changed_iff, not_exists] at hkey
    cases hwanted : delta.wanted[key]? with
    | none =>
      split
      · rfl
      · rename_i hgone
        rw [Delta.mem_gone_iff, not_and_or, not_not] at hgone
        exact hgone.resolve_right (not_not.mpr hwanted)
    | some value =>
      have hnot : key ∉ delta.gone := by
        rw [Delta.mem_gone_iff, hwanted]
        rintro ⟨-, h⟩
        cases h
      rw [if_neg hnot]
      by_contra hne
      exact hkey value ⟨hwanted, hne⟩

/-- A transaction towards distinct slots goes through exactly when each key that takes the slot
of one that stays comes after it. -/
theorem exists_writeSlots_iff (slots : UniqueTable String ℤ)
    (delta : Delta (ExtTreeMap String ℤ)) (hlast : delta.last = slots.rows)
    (hwanted : ∀ (a b : String) v,
      delta.wanted[a]? = some v → delta.wanted[b]? = some v → a = b) :
    (∃ table, writeSlots slots delta = some table) ↔
      ∀ (key other : String) slot, delta.wanted[key]? = some slot →
        delta.last[other]? = some slot → delta.wanted[other]? ≠ none → other ≠ key →
          compare other key = .lt := by
  rw [writeSlots, UniqueTable.exists_upsertAll_iff delta.pairwise_changed
    (delta.nodup_changed hwanted)]
  constructor
  · intro h key other slot hkey hother hstays hne
    have hchanged : (key, slot) ∈ delta.changed := by
      refine Delta.mem_changed_iff.mpr ⟨hkey, fun hheld => hne ?_⟩
      rw [hlast] at hother hheld
      exact slots.unique other key slot hother hheld
    refine (h (key, slot) hchanged other ?_ hne).2
    have hnot : other ∉ delta.gone := fun hgone => hstays (Delta.mem_gone_iff.mp hgone).2
    rw [UniqueTable.getElem?_deleteAll, if_neg hnot, ← hlast, hother]
  · rintro h ⟨key, slot⟩ hrow other hother hne
    obtain ⟨hkey, hheld⟩ := Delta.mem_changed_iff.mp hrow
    rw [UniqueTable.getElem?_deleteAll, ← hlast] at hother
    split at hother
    · cases hother
    · rename_i hgone
      rw [Delta.mem_gone_iff, hother] at hgone
      have hstays : delta.wanted[other]? ≠ none := fun hnone => hgone ⟨by simp, hnone⟩
      refine ⟨?_, h key other slot hkey hother hstays hne⟩
      -- the holder stays, and cannot keep the slot another app is to have
      obtain ⟨value, hvalue⟩ := Option.ne_none_iff_exists'.mp hstays
      refine Delta.mem_keys_changed_iff.mpr ⟨value, hvalue, fun hsame => hne ?_⟩
      rw [← hsame, hother] at hvalue
      exact hwanted other key slot hvalue hkey

end WriteSlots

theorem coherent_new (slots : UniqueTable String ℤ) (slotCursor : Option ℤ) :
    (new slots slotCursor).Coherent := by
  constructor
  · intro rows h
    cases h
  · intro cursor h
    cases h

section ReplaceAll

variable {r : SqliteSlots} {assignments : ExtTreeMap AppId ℕ} {cursor : ℤ}

/-- The delta of a write over coherent memory starts from what the tables hold. -/
theorem Coherent.towards_eq (hr : r.Coherent) (rows : ExtTreeMap String ℤ) (wanted : ℤ) :
    towards r.lastWritten rows r.stored = ⟨r.stored, rows⟩ ∧
      towards r.lastCursor wanted r.cursor = ⟨r.cursor, wanted⟩ := by
  constructor
  · cases h : r.lastWritten with
    | none => rfl
    | some last =>
      rw [hr.slots last h]
      rfl
  · cases h : r.lastCursor with
    | none => rfl
    | some last =>
      rw [hr.cursor last h]
      rfl

/-- **What a write does**: nothing where the tables hold what it asks for, nothing but forget
where its transaction fails, and else the whole of it. -/
theorem replaceAll_cases (hr : r.Coherent) (assignments : ExtTreeMap AppId ℕ) (cursor : ℤ) :
    (r.stored = rowsOf assignments ∧ r.cursor = cursor ∧
      r.replaceAll assignments cursor =
        (.ok (), { r with
          lastWritten := some (rowsOf assignments)
          lastCursor := some cursor })) ∨
    (writeSlots r.slots ⟨r.stored, rowsOf assignments⟩ = none ∧
      r.replaceAll assignments cursor =
        (.error slotTaken, { r with lastWritten := none, lastCursor := none })) ∨
    ∃ table held, writeSlots r.slots ⟨r.stored, rowsOf assignments⟩ = some table ∧
      held.getD 0 = cursor ∧
      r.replaceAll assignments cursor =
        (.ok (), ⟨table, held, some (rowsOf assignments), some cursor⟩) := by
  obtain ⟨hslots, hcursor⟩ := hr.towards_eq (rowsOf assignments) cursor
  simp only [replaceAll, hslots, hcursor, Delta.isEmpty, decide_eq_true_iff]
  split
  · rename_i hempty
    exact .inl ⟨hempty.1, hempty.2, rfl⟩
  · split
    · rename_i hnone
      exact .inr (.inl ⟨hnone, rfl⟩)
    · rename_i table htable
      refine .inr (.inr ⟨table, _, htable, ?_, rfl⟩)
      -- a cursor that did not move is left as it is read
      split
      · assumption
      · rfl

/-- A write answered with success lands. -/
theorem lands_of_ok (hr : r.Coherent) (h : (r.replaceAll assignments cursor).1 = .ok ()) :
    r.Lands assignments cursor := by
  rw [Lands]
  rcases replaceAll_cases hr assignments cursor with
    ⟨hrows, hheld, heq⟩ | ⟨-, heq⟩ | ⟨table, held, htable, hheld, heq⟩
  · rw [heq]
    exact ⟨rfl, hrows, hheld⟩
  · rw [heq] at h
    cases h
  · rw [heq]
    exact ⟨rfl, rows_of_writeSlots ⟨r.stored, rowsOf assignments⟩ rfl htable, hheld⟩

/-- **A write keeps memory and tables together**, whether or not it lands. -/
theorem Coherent.write (hr : r.Coherent) (asked : ExtTreeMap AppId ℕ × ℤ) :
    (r.write asked).Coherent := by
  rw [SqliteSlots.write]
  rcases replaceAll_cases hr asked.1 asked.2 with
    ⟨hrows, hheld, heq⟩ | ⟨-, heq⟩ | ⟨table, held, htable, hheld, heq⟩
  · rw [heq]
    constructor
    · rintro rows ⟨⟩
      exact hrows.symm
    · rintro cursor ⟨⟩
      exact hheld.symm
  · rw [heq]
    constructor
    · rintro rows ⟨⟩
    · rintro cursor ⟨⟩
  · rw [heq]
    constructor
    · rintro rows ⟨⟩
      exact (rows_of_writeSlots ⟨r.stored, _⟩ rfl htable).symm
    · rintro cursor ⟨⟩
      exact hheld.symm

/-- Memory and tables are together in every repository a run of writes leaves. -/
theorem coherent_run (tables : UniqueTable String ℤ) (slotCursor : Option ℤ)
    (writes : List (ExtTreeMap AppId ℕ × ℤ)) :
    (Run.run write (new tables slotCursor) writes).Coherent :=
  Run.invariant (fun _ asked hr => hr.write asked) (coherent_new tables slotCursor) writes

theorem rowsOf_injective (h : OneSlotEach assignments) (a b : String) (v : ℤ)
    (ha : (rowsOf assignments)[a]? = some v) (hb : (rowsOf assignments)[b]? = some v) : a = b := by
  have ha' := getElem?_rowsOf assignments ⟨a⟩
  have hb' := getElem?_rowsOf assignments ⟨b⟩
  rw [ha, eq_comm, Option.map_eq_some_iff] at ha'
  rw [hb, eq_comm, Option.map_eq_some_iff] at hb'
  obtain ⟨slot, hslot, rfl⟩ := ha'
  obtain ⟨slot', hslot', hcast⟩ := hb'
  obtain rfl : slot' = slot := by exact_mod_cast hcast
  exact congrArg Id.text (h ⟨a⟩ ⟨b⟩ slot' hslot hslot')

/-- The order of the apps, said of the rows they ask for. -/
theorem inOrder_iff_rowsOf :
    r.InOrder assignments ↔
      ∀ (key other : String) slot, (rowsOf assignments)[key]? = some slot →
        r.stored[other]? = some slot → (rowsOf assignments)[other]? ≠ none → other ≠ key →
          compare other key = .lt := by
  constructor
  · intro h key other slot hkey hother hstays hne
    have hkey' := getElem?_rowsOf assignments ⟨key⟩
    have hother' := getElem?_rowsOf assignments ⟨other⟩
    rw [hkey, eq_comm, Option.map_eq_some_iff] at hkey'
    obtain ⟨held, hheld, rfl⟩ := hkey'
    refine h ⟨key⟩ ⟨other⟩ held hheld hother ?_ fun heq => hne (congrArg Id.text heq)
    rw [ExtTreeMap.contains_eq_isSome_getElem?, Option.isSome_iff_ne_none]
    rintro hnone
    rw [hnone] at hother'
    exact hstays hother'
  · intro h app other slot happ hother hstays hne
    refine h app.text other.text slot ?_ hother ?_ fun heq => hne ?_
    · rw [getElem?_rowsOf, happ]
      rfl
    · rw [ExtTreeMap.contains_eq_isSome_getElem?, Option.isSome_iff_ne_none] at hstays
      rw [getElem?_rowsOf, ne_eq, Option.map_eq_none_iff]
      exact hstays
    · cases other
      cases app
      exact congrArg Id.mk heq

/-- A write over coherent memory is answered with success exactly when it is in order. -/
theorem replaceAll_ok_iff (cursor : ℤ) (hr : r.Coherent)
    (hassignments : OneSlotEach assignments) :
    (r.replaceAll assignments cursor).1 = .ok () ↔ r.InOrder assignments := by
  have hwanted : ∀ (a b : String) v, (rowsOf assignments)[a]? = some v →
      (rowsOf assignments)[b]? = some v → a = b := rowsOf_injective hassignments
  have hiff := exists_writeSlots_iff r.slots ⟨r.stored, rowsOf assignments⟩ rfl hwanted
  rw [inOrder_iff_rowsOf]
  rcases replaceAll_cases hr assignments cursor with
    ⟨hrows, -, heq⟩ | ⟨hnone, heq⟩ | ⟨table, held, htable, -, heq⟩
  · rw [heq]
    refine iff_of_true rfl fun key other slot hkey hother _ hne => absurd ?_ hne
    rw [hrows] at hother
    exact hwanted other key slot hother hkey
  · rw [heq]
    refine iff_of_false (fun h => by cases h) fun h => ?_
    obtain ⟨table, htable⟩ := hiff.mpr h
    rw [hnone] at htable
    cases htable
  · rw [heq]
    exact iff_of_true rfl (hiff.mp ⟨table, htable⟩)

/-- **When a write of the slots lands.** In every repository that any writes leave over any
tables, a write of an assignment that gives no slot to two apps lands exactly when every app that
takes the slot of one that stays comes after it. -/
theorem replaceAll_lands_iff (tables : UniqueTable String ℤ) (slotCursor : Option ℤ)
    (writes : List (ExtTreeMap AppId ℕ × ℤ)) (assignments : ExtTreeMap AppId ℕ) (cursor : ℤ)
    (hassignments : OneSlotEach assignments) :
    (Run.run write (new tables slotCursor) writes).Lands assignments cursor ↔
      (Run.run write (new tables slotCursor) writes).InOrder assignments := by
  have hcoherent := coherent_run tables slotCursor writes
  rw [← replaceAll_ok_iff cursor hcoherent hassignments]
  exact ⟨fun h => h.1, fun h => lands_of_ok hcoherent h⟩

/-- The first app moves on to a free slot and the second takes the one it left. -/
theorem replaceAll_lands_moved_on :
    OneSlotEach (slotsOf ⟨"a"⟩ ⟨"b"⟩ 2 0) ∧
      (Run.run write (new .empty none) [(slotsOf ⟨"a"⟩ ⟨"b"⟩ 0 1, 2)]).Lands
        (slotsOf ⟨"a"⟩ ⟨"b"⟩ 2 0) 3 := by
  have hone := oneSlotEach_slotsOf (a := ⟨"a"⟩) (b := ⟨"b"⟩) (s := 2) (t := 0) (by decide)
  refine ⟨hone, (replaceAll_lands_iff _ _ _ _ _ hone).mpr ?_⟩
  intro app other slot happ hother hstays hne
  rcases of_getElem?_slotsOf happ with ⟨rfl, rfl⟩ | ⟨rfl, rfl⟩
  · obtain ⟨held, hheld⟩ := Option.isSome_iff_exists.mp
      (ExtTreeMap.contains_eq_isSome_getElem?.symm.trans hstays)
    rcases of_getElem?_slotsOf hheld with ⟨rfl, -⟩ | ⟨rfl, -⟩
    · exact absurd rfl hne
    · exact absurd hother (by decide +kernel)
  · obtain ⟨held, hheld⟩ := Option.isSome_iff_exists.mp
      (ExtTreeMap.contains_eq_isSome_getElem?.symm.trans hstays)
    rcases of_getElem?_slotsOf hheld with ⟨rfl, -⟩ | ⟨rfl, -⟩
    · decide
    · exact absurd rfl hne

/-- Two apps that exchange their slots cannot both come after the other. -/
theorem not_inOrder_of_exchange {a b : AppId} {s t : ℕ} (hne : a ≠ b)
    (ha : r.stored[a.text]? = some (s : ℤ)) (hb : r.stored[b.text]? = some (t : ℤ))
    (ha' : assignments[a]? = some t) (hb' : assignments[b]? = some s) :
    ¬r.InOrder assignments := by
  intro h
  have hba := h a b t ha' hb (by rw [ExtTreeMap.contains_eq_isSome_getElem?, hb']; rfl) hne.symm
  have hab := h b a s hb' ha (by rw [ExtTreeMap.contains_eq_isSome_getElem?, ha']; rfl) hne
  rw [OrientedOrd.eq_swap, hba] at hab
  cases hab

/-- Two apps that have exchanged their slots since the last write: the first to be written meets
the row of the other. -/
theorem exchanged_slots_do_not_land :
    OneSlotEach (slotsOf ⟨"a"⟩ ⟨"b"⟩ 1 0) ∧
      ¬(Run.run write (new .empty none) [(slotsOf ⟨"a"⟩ ⟨"b"⟩ 0 1, 2)]).Lands
        (slotsOf ⟨"a"⟩ ⟨"b"⟩ 1 0) 2 := by
  have hone := oneSlotEach_slotsOf (a := ⟨"a"⟩) (b := ⟨"b"⟩) (s := 1) (t := 0) (by decide)
  refine ⟨hone, fun h => ?_⟩
  have hin := (replaceAll_ok_iff _ (coherent_run _ _ _) hone).mp h.1
  exact not_inOrder_of_exchange (a := ⟨"a"⟩) (b := ⟨"b"⟩) (s := 0) (t := 1) (by decide)
    (by decide +kernel) (by decide +kernel) (by decide +kernel) (by decide +kernel) hin

end ReplaceAll

end SqliteSlots

end Nibrunner
