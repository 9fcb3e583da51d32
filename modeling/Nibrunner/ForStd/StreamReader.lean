import Nibrunner.ForStd.Checked

/-!
# Reading a stream as it comes

A reader of a stream is given what it has not read yet and says what stands at the front of it: an
item and what is left behind it, that it has to wait for more, or that the stream is broken there.
What it said once it says again however much more has come (`some_append`, `error_append`), and an
item is read from a part of the stream that is its own (`some_split`): a `StreamReader` carries the
three as fields.

`read` takes all the items some bytes hold and says how that ended. A `decode` over what was left
and the chunk that came then depends on the stream only, and not on how it was cut:

* `feed_of_read_ok`: a stream that is not broken gives the same items and leaves the same.
* `feed_of_read_error`: of one that is, the items of the chunks before the one it is broken in are
  given, and the error with that chunk; what is lost stands in that chunk.
* `read_flatMap`, `read_of_prefix`: what a stream of encoded items, and the start of one, reads as.
-/

universe u

open Checked

/-- A reader of a stream of `β`, giving items of `α`. -/
structure StreamReader (ε α β : Type u) where
  /-- What stands at the front: an item and what is left, or nothing yet. -/
  next : List β → Checked ε (Option (α × List β))
  ends : ∀ bytes, (next bytes).Ends
  some_split : ∀ {bytes a rest}, next bytes = .ok (some (a, rest)) →
    ∃ front, front ≠ [] ∧ bytes = front ++ rest ∧ next front = .ok (some (a, []))
  some_append : ∀ {bytes a rest} more, next bytes = .ok (some (a, rest)) →
    next (bytes ++ more) = .ok (some (a, rest ++ more))
  error_append : ∀ {bytes e} more, next bytes = .error e → next (bytes ++ more) = .error e

namespace StreamReader

variable {ε α β : Type u} (reader : StreamReader ε α β)

variable {reader} in
theorem length_lt {bytes rest : List β} {a : α} (h : reader.next bytes = .ok (some (a, rest))) :
    rest.length < bytes.length := by
  obtain ⟨front, hfront, rfl, -⟩ := reader.some_split h
  have := List.length_pos_of_ne_nil hfront
  rw [List.length_append]
  omega

/-- All the items some bytes hold, and how it ended: with what is left, or with an error. -/
def read (bytes : List β) : List α × Checked ε (List β) :=
  match _h : reader.next bytes with
  | .ok none => ([], .ok bytes)
  | .ok (some (a, rest)) => (a :: (read rest).1, (read rest).2)
  | .error e => ([], .error e)
  | .stuck => ([], .stuck)
termination_by bytes.length
decreasing_by all_goals exact length_lt ‹_›

variable {reader}

theorem read_of_none {bytes : List β} (h : reader.next bytes = .ok none) :
    reader.read bytes = ([], .ok bytes) := by
  rw [read]
  split <;> simp_all

theorem read_of_some {bytes rest : List β} {a : α}
    (h : reader.next bytes = .ok (some (a, rest))) :
    reader.read bytes = (a :: (reader.read rest).1, (reader.read rest).2) := by
  rw [read]
  split <;> simp_all

theorem read_of_error {bytes : List β} {e : ε} (h : reader.next bytes = .error e) :
    reader.read bytes = ([], .error e) := by
  rw [read]
  split <;> simp_all

/-- What was read: nothing, an error, or one item and the rest. -/
theorem read_induction {motive : List β → Prop}
    (none : ∀ bytes, reader.next bytes = .ok none → motive bytes)
    (error : ∀ bytes e, reader.next bytes = .error e → motive bytes)
    (some : ∀ bytes a rest, reader.next bytes = .ok (some (a, rest)) → motive rest → motive bytes)
    (bytes : List β) : motive bytes := by
  induction hn : bytes.length using Nat.strongRecOn generalizing bytes with
  | ind n ih =>
    have hends := reader.ends bytes
    match hnext : reader.next bytes with
    | .ok Option.none => exact none bytes hnext
    | .error e => exact error bytes e hnext
    | .stuck => exact absurd hnext hends
    | .ok (Option.some (a, rest)) =>
      exact some bytes a rest hnext (ih _ (hn ▸ length_lt hnext) rest rfl)

theorem ends_read (bytes : List β) : (reader.read bytes).2.Ends := by
  induction bytes using reader.read_induction with
  | none bytes h =>
    rw [read_of_none h]
    exact ends_ok _
  | error bytes e h =>
    rw [read_of_error h]
    exact ends_error _
  | some bytes a rest h ih =>
    rw [read_of_some h]
    exact ih

/-- What is left holds no further item. -/
theorem next_of_read_ok {bytes left : List β} (h : (reader.read bytes).2 = .ok left) :
    reader.next left = .ok none := by
  induction bytes using reader.read_induction with
  | none bytes hnone =>
    rw [read_of_none hnone] at h
    cases h
    exact hnone
  | error bytes e herror =>
    rw [read_of_error herror] at h
    cases h
  | some bytes a rest hsome ih =>
    rw [read_of_some hsome] at h
    exact ih h

/-- What was read is read again when more has come, and then what the rest and the more hold. -/
theorem read_append_of_ok {bytes left : List β} (more : List β)
    (h : (reader.read bytes).2 = .ok left) :
    reader.read (bytes ++ more) =
      ((reader.read bytes).1 ++ (reader.read (left ++ more)).1,
        (reader.read (left ++ more)).2) := by
  induction bytes using reader.read_induction with
  | none bytes hnone =>
    rw [read_of_none hnone] at h ⊢
    cases h
    rfl
  | error bytes e herror =>
    rw [read_of_error herror] at h
    cases h
  | some bytes a rest hsome ih =>
    rw [read_of_some hsome] at h
    have ih := ih h
    rw [read_of_some (reader.some_append more hsome), read_of_some hsome, ih]
    rfl

/-- A stream that is broken stays broken in the same place. -/
theorem read_append_of_error {bytes : List β} {e : ε} (more : List β)
    (h : (reader.read bytes).2 = .error e) :
    reader.read (bytes ++ more) = ((reader.read bytes).1, .error e) := by
  induction bytes using reader.read_induction with
  | none bytes hnone =>
    rw [read_of_none hnone] at h
    cases h
  | error bytes e herror =>
    rw [read_of_error herror] at h ⊢
    cases h
    rw [read_of_error (reader.error_append more herror)]
  | some bytes a rest hsome ih =>
    rw [read_of_some hsome] at h
    rw [read_of_some (reader.some_append more hsome), read_of_some hsome, ih h]

/-- An item that stands in a part of its own is read before what follows. -/
theorem read_front {front rest : List β} {a : α} (h : reader.next front = .ok (some (a, []))) :
    reader.read (front ++ rest) = (a :: (reader.read rest).1, (reader.read rest).2) :=
  read_of_some (reader.some_append rest h)

/-- Where a reader waits it also waits before anything has come. -/
theorem next_nil {left : List β} (h : reader.next left = .ok none) :
    reader.next [] = .ok none := by
  match hnil : reader.next [] with
  | .ok Option.none => rfl
  | .ok (some (a, rest)) =>
    obtain ⟨front, hfront, happend, -⟩ := reader.some_split hnil
    exact absurd (List.append_eq_nil_iff.mp happend.symm).1 hfront
  | .error e => exact absurd ((reader.error_append left hnil).symm.trans h) (by simp)
  | .stuck => exact absurd hnil (reader.ends _)

/-- The items before the break stand in a part of the stream that is not broken. -/
theorem read_consumed {bytes : List β} {e : ε} (hnil : reader.next [] = .ok none)
    (h : (reader.read bytes).2 = .error e) :
    ∃ consumed tail, bytes = consumed ++ tail ∧
      reader.read consumed = ((reader.read bytes).1, .ok []) ∧ reader.next tail = .error e := by
  induction bytes using reader.read_induction with
  | none bytes hnone =>
    rw [read_of_none hnone] at h
    cases h
  | error bytes e' herror =>
    rw [read_of_error herror] at h ⊢
    cases h
    exact ⟨[], bytes, rfl, read_of_none hnil, herror⟩
  | some bytes a rest hsome ih =>
    obtain ⟨front, -, rfl, hfront⟩ := reader.some_split hsome
    rw [read_front hfront] at h ⊢
    obtain ⟨consumed, tail, rfl, hread, htail⟩ := ih h
    refine ⟨front ++ consumed, tail, (List.append_assoc ..).symm, ?_, htail⟩
    rw [read_front hfront, hread]

/-! ### Chunks -/

/-- One call of a decoder: the items in what was left over and the chunk that came, and what is
left over now. On an error the items are lost. -/
def decode (reader : StreamReader ε α β) (buffered chunk : List β) : Checked ε (List α × List β) :=
  (reader.read (buffered ++ chunk)).2 >>= fun left =>
    .ok ((reader.read (buffered ++ chunk)).1, left)

/-- A decoder over the chunks of a stream, until one of its calls fails. -/
def feed (decode : List β → List β → Checked ε (List α × List β)) :
    List β → List (List β) → List α × Checked ε (List β)
  | buffered, [] => ([], .ok buffered)
  | buffered, chunk :: chunks =>
    match decode buffered chunk with
    | .ok (items, left) => (items ++ (feed decode left chunks).1, (feed decode left chunks).2)
    | .error e => ([], .error e)
    | .stuck => ([], .stuck)

theorem decode_of_read_ok {buffered chunk left : List β}
    (h : (reader.read (buffered ++ chunk)).2 = .ok left) :
    reader.decode buffered chunk = .ok ((reader.read (buffered ++ chunk)).1, left) := by
  rw [decode, h, ok_bind]

theorem decode_of_read_error {buffered chunk : List β} {e : ε}
    (h : (reader.read (buffered ++ chunk)).2 = .error e) :
    reader.decode buffered chunk = .error e := by
  rw [decode, h, error_bind]

/-- **A stream that is not broken** gives what it holds, however it is cut. -/
theorem feed_of_read_ok {buffered left : List β} {chunks : List (List β)}
    (hb : reader.next buffered = .ok none)
    (h : (reader.read (buffered ++ chunks.flatten)).2 = .ok left) :
    feed reader.decode buffered chunks = reader.read (buffered ++ chunks.flatten) := by
  induction chunks generalizing buffered with
  | nil => rw [List.flatten_nil, List.append_nil, read_of_none hb, feed]
  | cons chunk chunks ih =>
    rw [List.flatten_cons, ← List.append_assoc] at h ⊢
    match hread : (reader.read (buffered ++ chunk)).2 with
    | .ok left' =>
      have happend := read_append_of_ok chunks.flatten hread
      rw [happend] at h ⊢
      rw [feed, decode_of_read_ok hread]
      show ((reader.read (buffered ++ chunk)).1 ++ (feed reader.decode left' chunks).1,
        (feed reader.decode left' chunks).2) = _
      rw [ih (next_of_read_ok hread) h]
    | .error e =>
      rw [read_append_of_error chunks.flatten hread] at h
      cases h
    | .stuck => exact absurd hread (ends_read _)

/-- **A stream that is broken** gives the items of the chunks before the one it is broken in. -/
theorem feed_of_read_error {buffered : List β} {chunks : List (List β)} {e : ε}
    (hb : reader.next buffered = .ok none)
    (h : (reader.read (buffered ++ chunks.flatten)).2 = .error e) :
    ∃ past chunk future given left,
      chunks = past ++ chunk :: future ∧
        reader.read (buffered ++ past.flatten) = (given, .ok left) ∧
        feed reader.decode buffered chunks = (given, .error e) ∧
        (reader.read (left ++ chunk)).2 = .error e ∧
        (reader.read (buffered ++ chunks.flatten)).1 =
          given ++ (reader.read (left ++ chunk)).1 := by
  induction chunks generalizing buffered with
  | nil =>
    rw [List.flatten_nil, List.append_nil, read_of_none hb] at h
    cases h
  | cons chunk chunks ih =>
    rw [List.flatten_cons, ← List.append_assoc] at h ⊢
    -- either the stream is still whole behind this chunk, or it is broken in it
    match hread : (reader.read (buffered ++ chunk)).2 with
    | .ok left' =>
      have happend := read_append_of_ok chunks.flatten hread
      rw [happend] at h ⊢
      obtain ⟨past, last, future, given, left, rfl, hpast, hfeed, hlast, hlost⟩ :=
        ih (next_of_read_ok hread) h
      refine ⟨chunk :: past, last, future, (reader.read (buffered ++ chunk)).1 ++ given, left,
        rfl, ?_, ?_, hlast, ?_⟩
      · rw [List.flatten_cons, ← List.append_assoc, read_append_of_ok past.flatten hread, hpast]
      · rw [feed, decode_of_read_ok hread]
        show (_ ++ (feed reader.decode left' _).1, (feed reader.decode left' _).2) = _
        rw [hfeed]
      · rw [hlost, List.append_assoc]
    | .error e' =>
      have happend := read_append_of_error chunks.flatten hread
      rw [happend] at h ⊢
      cases h
      refine ⟨[], chunk, chunks, [], buffered, rfl, ?_, ?_, hread, rfl⟩
      · rw [List.flatten_nil, List.append_nil, read_of_none hb]
      · rw [feed, decode_of_read_error hread]
    | .stuck => exact absurd hread (ends_read _)

/-- What is lost with a chunk would have been given, had the chunk been cut before its break. -/
theorem read_cut {left chunk : List β} {e : ε} (hleft : reader.next left = .ok none)
    (h : (reader.read (left ++ chunk)).2 = .error e) :
    ∃ part future left', chunk = part ++ future ∧
      reader.read (left ++ part) = ((reader.read (left ++ chunk)).1, .ok left') := by
  obtain ⟨consumed, tail, hsplit, hconsumed, -⟩ := read_consumed (next_nil hleft) h
  rcases List.append_eq_append_iff.mp hsplit with ⟨part, rfl, rfl⟩ | ⟨rest, rfl, rfl⟩
  · exact ⟨part, tail, [], rfl, hconsumed⟩
  · -- the break is within what was left over: no item was read before it
    have hread := read_append_of_ok rest (congrArg Prod.snd hconsumed)
    rw [read_of_none hleft, hconsumed] at hread
    have hnone := (List.append_eq_nil_iff.mp (congrArg Prod.fst hread).symm).1
    refine ⟨[], chunk, consumed ++ rest, rfl, ?_⟩
    rw [List.append_nil, read_of_none hleft]
    exact congrArg (·, _) hnone.symm

/-! ### Streams of encoded items -/

section Encoded

variable (encode : α → List β)

/-- The start of the first of some items, but not the whole of it. -/
def IsStart (left : List β) (items : List α) : Prop :=
  left = [] ∨ ∃ a rest, items = a :: rest ∧ left <+: encode a ∧ left ≠ encode a

variable {encode}

theorem read_flatMap {items : List α} (hnil : reader.next [] = .ok none)
    (h : ∀ a ∈ items, reader.next (encode a) = .ok (some (a, []))) :
    reader.read (items.flatMap encode) = (items, .ok []) := by
  induction items with
  | nil => exact read_of_none hnil
  | cons a items ih =>
    obtain ⟨ha, hitems⟩ := List.forall_mem_cons.mp h
    rw [List.flatMap_cons, read_front ha, ih hitems]

/-- The start of a stream of items reads as the first of them, and leaves less than one. -/
theorem read_of_prefix {items : List α} {part : List β} (hnil : reader.next [] = .ok none)
    (h : ∀ a ∈ items, reader.next (encode a) = .ok (some (a, [])))
    (hstart : ∀ a ∈ items, ∀ front, front <+: encode a → front ≠ encode a →
      reader.next front = .ok none)
    (hpart : part <+: items.flatMap encode) :
    ∃ given rest left, items = given ++ rest ∧ reader.read part = (given, .ok left) ∧
      IsStart encode left rest := by
  induction items generalizing part with
  | nil =>
    obtain rfl := List.prefix_nil.mp hpart
    exact ⟨[], [], [], rfl, read_of_none hnil, .inl rfl⟩
  | cons a items ih =>
    obtain ⟨ha, hitems⟩ := List.forall_mem_cons.mp h
    obtain ⟨hafront, hstart⟩ := List.forall_mem_cons.mp hstart
    rw [List.flatMap_cons] at hpart
    rcases List.prefix_or_prefix_of_prefix hpart (List.prefix_append _ _) with hwithin | hwhole
    · by_cases hwhole : part = encode a
      · exact ⟨[a], items, [], rfl, by rw [hwhole, read_of_some ha, read_of_none hnil], .inl rfl⟩
      · exact ⟨[], a :: items, part, rfl, read_of_none (hafront part hwithin hwhole),
          .inr ⟨a, items, rfl, hwithin, hwhole⟩⟩
    · obtain ⟨part, rfl⟩ := hwhole
      rw [List.prefix_append_right_inj] at hpart
      obtain ⟨given, rest, left, rfl, hread, hleft⟩ := ih hitems hstart hpart
      exact ⟨a :: given, rest, left, rfl, by rw [read_front ha, hread], hleft⟩

end Encoded

end StreamReader
