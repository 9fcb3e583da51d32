import Nibrunner.ForStd.Interruptible

/-!
# What a program did

The history of a program is the list of its actions, each with its reply. `run` runs a program under
an environment that replies as it likes, also to the same action differently each time, and `Does`
says which histories a program has; it is what can be said of a program part by part
(`does_bind_iff`).
-/

universe u

namespace Program

variable {Action : Type u} {Reply : Action → Type u} {α β : Type u}

/-- An action and its reply. -/
abbrev Event (Action : Type u) (Reply : Action → Type u) : Type u := (e : Action) × Reply e

/-- The history of a program and what it ends in, with the reply to each action in turn. -/
def run (replies : ℕ → (e : Action) → Reply e) :
    ℕ → Program Action Reply α → List (Event Action Reply) × α
  | _, done a => ([], a)
  | n, act e k =>
    let reply := replies n e
    let rest := run replies (n + 1) (k reply)
    (⟨e, reply⟩ :: rest.1, rest.2)

/-- The program may have the history and end in the value. -/
def Does : Program Action Reply α → List (Event Action Reply) → α → Prop
  | done a, events, b => events = [] ∧ a = b
  | act e k, events, b => ∃ reply rest, events = ⟨e, reply⟩ :: rest ∧ (k reply).Does rest b

theorem does_run (replies : ℕ → (e : Action) → Reply e) (n : ℕ) (p : Program Action Reply α) :
    p.Does (p.run replies n).1 (p.run replies n).2 := by
  induction p generalizing n with
  | done a => exact ⟨rfl, rfl⟩
  | act e k ih => exact ⟨replies n e, _, rfl, ih _ (n + 1)⟩

@[simp] theorem does_pure_iff {a b : α} {events : List (Event Action Reply)} :
    (pure a : Program Action Reply α).Does events b ↔ events = [] ∧ a = b := Iff.rfl

@[simp] theorem does_perform_iff {e : Action} {reply : Reply e}
    {events : List (Event Action Reply)} :
    (perform e : Program Action Reply (Reply e)).Does events reply ↔ events = [⟨e, reply⟩] := by
  constructor
  · rintro ⟨_, _, rfl, rfl, rfl⟩
    rfl
  · rintro rfl
    exact ⟨reply, [], rfl, rfl, rfl⟩

/-- One program after another does what the first did and then what the second does. -/
theorem does_bind_iff {p : Program Action Reply α} {f : α → Program Action Reply β}
    {events : List (Event Action Reply)} {b : β} :
    (p >>= f).Does events b ↔
      ∃ a front back, events = front ++ back ∧ p.Does front a ∧ (f a).Does back b := by
  induction p generalizing events with
  | done a =>
    constructor
    · intro h
      exact ⟨a, [], events, rfl, ⟨rfl, rfl⟩, h⟩
    · rintro ⟨_, _, back, rfl, ⟨rfl, rfl⟩, h⟩
      exact h
  | act e k ih =>
    constructor
    · rintro ⟨reply, rest, rfl, h⟩
      obtain ⟨a, front, back, rfl, hfront, hback⟩ := (ih reply).mp h
      exact ⟨a, _, back, (List.cons_append ..).symm, ⟨reply, front, rfl, hfront⟩, hback⟩
    · rintro ⟨a, _, back, rfl, ⟨reply, front, rfl, hfront⟩, hback⟩
      exact ⟨reply, front ++ back, rfl, (ih reply).mpr ⟨a, front, back, rfl, hfront, hback⟩⟩

/-- The program of one action and what comes after its reply. -/
theorem does_perform_bind_iff {e : Action} {f : Reply e → Program Action Reply β}
    {events : List (Event Action Reply)} {b : β} :
    (perform e >>= f).Does events b ↔
      ∃ reply rest, events = ⟨e, reply⟩ :: rest ∧ (f reply).Does rest b := Iff.rfl

end Program
