import Mathlib.Logic.Relation
import Nibrunner.ForStd.Run

/-!
# Programs that may be cut between any two actions

A `Program` is a tree of actions: what it does next depends on what the last action replied.
Nothing of it outlives a cut but what its actions left in the world. Between two actions the
world may move by itself, and the reply of an action is the environment's choice.

`Safe I p Q s` is the weakest precondition of such a program: from `s`, whatever the
environment does, `I` holds at every point at which the program can be cut, and `Q` holds where
it ends. `Triple I P p Q` is the rule form: assertions that the world's own moves keep (`Stable`)
are carried from one action to the next, one rule for each way of composing programs.

A `System` runs programs one after another, cuts them anywhere, and runs a recovery program
after a cut. `System.invariant` is the rule for it: if every program, the recovery included, is
safe from every state of `I`, then `I` holds in every state of every run.
-/

universe u

/-- A program over the actions `Action`, whose action `e` is answered by a `Reply e`. -/
inductive Program (Action : Type u) (Reply : Action → Type u) (α : Type u) : Type u where
  | done (a : α)
  | act (e : Action) (k : Reply e → Program Action Reply α)

namespace Program

variable {Action : Type u} {Reply : Action → Type u} {α β : Type u}

protected def bind : Program Action Reply α → (α → Program Action Reply β) →
    Program Action Reply β
  | done a, f => f a
  | act e k, f => act e fun r => (k r).bind f

instance : Monad (Program Action Reply) where
  pure := done
  bind := Program.bind

/-- The program of one action. -/
def perform (e : Action) : Program Action Reply (Reply e) := act e done

end Program

/-- Programs over a world: what an action does under each choice of the environment, the
world's own moves, and the steps the environment may take. -/
structure Interruptible (Action : Type u) (Reply : Action → Type u) (σ κ μ : Type u) where
  perform : (e : Action) → κ → σ → σ × Reply e
  drift : μ → σ → σ
  allowed : σ → Action → κ → Prop

namespace Interruptible

open Relation

variable {Action : Type u} {Reply : Action → Type u} {σ κ μ α β : Type u}
variable (T : Interruptible Action Reply σ κ μ) (I : σ → Prop)

/-- The world moved by itself. -/
def Drifts (s s' : σ) : Prop := ∃ m, s' = T.drift m s

/-- The world's own moves keep `P`. -/
def Stable (P : σ → Prop) : Prop := ∀ m s, P s → P (T.drift m s)

/-- Wherever the program is cut `I` holds, and where it ends `Q` does. -/
def Safe : Program Action Reply α → (α → σ → Prop) → σ → Prop
  | .done a, Q, s => Q a s
  | .act e k, Q, s => ∀ s', ReflTransGen T.Drifts s s' → I s' ∧
      ∀ c, T.allowed s' e c → Safe (k (T.perform e c s').2) Q (T.perform e c s').1

/-- From every state of `P` the program is safe with `Q`. -/
def Triple (P : σ → Prop) (p : Program Action Reply α) (Q : α → σ → Prop) : Prop :=
  ∀ s, P s → T.Safe I p Q s

variable {T I}

theorem Stable.drifts {P : σ → Prop} (hP : T.Stable P) {s s' : σ}
    (h : ReflTransGen T.Drifts s s') (hs : P s) : P s' := by
  induction h with
  | refl => exact hs
  | tail _ hm ih =>
    obtain ⟨m, rfl⟩ := hm
    exact hP m _ ih

/-- What holds of a program that has actions left holds after the world moved by itself. -/
theorem Safe.drift {e : Action} {k : Reply e → Program Action Reply α} {Q : α → σ → Prop}
    {s : σ} (h : T.Safe I (.act e k) Q s) (m : μ) : T.Safe I (.act e k) Q (T.drift m s) :=
  fun s' hs' => h s' (ReflTransGen.head ⟨m, rfl⟩ hs')

theorem Safe.mono {p : Program Action Reply α} {Q Q' : α → σ → Prop} {s : σ}
    (h : T.Safe I p Q s) (hQ : ∀ a s, Q a s → Q' a s) : T.Safe I p Q' s := by
  induction p generalizing s with
  | done a => exact hQ a s h
  | act e k ih =>
    intro s' hs'
    obtain ⟨hI, hk⟩ := h s' hs'
    exact ⟨hI, fun c hc => ih _ (hk c hc)⟩

/-- A program that keeps `I` where it ends starts in it. -/
theorem Safe.here {p : Program Action Reply α} {s : σ} (h : T.Safe I p (fun _ => I) s) :
    I s := by
  cases p with
  | done a => exact h
  | act e k => exact (h s .refl).1

theorem Safe.bind {p : Program Action Reply α} {f : α → Program Action Reply β}
    {Q : α → σ → Prop} {R : β → σ → Prop} {s : σ} (h : T.Safe I p Q s)
    (hf : ∀ a s, Q a s → T.Safe I (f a) R s) : T.Safe I (p >>= f) R s := by
  induction p generalizing s with
  | done a => exact hf a s h
  | act e k ih =>
    intro s' hs'
    obtain ⟨hI, hk⟩ := h s' hs'
    exact ⟨hI, fun c hc => ih _ (hk c hc)⟩

namespace Triple

variable {P P' : σ → Prop} {Q Q' : α → σ → Prop} {R : β → σ → Prop}

protected theorem pure {a : α} (h : ∀ s, P s → Q a s) :
    T.Triple I P (pure a : Program Action Reply α) Q := h

/-- The rule of one action, from an assertion the world's own moves keep. -/
protected theorem perform {e : Action} {Q : Reply e → σ → Prop} (hP : T.Stable P)
    (hI : ∀ s, P s → I s)
    (h : ∀ s c, P s → T.allowed s e c → Q (T.perform e c s).2 (T.perform e c s).1) :
    T.Triple I P (Program.perform e) Q := by
  intro s hs s' hs'
  have hP' : P s' := hP.drifts hs' hs
  exact ⟨hI s' hP', fun c hc => h s' c hP' hc⟩

protected theorem bind {p : Program Action Reply α} {f : α → Program Action Reply β}
    (hp : T.Triple I P p Q) (hf : ∀ a, T.Triple I (Q a) (f a) R) :
    T.Triple I P (p >>= f) R :=
  fun s hs => Safe.bind (hp s hs) fun a s ha => hf a s ha

/-- The rule of a step that may fail. -/
protected theorem fallible {ε : Type u} {p : Program Action Reply (Except ε α)}
    {f : Except ε α → Program Action Reply β} {Q : Except ε α → σ → Prop}
    (hp : T.Triple I P p Q) (hfailed : ∀ e, T.Triple I (Q (.error e)) (f (.error e)) R)
    (hdone : ∀ a, T.Triple I (Q (.ok a)) (f (.ok a)) R) : T.Triple I P (p >>= f) R := by
  refine hp.bind ?_
  rintro (e | a)
  · exact hfailed e
  · exact hdone a

protected theorem mono {p : Program Action Reply α} (hp : T.Triple I P p Q)
    (hP : ∀ s, P' s → P s) (hQ : ∀ a s, Q a s → Q' a s) : T.Triple I P' p Q' :=
  fun s hs => (hp s (hP s hs)).mono hQ

/-- The rule of consequence on the left. -/
protected theorem of_le {p : Program Action Reply α} (hp : T.Triple I P p Q)
    (hP : ∀ s, P' s → P s) : T.Triple I P' p Q := hp.mono hP fun _ _ h => h

/-- The rule of consequence on the right. -/
protected theorem to_le {p : Program Action Reply α} (hp : T.Triple I P p Q)
    (hQ : ∀ a s, Q a s → Q' a s) : T.Triple I P p Q' := hp.mono (fun _ h => h) hQ

end Triple

end Interruptible

/-- A system that runs programs over a world one after another. A cut loses the program that
was running, moves the world, and starts the recovery program. -/
structure InterruptibleSystem (Action : Type u) (Reply : Action → Type u) (σ κ μ : Type u)
    (Op Cut : Type u) extends Interruptible Action Reply σ κ μ where
  Result : Type u
  program : σ → Op → Program Action Reply Result
  cut : Cut → σ → σ
  recovery : σ → Program Action Reply Result

namespace InterruptibleSystem

variable {Action : Type u} {Reply : Action → Type u} {σ κ μ Op Cut : Type u}

/-- The world, and what is left to run of the program that is running. -/
structure State (M : InterruptibleSystem Action Reply σ κ μ Op Cut) where
  world : σ
  running : Option (Program Action Reply M.Result)

inductive Move (κ μ Op Cut : Type u) where
  | start (op : Op)
  | step (c : κ)
  | drift (m : μ)
  | cut (c : Cut)

variable (M : InterruptibleSystem Action Reply σ κ μ Op Cut)

/-- A program with no action left is over. -/
def settle (world : σ) : Program Action Reply M.Result → State M
  | .done _ => ⟨world, none⟩
  | .act e k => ⟨world, some (.act e k)⟩

/-- One move. Programs do not overlap: one starts only where none is running. -/
def step (s : State M) : Move κ μ Op Cut → State M
  | .start op =>
    match s.running with
    | none => M.settle s.world (M.program s.world op)
    | some _ => s
  | .step c =>
    match s.running with
    | some (.act e k) =>
      M.settle (M.perform e c s.world).1 (k (M.perform e c s.world).2)
    | _ => s
  | .drift m => { s with world := M.drift m s.world }
  | .cut c => M.settle (M.cut c s.world) (M.recovery (M.cut c s.world))

/-- The environment's choice at this move is one it is allowed. -/
def Allowed (s : State M) : Move κ μ Op Cut → Prop
  | .step c =>
    match s.running with
    | some (.act e _) => M.allowed s.world e c
    | _ => True
  | _ => True

instance [∀ w e c, Decidable (M.allowed w e c)] (s : State M) (m : Move κ μ Op Cut) :
    Decidable (M.Allowed s m) :=
  match m, s with
  | .start _, _ | .step _, ⟨_, none⟩ | .step _, ⟨_, some (.done _)⟩ => .isTrue trivial
  | .step c, ⟨w, some (.act e _)⟩ => inferInstanceAs (Decidable (M.allowed w e c))
  | .drift _, _ => .isTrue trivial
  | .cut _, _ => .isTrue trivial

/-- `I` holds now, and what is left to run is safe. -/
def Held (I : σ → Prop) (s : State M) : Prop :=
  I s.world ∧ ∀ p, s.running = some p → M.Safe I p (fun _ => I) s.world

variable {M} {I : σ → Prop}

theorem held_settle {w : σ} {p : Program Action Reply M.Result} (hI : I w)
    (h : M.Safe I p (fun _ => I) w) : M.Held I (M.settle w p) := by
  cases p with
  | done a => exact ⟨hI, fun q hq => (nomatch hq)⟩
  | act e k =>
    refine ⟨hI, fun q hq => ?_⟩
    obtain rfl : _ = q := Option.some.inj hq
    exact h

/-- One move keeps what holds. -/
theorem held_step (hI : M.Stable I)
    (hprogram : ∀ w op, I w → M.Safe I (M.program w op) (fun _ => I) w)
    (hcut : ∀ c w, I w → I (M.cut c w))
    (hrecovery : ∀ w, I w → M.Safe I (M.recovery w) (fun _ => I) w)
    (s : State M) (m : Move κ μ Op Cut) (hs : M.Held I s) (hm : M.Allowed s m) :
    M.Held I (M.step s m) := by
  obtain ⟨w, running⟩ := s
  obtain ⟨hw, hrun⟩ := hs
  -- an operation starts, its next effect is done, the world drifts, or the run is cut and recovers
  cases m with
  | start op =>
    cases running with
    | none => exact held_settle hw (hprogram w op hw)
    | some p => exact ⟨hw, hrun⟩
  | step c =>
    cases running with
    | none => exact ⟨hw, hrun⟩
    | some p =>
      cases p with
      | done a => exact ⟨hw, hrun⟩
      | act e k =>
        have hk := (hrun _ rfl w .refl).2 c hm
        exact held_settle hk.here hk
  | drift m =>
    refine ⟨hI m w hw, fun p hp => ?_⟩
    have hp' : running = some p := hp
    cases p with
    | done a => exact hI m w hw
    | act e k => exact (hrun _ hp').drift m
  | cut c =>
    exact held_settle (hcut c w hw) (hrecovery _ (hcut c w hw))

/-- **The invariant rule.** What every program and the recovery keep, wherever they are cut,
holds along every run. -/
theorem invariant (hI : M.Stable I)
    (hprogram : ∀ w op, I w → M.Safe I (M.program w op) (fun _ => I) w)
    (hcut : ∀ c w, I w → I (M.cut c w))
    (hrecovery : ∀ w, I w → M.Safe I (M.recovery w) (fun _ => I) w)
    {w : σ} (hw : I w) {moves : List (Move κ μ Op Cut)}
    (hm : Run.Meets M.step M.Allowed ⟨w, none⟩ moves) :
    I (Run.run M.step ⟨w, none⟩ moves).world := by
  have hstart : M.Held I ⟨w, none⟩ := ⟨hw, fun p hp => (nomatch hp)⟩
  exact (Run.Meets.invariant (held_step hI hprogram hcut hrecovery) hstart hm).1

end InterruptibleSystem
