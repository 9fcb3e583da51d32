import Mathlib.Data.List.Basic

/-!
# Ordered rule lists

A packet filter is a list of rules read in order: a rule that applies either counts the packet and
passes it on, or decides it, and the first decision is the chain's. A hook runs its chains one
after the other; what a decision does there (end the hook, or hand a packet on that it may have
rewritten) is the parameter `effect`.

Packets, counters and verdicts are arbitrary types.

* `exists_verdict?_of_mem`: a rule that decides, behind rules that would decide alike, is as good
  as the first;
* `counted_of_verdict?_eq_none`, `counted_eq_nil`: what chains of counters, and chains without any,
  count.
-/

namespace PacketFilter

universe u

variable {π κ ν : Type u}

/-- What a rule does with a packet it applies to. -/
inductive Action (κ ν : Type u) where
  | count (counter : κ)
  | decide (verdict : ν)

structure Rule (π κ ν : Type u) where
  applies : π → Bool
  action : Action κ ν

namespace Rule

/-- The verdict of a rule, where it applies and decides. -/
def verdict? (r : Rule π κ ν) (p : π) : Option ν :=
  match r.applies p, r.action with
  | true, .decide verdict => some verdict
  | _, _ => none

/-- The counter of a rule, where it applies and counts. -/
def counter? (r : Rule π κ ν) (p : π) : Option κ :=
  match r.applies p, r.action with
  | true, .count counter => some counter
  | _, _ => none

theorem verdict?_eq_some {r : Rule π κ ν} {p : π} {v : ν} :
    r.verdict? p = some v ↔ r.applies p = true ∧ r.action = .decide v := by
  rw [verdict?]
  split <;> simp_all

theorem counter?_eq_some {r : Rule π κ ν} {p : π} {c : κ} :
    r.counter? p = some c ↔ r.applies p = true ∧ r.action = .count c := by
  rw [counter?]
  split <;> simp_all

end Rule

/-- The first verdict of a chain, if any of its rules has one. -/
def verdict? (rules : List (Rule π κ ν)) (p : π) : Option ν :=
  rules.findSome? fun r => r.verdict? p

/-- What a chain counts before it decides. -/
def counted : List (Rule π κ ν) → π → List κ
  | [], _ => []
  | r :: rules, p =>
    match r.verdict? p with
    | some _ => []
    | none => (r.counter? p).toList ++ counted rules p

/-- A hook: its chains in order, what they count, and the packet that leaves the last of them, if
one does. A verdict without an effect ends the hook. -/
def traverse (effect : ν → π → Option π) : List (List (Rule π κ ν)) → π → List κ × Option π
  | [], p => ([], some p)
  | rules :: chains, p =>
    match (verdict? rules p).elim (some p) (effect · p) with
    | none => (counted rules p, none)
    | some q => (counted rules p ++ (traverse effect chains q).1, (traverse effect chains q).2)

variable {rules before after : List (Rule π κ ν)} {p q : π}

/-! ### Chains -/

theorem verdict?_append (p : π) :
    verdict? (before ++ after) p = (verdict? before p).or (verdict? after p) :=
  List.findSome?_append

/-- A verdict is that of a rule. -/
theorem exists_mem_of_verdict? {v : ν} (h : verdict? rules p = some v) :
    ∃ r ∈ rules, r.verdict? p = some v :=
  List.exists_of_findSome?_eq_some h

theorem verdict?_eq_none :
    verdict? rules p = none ↔ ∀ r ∈ rules, r.verdict? p = none :=
  List.findSome?_eq_none_iff

/-- **A rule that decides, among rules that decide alike.** If some rule decides a packet one of
the `V` ways and no rule up to it decides it any other, so does the chain. -/
theorem exists_verdict?_of_mem {V : ν → Prop} (before after : List (Rule π κ ν))
    {r : Rule π κ ν} {v : ν}
    (hr : r.verdict? p = some v) (hv : V v)
    (hbefore : ∀ r' ∈ before, ∀ v', r'.verdict? p = some v' → V v') :
    ∃ v', verdict? (before ++ r :: after) p = some v' ∧ V v' := by
  rw [verdict?_append]
  cases hfirst : verdict? before p with
  | some v' =>
    obtain ⟨r', hr', hv'⟩ := exists_mem_of_verdict? hfirst
    exact ⟨v', rfl, hbefore r' hr' v' hv'⟩
  | none =>
    refine ⟨v, ?_, hv⟩
    rw [Option.none_or, verdict?, List.findSome?_cons, hr]

/-- A chain of counters counts whatever applies. -/
theorem counted_of_verdict?_eq_none (h : verdict? rules p = none) :
    counted rules p = rules.filterMap fun r => r.counter? p := by
  induction rules with
  | nil => rfl
  | cons r rules ih =>
    rw [verdict?_eq_none] at h
    have hr := h r List.mem_cons_self
    have hrest := ih (verdict?_eq_none.mpr fun r' hr' => h r' (List.mem_cons_of_mem _ hr'))
    rw [counted, hr]
    cases hcounter : r.counter? p with
    | none => simp [hcounter, hrest]
    | some counter => simp [hcounter, hrest]

/-- A chain without counters counts nothing. -/
theorem counted_eq_nil (h : ∀ r ∈ rules, ∀ p, r.counter? p = none) (p : π) :
    counted rules p = [] := by
  induction rules with
  | nil => rfl
  | cons r rules ih =>
    have hrest := ih fun r' hr' => h r' (List.mem_cons_of_mem _ hr')
    rw [counted]
    split
    · rfl
    · rw [h r List.mem_cons_self p, hrest]
      rfl

/-! ### Hooks -/

variable {effect : ν → π → Option π} {chains : List (List (Rule π κ ν))}

/-- A chain that ends the hook ends it whatever comes after. -/
theorem traverse_cons_of_ends {v : ν} (h : verdict? rules p = some v) (hv : effect v p = none) :
    traverse effect (rules :: chains) p = (counted rules p, none) := by
  rw [traverse, h, Option.elim_some, hv]

/-- A chain that hands a packet on. -/
theorem traverse_cons_of_passes (h : (verdict? rules p).elim (some p) (effect · p) = some q) :
    traverse effect (rules :: chains) p =
      (counted rules p ++ (traverse effect chains q).1, (traverse effect chains q).2) := by
  rw [traverse, h]

end PacketFilter
