import Mathlib.Computability.Language

/-!
# Words put together

What membership in a language says of a word, for the languages a text format is described with:
one letter of a class (`letter`), so many words of a language after each other (`timesOf`), labels
whose ends are of a narrower class than their inside (`mem_label`), and words of a language with
separators between them, which are what splitting gives back (`mem_separated`); of separators of
two kinds the last one of a kind may be set apart (`mem_marked`).

`Over p` are the words over a class of letters.
-/

namespace Words

open Computability

variable {α β : Type} {p q : α → Bool} {v w : Language α} {x y : List α} {n : ℕ}

/-- The words of one letter of a class. -/
def letter (p : α → Bool) : Language α := { x | ∃ c, p c = true ∧ x = [c] }

/-- The words all of whose letters are of a class. -/
def Over (p : α → Bool) : Language α := { x | ∀ c ∈ x, p c = true }

/-- `n` is within the bounds of a repetition. -/
def Within (least : ℕ) (most : Option ℕ) (n : ℕ) : Prop := least ≤ n ∧ ∀ m, most = some m → n ≤ m

/-- So many words of a language after each other as are within the bounds. -/
def timesOf (v : Language α) (least : ℕ) (most : Option ℕ) : Language α :=
  { x | ∃ n, Within least most n ∧ x ∈ v ^ n }

/-! ### One letter, and so many -/

theorem mem_letter_mul : x ∈ letter p * w ↔ ∃ c y, x = c :: y ∧ p c = true ∧ y ∈ w := by
  constructor
  · rintro ⟨-, ⟨c, hc, rfl⟩, y, hy, rfl⟩
    exact ⟨c, y, List.singleton_append, hc, hy⟩
  · rintro ⟨c, y, rfl, hc, hy⟩
    exact ⟨[c], ⟨c, hc, rfl⟩, y, hy, List.singleton_append⟩

@[simp] theorem cons_mem_letter_mul {c : α} : c :: x ∈ letter p * w ↔ p c = true ∧ x ∈ w := by
  rw [mem_letter_mul]
  constructor
  · rintro ⟨d, y, heq, hd, hy⟩
    obtain ⟨rfl, rfl⟩ := List.cons.inj heq
    exact ⟨hd, hy⟩
  · exact fun h => ⟨c, x, rfl, h⟩

@[simp] theorem nil_mem_letter_mul : [] ∈ letter p * w ↔ False := by
  rw [mem_letter_mul, iff_false]
  rintro ⟨c, y, h, -⟩
  exact List.cons_ne_nil c y h.symm

theorem letter_or : letter (fun c => p c || q c) = letter p + letter q := by
  ext x
  constructor
  · rintro ⟨c, hc, rfl⟩
    rcases Bool.or_eq_true_iff.mp hc with hc | hc
    · exact .inl ⟨c, hc, rfl⟩
    · exact .inr ⟨c, hc, rfl⟩
  · rintro (⟨c, hc, rfl⟩ | ⟨c, hc, rfl⟩)
    · exact ⟨c, Bool.or_eq_true_iff.mpr (.inl hc), rfl⟩
    · exact ⟨c, Bool.or_eq_true_iff.mpr (.inr hc), rfl⟩

theorem mem_letter_pow : x ∈ letter p ^ n ↔ x.length = n ∧ x ∈ Over p := by
  induction n generalizing x with
  | zero =>
    rw [pow_zero, Language.mem_one, List.length_eq_zero_iff]
    refine ⟨fun h => ⟨h, ?_⟩, And.left⟩
    rw [h]
    exact fun c hc => absurd hc List.not_mem_nil
  | succ n ih =>
    rw [pow_succ', mem_letter_mul]
    constructor
    · rintro ⟨c, y, rfl, hc, hy⟩
      obtain ⟨hlen, hy⟩ := ih.mp hy
      exact ⟨by rw [List.length_cons, hlen], List.forall_mem_cons.mpr ⟨hc, hy⟩⟩
    · rintro ⟨hlen, hx⟩
      obtain ⟨c, y, rfl⟩ := List.exists_cons_of_length_eq_add_one hlen
      obtain ⟨hc, hy⟩ := List.forall_mem_cons.mp hx
      exact ⟨c, y, rfl, hc, ih.mpr ⟨Nat.succ.inj hlen, hy⟩⟩

theorem mem_timesOf_letter {least : ℕ} {most : Option ℕ} :
    x ∈ timesOf (letter p) least most ↔ Within least most x.length ∧ x ∈ Over p := by
  constructor
  · rintro ⟨n, hn, hx⟩
    obtain ⟨rfl, hover⟩ := mem_letter_pow.mp hx
    exact ⟨hn, hover⟩
  · exact fun ⟨hn, hx⟩ => ⟨_, hn, mem_letter_pow.mpr ⟨rfl, hx⟩⟩

/-- So many words of a language and no others. -/
theorem timesOf_exact (v : Language α) (n : ℕ) : timesOf v n (some n) = v ^ n := by
  ext x
  constructor
  · rintro ⟨m, ⟨hleast, hmost⟩, hx⟩
    rwa [Nat.le_antisymm (hmost n rfl) hleast] at hx
  · exact fun hx => ⟨n, ⟨le_rfl, fun _ h => Option.some.inj h ▸ le_rfl⟩, hx⟩

/-- At most one word of a language. -/
theorem timesOf_zero_one : timesOf v 0 (some 1) = 1 + v := by
  ext x
  rw [Language.mem_add, Language.mem_one]
  constructor
  · rintro ⟨n, ⟨-, hn⟩, hx⟩
    rcases Nat.le_one_iff_eq_zero_or_eq_one.mp (hn 1 rfl) with rfl | rfl
    · rw [pow_zero] at hx
      exact .inl hx
    · rw [pow_one] at hx
      exact .inr hx
  · rintro (rfl | hx)
    · exact ⟨0, ⟨le_rfl, fun m _ => Nat.zero_le m⟩, by rw [pow_zero]; exact Language.nil_mem_one⟩
    · refine ⟨1, ⟨Nat.zero_le 1, fun m hm => ?_⟩, by rwa [pow_one]⟩
      obtain rfl := Option.some.inj hm
      exact le_rfl

/-- A word of a language, and then any number of another's. -/
theorem mem_mul_timesOf_zero : x ∈ v * timesOf w 0 none ↔ ∃ n, x ∈ v * w ^ n := by
  constructor
  · rintro ⟨y, hy, z, ⟨n, -, hz⟩, rfl⟩
    exact ⟨n, Language.append_mem_mul hy hz⟩
  · rintro ⟨n, y, hy, z, hz, rfl⟩
    exact Language.append_mem_mul hy ⟨n, ⟨Nat.zero_le n, fun _ h => by cases h⟩, hz⟩

/-- A word of a language at least. -/
theorem timesOf_one : timesOf v 1 none = v * timesOf v 0 none := by
  ext x
  rw [mem_mul_timesOf_zero]
  constructor
  · rintro ⟨n, ⟨hn, -⟩, hx⟩
    refine ⟨n - 1, ?_⟩
    rwa [← pow_succ', Nat.sub_add_cancel hn]
  · rintro ⟨n, hx⟩
    rw [← pow_succ'] at hx
    exact ⟨n + 1, ⟨Nat.le_add_left 1 n, fun _ h => by cases h⟩, hx⟩

/-! ### Letter for letter -/

theorem map_letter {f : α → β} {r : β → Bool} (h : ∀ b, r b = true ↔ ∃ c, p c = true ∧ f c = b) :
    Language.map f (letter p) = letter r := by
  ext x
  constructor
  · rintro ⟨-, ⟨c, hc, rfl⟩, rfl⟩
    exact ⟨f c, (h _).mpr ⟨c, hc, rfl⟩, rfl⟩
  · rintro ⟨b, hb, rfl⟩
    obtain ⟨c, hc, rfl⟩ := (h b).mp hb
    exact ⟨[c], ⟨c, hc, rfl⟩, rfl⟩

theorem map_timesOf (f : α → β) (v : Language α) (least : ℕ) (most : Option ℕ) :
    Language.map f (timesOf v least most) = timesOf (Language.map f v) least most := by
  ext x
  constructor
  · rintro ⟨y, ⟨n, hn, hy⟩, rfl⟩
    refine ⟨n, hn, ?_⟩
    rw [← map_pow]
    exact ⟨y, hy, rfl⟩
  · rintro ⟨n, hn, hx⟩
    rw [← map_pow] at hx
    obtain ⟨y, hy, rfl⟩ := hx
    exact ⟨y, ⟨n, hn, hy⟩, rfl⟩

/-! ### Labels -/

/-- **A label** begins and ends with a letter of a narrower class than its inside. -/
theorem mem_label {edge inner : α → Bool} (h : ∀ c, edge c = true → inner c = true)
    {most : Option ℕ} :
    x ∈ letter edge * (1 + timesOf (letter inner) 0 most * letter edge) ↔
      x.head?.any edge = true ∧ x.getLast?.any edge = true ∧ x ∈ Over inner ∧
        Within 0 most (x.length - 2) := by
  constructor
  · rw [mem_letter_mul]
    rintro ⟨c, y, rfl, hc, (rfl : y = []) | ⟨z, hz, -, ⟨d, hd, rfl⟩, rfl⟩⟩
    · exact ⟨hc, hc, List.forall_mem_singleton.mpr (h c hc), Nat.zero_le 0,
        fun m _ => Nat.zero_le m⟩
    · obtain ⟨hlen, hz⟩ := mem_timesOf_letter.mp hz
      refine ⟨hc, ?_, ?_, ?_⟩
      · rw [← List.cons_append, List.getLast?_concat]
        exact hd
      · refine List.forall_mem_cons.mpr ⟨h c hc, List.forall_mem_append.mpr ⟨hz, ?_⟩⟩
        exact List.forall_mem_singleton.mpr (h d hd)
      · simpa using hlen
  · rintro ⟨hhead, hlast, hx, hlen⟩
    cases x with
    | nil => cases hhead
    | cons c y =>
      refine cons_mem_letter_mul.mpr ⟨hhead, ?_⟩
      rcases List.eq_nil_or_concat y with rfl | ⟨z, d, rfl⟩
      · exact .inl rfl
      · rw [List.concat_eq_append, ← List.cons_append, List.getLast?_concat] at hlast
        rw [List.concat_eq_append] at hx hlen ⊢
        obtain ⟨-, hz⟩ := List.forall_mem_cons.mp hx
        obtain ⟨hz, -⟩ := List.forall_mem_append.mp hz
        refine .inr ⟨z, mem_timesOf_letter.mpr ⟨?_, hz⟩, [d], ⟨d, hlast, rfl⟩, rfl⟩
        simpa using hlen

/-! ### Separators -/

/-- A word has no letter of a class, or a first one. -/
theorem over_or_first (p : α → Bool) (x : List α) :
    (∀ c ∈ x, p c = false) ∨
      ∃ y c z, x = y ++ c :: z ∧ p c = true ∧ ∀ d ∈ y, p d = false := by
  induction x with
  | nil => exact .inl fun c hc => absurd hc List.not_mem_nil
  | cons c x ih =>
    cases hc : p c with
    | true => exact .inr ⟨[], c, x, rfl, hc, fun d hd => absurd hd List.not_mem_nil⟩
    | false =>
      refine ih.imp (fun hx => List.forall_mem_cons.mpr ⟨hc, hx⟩) ?_
      rintro ⟨y, d, z, rfl, hd, hy⟩
      exact ⟨c :: y, d, z, rfl, hd, List.forall_mem_cons.mpr ⟨hc, hy⟩⟩

/-- **Words with separators between them** are the parts of a word that is split at them. -/
theorem mem_separated {sep : α → Bool} (hv : ∀ x ∈ v, ∀ c ∈ x, sep c = false) :
    x ∈ v * (letter sep * v) ^ n ↔
      (x.splitOnP sep).length = n + 1 ∧ ∀ part ∈ x.splitOnP sep, part ∈ v := by
  have hsucc (n : ℕ) : v * (letter sep * v) ^ (n + 1) =
      v * (letter sep * (v * (letter sep * v) ^ n)) := by
    rw [pow_succ', mul_assoc]
  constructor
  · intro hx
    induction n generalizing x with
    | zero =>
      rw [pow_zero, mul_one] at hx
      rw [List.splitOnP_eq_singleton (hv x hx)]
      exact ⟨rfl, List.forall_mem_singleton.mpr hx⟩
    | succ n ih =>
      rw [hsucc] at hx
      obtain ⟨y, hy, -, ⟨-, ⟨c, hc, rfl⟩, z, hz, rfl⟩, rfl⟩ := hx
      obtain ⟨hlen, hparts⟩ := ih hz
      have hsplit : (y ++ ([c] ++ z)).splitOnP sep = y :: z.splitOnP sep :=
        List.splitOnP_append_cons_of_forall_mem (hv y hy) c hc z
      rw [hsplit, List.length_cons, hlen]
      exact ⟨rfl, List.forall_mem_cons.mpr ⟨hy, hparts⟩⟩
  · rintro ⟨hlen, hparts⟩
    induction n generalizing x with
    | zero =>
      rcases over_or_first sep x with hx | ⟨y, c, z, rfl, hc, hy⟩
      · rw [List.splitOnP_eq_singleton hx] at hparts
        rw [pow_zero, mul_one]
        exact hparts x (List.mem_singleton_self x)
      · rw [List.splitOnP_append_cons_of_forall_mem hy c hc z, List.length_cons] at hlen
        have hne := List.length_pos_of_ne_nil (List.splitOnP_ne_nil sep z)
        omega
    | succ n ih =>
      rcases over_or_first sep x with hx | ⟨y, c, z, rfl, hc, hy⟩
      · rw [List.splitOnP_eq_singleton hx, List.length_singleton] at hlen
        omega
      · rw [List.splitOnP_append_cons_of_forall_mem hy c hc z] at hlen hparts
        obtain ⟨hy', hparts⟩ := List.forall_mem_cons.mp hparts
        rw [hsucc]
        refine Language.append_mem_mul hy' (cons_mem_letter_mul.mpr ⟨hc, ih ?_ hparts⟩)
        rw [List.length_cons] at hlen
        omega

/-- Any number of separators. -/
theorem mem_separated_any {sep : α → Bool} (hv : ∀ x ∈ v, ∀ c ∈ x, sep c = false) :
    x ∈ v * timesOf (letter sep * v) 0 none ↔ ∀ part ∈ x.splitOnP sep, part ∈ v := by
  simp only [mem_mul_timesOf_zero, mem_separated hv]
  refine ⟨fun ⟨_, _, h⟩ => h, fun h => ⟨(x.splitOnP sep).length - 1, ?_, h⟩⟩
  rw [Nat.sub_add_cancel (List.length_pos_of_ne_nil (List.splitOnP_ne_nil sep x))]

/-- One separator at least. -/
theorem mem_separated_some {sep : α → Bool} (hv : ∀ x ∈ v, ∀ c ∈ x, sep c = false) :
    x ∈ v * timesOf (letter sep * v) 1 none ↔
      2 ≤ (x.splitOnP sep).length ∧ ∀ part ∈ x.splitOnP sep, part ∈ v := by
  have hmem : x ∈ v * timesOf (letter sep * v) 1 none ↔
      ∃ n, x ∈ v * (letter sep * v) ^ (n + 1) := by
    rw [timesOf_one, ← mul_assoc, mem_mul_timesOf_zero]
    simp only [mul_assoc, pow_succ']
  simp only [hmem, mem_separated hv]
  constructor
  · rintro ⟨n, hlen, h⟩
    exact ⟨by omega, h⟩
  · rintro ⟨hlen, h⟩
    exact ⟨(x.splitOnP sep).length - 2, by omega, h⟩

/-- Any number of words of a language is what the star of the language holds. -/
theorem timesOf_zero : timesOf v 0 none = v∗ := by
  ext x
  rw [Language.kstar_eq_iSup_pow, Language.mem_iSup]
  exact ⟨fun ⟨n, _, hx⟩ => ⟨n, hx⟩,
    fun ⟨n, hx⟩ => ⟨n, ⟨Nat.zero_le n, fun _ h => by cases h⟩, hx⟩⟩

/-- **The last mark apart.** Separators of which one at least is a mark: some, a mark, and then the
others. -/
theorem mem_marked {sep mark plain : α → Bool} (hsep : ∀ c, sep c = (mark c || plain c))
    (hv : ∀ x ∈ v, ∀ c ∈ x, mark c = false) :
    x ∈ v * (timesOf (letter sep * v) 0 none *
        (letter mark * (v * timesOf (letter plain * v) 0 none))) ↔
      x ∈ v * timesOf (letter sep * v) 0 none ∧ ∃ c ∈ x, mark c = true := by
  have hmark : letter mark ≤ letter sep := fun _ ⟨c, hc, hx⟩ =>
    ⟨c, by rw [hsep, hc, Bool.true_or], hx⟩
  have hplain : letter plain ≤ letter sep := fun _ ⟨c, hc, hx⟩ =>
    ⟨c, by rw [hsep, hc, Bool.or_true], hx⟩
  rw [timesOf_zero, timesOf_zero]
  constructor
  · intro hx
    constructor
    · have hle : v * ((letter sep * v)∗ * (letter mark * (v * (letter plain * v)∗))) ≤
          v * (letter sep * v)∗ := by
        calc v * ((letter sep * v)∗ * (letter mark * (v * (letter plain * v)∗)))
            ≤ v * ((letter sep * v)∗ * (letter sep * (v * (letter sep * v)∗))) := by gcongr
          _ = v * ((letter sep * v)∗ * ((letter sep * v) * (letter sep * v)∗)) := by
              rw [mul_assoc (letter sep)]
          _ ≤ v * ((letter sep * v)∗ * (letter sep * v)∗) := by
              gcongr
              exact mul_kstar_le_kstar
          _ = v * (letter sep * v)∗ := by rw [kstar_mul_kstar]
      exact hle hx
    · obtain ⟨y, -, -, ⟨z, -, -, ⟨-, ⟨c, hc, rfl⟩, u, -, rfl⟩, rfl⟩, rfl⟩ := hx
      exact ⟨c, by simp, hc⟩
  · rintro ⟨hx, c, hcx, hc⟩
    rw [← timesOf_zero, mem_mul_timesOf_zero] at hx
    obtain ⟨n, hx⟩ := hx
    -- from the right: behind the last separator stands a word, before it what ends in one
    induction n generalizing x c with
    | zero =>
      rw [pow_zero, mul_one] at hx
      rw [hv x hx c hcx] at hc
      cases hc
    | succ n ih =>
      rw [pow_succ, ← mul_assoc] at hx
      obtain ⟨y, hy, -, ⟨-, ⟨d, hd, rfl⟩, z, hz, rfl⟩, rfl⟩ := hx
      have hstar : y ∈ v * (letter sep * v)∗ := by
        rw [← timesOf_zero, mem_mul_timesOf_zero]
        exact ⟨n, hy⟩
      by_cases hdmark : mark d = true
      · obtain ⟨y₁, hy₁, y₂, hy₂, rfl⟩ := hstar
        have hlast : [d] ++ z ∈ letter mark * (v * (letter plain * v)∗) :=
          ⟨[d], ⟨d, hdmark, rfl⟩, z, ⟨z, hz, [], Language.nil_mem_kstar _,
            List.append_nil z⟩, rfl⟩
        exact ⟨y₁, hy₁, _, ⟨y₂, hy₂, _, hlast, rfl⟩, (List.append_assoc _ _ _).symm⟩
      · -- the mark is further to the left
        have hdplain : plain d = true := by
          rw [hsep, Bool.or_eq_true] at hd
          exact hd.resolve_left hdmark
        have hcy : c ∈ y := by
          rcases List.mem_append.mp hcx with hcy | hcz
          · exact hcy
          · rcases List.mem_cons.mp hcz with rfl | hcz
            · exact absurd hc hdmark
            · rw [hv z hz c hcz] at hc
              cases hc
        have hle : v * ((letter sep * v)∗ * (letter mark * (v * (letter plain * v)∗))) *
            (letter plain * v) ≤
              v * ((letter sep * v)∗ * (letter mark * (v * (letter plain * v)∗))) := by
          simp only [mul_assoc]
          gcongr
          exact kstar_mul_le_kstar
        exact hle ⟨y, ih c hcy hc hy, [d] ++ z, ⟨[d], ⟨d, hdplain, rfl⟩, z, hz, rfl⟩, rfl⟩

end Words
