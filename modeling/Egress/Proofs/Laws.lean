import Egress.Proofs.Exact

/-!
# Laws of scalars

What proofs about comparing and adding costs need of a scalar. Exact arithmetic keeps these laws,
and so does arithmetic that rounds.
-/
namespace Egress

/-- Laws of comparing and of adding what is not negative. Rounding keeps them, and values that are
not numbers break none of them. -/
structure Scalar.Laws (α : Type) [Scalar α] : Prop where
  lt_irrefl : ∀ a : α, ¬a < a
  lt_trans : ∀ {a b c : α}, a < b → b < c → a < c
  /-- Of two values that differ, any number differs from one. -/
  lt_or_lt : ∀ {a b : α} (c : α), a < b → isNaN c = false → a < c ∨ c < b
  isNaN_of_lt : ∀ {a b : α}, a < b → isNaN a = false ∧ isNaN b = false
  isNaN_zero : isNaN (0 : α) = false
  sqrt_nonneg : ∀ a : α, ¬sqrt a < 0
  mul_nonneg : ∀ {a b : α}, ¬a < 0 → ¬b < 0 → ¬a * b < 0
  le_add : ∀ {a : α} (c : α), ¬a < 0 → ¬c + a < c

/-- Whole numbers below `n` count as themselves, so what is held below one of them counts no
further. This is so of double precision as long as `n` is no larger than `2 ^ 53`. -/
def Scalar.CountsBelow (α : Type) [Scalar α] (n : ℕ) : Prop :=
  ∀ (a : α) (k : ℕ), k < n → toCount (smaller a (k : α)) ≤ k

namespace Scalar.Laws

variable {α : Type} [Scalar α] (h : Scalar.Laws α)
include h

lemma asymm {a b : α} (hab : a < b) : ¬b < a := fun hba => h.lt_irrefl a (h.lt_trans hab hba)

lemma larger_zero_nonneg (a : α) : ¬larger a 0 < 0 := by
  unfold larger
  split
  · exact h.lt_irrefl 0
  · rw [if_neg (by rw [h.isNaN_zero]; exact Bool.false_ne_true)]
    split
    · exact h.lt_irrefl 0
    · assumption

omit h in
lemma precedes_iff {a b : α} :
    precedes a b = true ↔ a < b ∨ isNaN a = false ∧ isNaN b = true := by
  simp [precedes]

/-- What comes before another value does so after any value has been put in between. -/
lemma precedes_or_precedes {a b : α} (c : α) (hab : precedes a b = true) :
    precedes a c = true ∨ precedes c b = true := by
  simp only [precedes_iff] at hab ⊢
  cases hc : isNaN c with
  | false =>
    rcases hab with hlt | ⟨-, hb⟩
    · exact (h.lt_or_lt c hlt hc).imp .inl .inl
    · exact .inr (.inr ⟨rfl, hb⟩)
  | true =>
    rcases hab with hlt | ⟨ha, -⟩
    · exact .inl (.inr ⟨(h.isNaN_of_lt hlt).1, rfl⟩)
    · exact .inl (.inr ⟨ha, rfl⟩)

lemma precedes_asymm {a b : α} (hab : precedes a b = true) : precedes b a = false := by
  rw [← Bool.not_eq_true]
  simp only [precedes_iff] at hab ⊢
  rintro (hba | ⟨hb, ha⟩)
  · rcases hab with hab | ⟨-, hb⟩
    · exact h.asymm hab hba
    · exact Bool.false_ne_true ((h.isNaN_of_lt hba).1.symm.trans hb)
  · rcases hab with hab | ⟨ha', -⟩
    · exact Bool.false_ne_true ((h.isNaN_of_lt hab).1.symm.trans ha)
    · exact Bool.false_ne_true (ha'.symm.trans ha)

end Scalar.Laws

namespace Exact

lemma isWeight_iff {a : Exact} : a.IsWeight ↔ ¬a < 0 := by
  rw [zero_eq]
  cases a with
  | real x =>
    exact ⟨fun hx => not_lt.2 (WithTop.coe_nonneg.1 hx.1), fun hx => isWeight_real (not_lt.1 hx)⟩
  | posInf => exact iff_of_true isWeight_posInf (not_posInf_lt _)
  | negInf => exact iff_of_false (fun ha => ha.2 rfl) (not_not_intro trivial)
  | nan => exact iff_of_true isWeight_nan (not_nan_lt _)

lemma lt_iff_place {a b : Exact} : a < b ↔ a.place < b.place ∧ Scalar.isNaN b = false := by
  cases a <;> cases b <;>
    simp [place, Scalar.isNaN, WithTop.coe_lt_top, bot_lt_iff_ne_bot]

/-- Exact arithmetic keeps the laws of rounded arithmetic. -/
theorem laws : Scalar.Laws Exact := by
  constructor
  case lt_irrefl =>
    intro a hlt
    exact lt_irrefl _ (lt_iff_place.1 hlt).1
  case lt_trans =>
    intro a b c hab hbc
    rw [lt_iff_place] at hab hbc ⊢
    exact ⟨hab.1.trans hbc.1, hbc.2⟩
  case lt_or_lt =>
    intro a b c hab hc
    rw [lt_iff_place] at hab
    rw [lt_iff_place, lt_iff_place]
    rcases lt_or_ge a.place c.place with hac | hca
    · exact .inl ⟨hac, hc⟩
    · exact .inr ⟨hca.trans_lt hab.1, hab.2⟩
  case isNaN_of_lt =>
    intro a b hab
    refine ⟨?_, (lt_iff_place.1 hab).2⟩
    cases a with
    | nan => exact absurd hab (not_nan_lt b)
    | _ => rfl
  case isNaN_zero =>
    rw [zero_eq]
    rfl
  case sqrt_nonneg =>
    intro a
    exact isWeight_iff.1 (isWeight_sqrt a)
  case mul_nonneg =>
    intro a b ha hb
    exact isWeight_iff.1 ((isWeight_iff.2 ha).mul (isWeight_iff.2 hb))
  case le_add =>
    intro a c ha
    have hweight := isWeight_iff.2 ha
    cases c with
    | real x =>
      cases a with
      | real y => exact not_lt.2 (le_add_of_nonneg_right (WithTop.coe_nonneg.1 hweight.1))
      | negInf => exact absurd rfl hweight.2
      | _ => exact id
    | _ => cases a <;> exact id

theorem countsBelow (n : ℕ) : Scalar.CountsBelow Exact n := by
  intro a k _
  unfold Scalar.smaller
  cases a with
  | real x =>
    by_cases h : (k : ℝ) < x
    · simp [h, Scalar.toCount]
    · simpa [h, Scalar.toCount] using Nat.floor_le_of_le (not_lt.1 h)
  | posInf => simp [Scalar.toCount, Scalar.isNaN]
  | negInf => simp [Scalar.toCount, Scalar.isNaN]
  | nan => simp [Scalar.toCount, Scalar.isNaN]

end Exact

end Egress
