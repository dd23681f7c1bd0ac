import Mathlib
import Egress.Scalar

/-!
# Exact arithmetic

The real numbers with two infinities and one value that is no number, as a scalar. Operations give
what double precision gives, but are never rounded: a finite result is the real number itself,
counts are not cut off, and there is one zero. Statements about costs and distances are made over
this scalar.

Costs are the real numbers and the positive infinity. On them the comparisons of the scalar are the
linear order of `WithTop ℝ`, in which proofs about costs are carried out.
-/
namespace Egress

/-- A real number, an infinity or what is no number. -/
inductive Exact where
  | real (x : ℝ)
  | posInf
  | negInf
  | nan

namespace Exact

/-- The infinity of the given sign, no number where the sign is zero. -/
def ofSign : SignType → Exact
  | .pos => posInf
  | .neg => negInf
  | .zero => nan

/-- Sign of a value, zero for what is no number. -/
noncomputable def sgn : Exact → SignType
  | real x => SignType.sign x
  | posInf => .pos
  | negInf => .neg
  | nan => .zero

noncomputable instance : Neg Exact where
  neg
    | real x => real (-x)
    | posInf => negInf
    | negInf => posInf
    | nan => nan

noncomputable instance : Add Exact where
  add
    | real x, real y => real (x + y)
    | posInf, real _ | real _, posInf | posInf, posInf => posInf
    | negInf, real _ | real _, negInf | negInf, negInf => negInf
    | _, _ => nan

noncomputable instance : Sub Exact where
  sub a b := a + -b

noncomputable instance : Mul Exact where
  mul
    | real x, real y => real (x * y)
    | a, b => ofSign (sgn a * sgn b)

open Classical in
noncomputable instance : Div Exact where
  div
    | real x, real y => if y = 0 then ofSign (SignType.sign x) else real (x / y)
    | real _, posInf | real _, negInf => real 0
    | posInf, real y => if y < 0 then negInf else posInf
    | negInf, real y => if y < 0 then posInf else negInf
    | _, _ => nan

instance : LT Exact where
  lt
    | real x, real y => x < y
    | negInf, real _ | negInf, posInf | real _, posInf => True
    | _, _ => False

instance : LE Exact where
  le
    | real x, real y => x ≤ y
    | negInf, real _ | negInf, posInf | real _, posInf | negInf, negInf | posInf, posInf => True
    | _, _ => False

open Classical in
noncomputable instance : BEq Exact where
  beq a b := decide (a ≤ b ∧ b ≤ a)

instance : NatCast Exact where
  natCast n := real n

noncomputable instance : OfScientific Exact where
  ofScientific m s e := real (OfScientific.ofScientific m s e)

/-- The image of a real number, infinities and what is no number being kept. -/
def onReal (f : ℝ → ℝ) : Exact → Exact
  | real x => real (f x)
  | a => a

open Classical in
noncomputable instance : Scalar Exact where
  infinity := posInf
  isNaN
    | nan => true
    | _ => false
  isFinite
    | real _ => true
    | _ => false
  sqrt
    | real x => if x < 0 then nan else real (√x)
    | posInf => posInf
    | _ => nan
  exp
    | negInf => real 0
    | a => a.onReal Real.exp
  round := onReal fun x => if 0 ≤ x then ⌊x + 1 / 2⌋ else ⌈x - 1 / 2⌉
  floor := onReal fun x => ⌊x⌋
  ceil := onReal fun x => ⌈x⌉
  toCount
    | real x => ⌊x⌋₊
    | posInf => wordCount 64 - 1
    | _ => 0
  decidableLT := fun _ _ => Classical.propDecidable _
  decidableLE := fun _ _ => Classical.propDecidable _

@[simp] theorem real_inj {x y : ℝ} : real x = real y ↔ x = y := Exact.real.injEq x y ▸ Iff.rfl

@[simp] theorem real_ne_posInf (x : ℝ) : real x ≠ posInf := by rintro ⟨⟩

@[simp] theorem natCast_eq (n : ℕ) : (n : Exact) = real n := rfl

theorem zero_eq : (0 : Exact) = real 0 := by rw [← Nat.cast_zero]; rfl

theorem one_eq : (1 : Exact) = real 1 := by rw [← Nat.cast_one]; rfl

theorem two_eq : (@OfNat.ofNat Exact 2 (Scalar.instOfNat 2)) = real 2 := by
  rw [← Nat.cast_two]; rfl

@[simp] theorem ofScientific_eq (m : ℕ) (s : Bool) (e : ℕ) :
    (OfScientific.ofScientific m s e : Exact) = real (OfScientific.ofScientific m s e) := rfl

@[simp] theorem neg_real (x : ℝ) : -real x = real (-x) := rfl

@[simp] theorem real_add_real (x y : ℝ) : real x + real y = real (x + y) := rfl

@[simp] theorem real_sub_real (x y : ℝ) : real x - real y = real (x - y) := by
  rw [sub_eq_add_neg]; rfl

@[simp] theorem real_mul_real (x y : ℝ) : real x * real y = real (x * y) := rfl

theorem real_div_real (x : ℝ) {y : ℝ} (hy : y ≠ 0) : real x / real y = real (x / y) :=
  if_neg hy

theorem real_one_div_zero : real 1 / real 0 = posInf := by
  show (if (0 : ℝ) = 0 then ofSign (SignType.sign 1) else _) = _
  rw [if_pos rfl, sign_one]
  rfl

theorem posInf_mul_real {x : ℝ} (hx : 0 < x) : posInf * real x = posInf := by
  show ofSign (.pos * SignType.sign x) = posInf
  rw [sign_pos hx]
  rfl

theorem posInf_div_real {x : ℝ} (hx : 0 < x) : posInf / real x = posInf :=
  if_neg (not_lt.2 hx.le)

@[simp] theorem real_lt_real {x y : ℝ} : real x < real y ↔ x < y := Iff.rfl

@[simp] theorem real_le_real {x y : ℝ} : real x ≤ real y ↔ x ≤ y := Iff.rfl

theorem real_beq_zero {x : ℝ} : (real x == 0) = true ↔ x = 0 := by
  rw [zero_eq]
  exact decide_eq_true_iff.trans (le_antisymm_iff (a := x) (b := 0)).symm

theorem zero_lt_one : (0 : Exact) < 1 := by
  rw [zero_eq, one_eq, real_lt_real]
  exact one_pos

@[simp] theorem real_lt_posInf (x : ℝ) : real x < posInf := trivial

@[simp] theorem negInf_lt_real (x : ℝ) : negInf < real x := trivial

@[simp] theorem negInf_lt_posInf : negInf < posInf := trivial

@[simp] theorem not_posInf_lt (a : Exact) : ¬posInf < a := by cases a <;> exact id

@[simp] theorem not_lt_negInf (a : Exact) : ¬a < negInf := by cases a <;> exact id

@[simp] theorem not_nan_lt (a : Exact) : ¬nan < a := by cases a <;> exact id

@[simp] theorem not_lt_nan (a : Exact) : ¬a < nan := by cases a <;> exact id

protected theorem lt_of_lt_of_le {a b c : Exact} (hab : a < b) (hbc : b ≤ c) : a < c := by
  cases a <;> cases b <;> cases c
  case real.real.real => exact (real_lt_real.1 hab).trans_le (real_le_real.1 hbc)
  all_goals trivial

@[simp] theorem isFinite_real (x : ℝ) : Scalar.isFinite (real x) = true := rfl

theorem isFinite_iff {a : Exact} : Scalar.isFinite a = true ↔ ∃ x, a = real x := by
  cases a <;> simp [Scalar.isFinite]

theorem le_self_of_isFinite {a : Exact} (ha : Scalar.isFinite a = true) : a ≤ a := by
  obtain ⟨x, rfl⟩ := isFinite_iff.1 ha
  exact real_le_real.2 le_rfl

theorem le_or_lt_of_isFinite {a b : Exact} (ha : Scalar.isFinite a = true)
    (hb : Scalar.isFinite b = true) : a ≤ b ∨ b < a := by
  obtain ⟨x, rfl⟩ := isFinite_iff.1 ha
  obtain ⟨y, rfl⟩ := isFinite_iff.1 hb
  exact (lt_or_ge y x).symm

theorem real_le_or_lt (x : ℝ) {b : Exact} (hb : Scalar.isNaN b = false) :
    real x ≤ b ∨ b < real x := by
  cases b with
  | real y => exact (lt_or_ge y x).symm
  | posInf => exact .inl trivial
  | negInf => exact .inr trivial
  | nan => cases hb

theorem isFinite_of_le {a b c : Exact} (ha : Scalar.isFinite a = true)
    (hb : Scalar.isFinite b = true) (hac : a ≤ c) (hcb : c ≤ b) : Scalar.isFinite c = true := by
  obtain ⟨x, rfl⟩ := isFinite_iff.1 ha
  obtain ⟨y, rfl⟩ := isFinite_iff.1 hb
  cases c with
  | real z => rfl
  | posInf => exact absurd hcb id
  | negInf => exact absurd hac id
  | nan => exact absurd hac id

theorem sqrt_real {x : ℝ} (hx : 0 ≤ x) : Scalar.sqrt (real x) = real (√x) :=
  if_neg (not_lt.2 hx)

theorem exp_real (x : ℝ) : Scalar.exp (real x) = real (Real.exp x) := rfl

theorem larger_real (x y : ℝ) : Scalar.larger (real x) (real y) = real (max x y) := by
  unfold Scalar.larger
  by_cases h : x < y
  · simp [h, max_eq_right h.le]
  · simp [h, max_eq_left (not_lt.1 h)]

theorem smaller_real (x y : ℝ) : Scalar.smaller (real x) (real y) = real (min x y) := by
  unfold Scalar.smaller
  by_cases h : y < x
  · simp [h, min_eq_right h.le]
  · simp [h, min_eq_left (not_lt.1 h)]

theorem clamp_real (x lo hi : ℝ) :
    Scalar.clamp (real x) (real lo) (real hi) = real (max (min x hi) lo) := by
  have hheld : (if real hi < real x then real hi else real x) = real (min x hi) := by
    by_cases h : hi < x
    · simp [h, min_eq_right h.le]
    · simp [h, min_eq_left (not_lt.1 h)]
  simp only [Scalar.clamp, hheld]
  by_cases h : min x hi < lo
  · rw [if_pos (real_lt_real.2 h), max_eq_right h.le]
  · rw [if_neg (mt real_lt_real.1 h), max_eq_left (not_lt.1 h)]

theorem exists_finiteOr (a : Exact) (x : ℝ) : ∃ y, Scalar.finiteOr a (real x) = real y := by
  cases a with
  | real y => exact ⟨y, rfl⟩
  | _ => exact ⟨x, rfl⟩

theorem sanitize_real (x : ℝ) : Scalar.sanitize (real x) = real (max x 0) := by
  rw [← larger_real, ← zero_eq]
  rfl

/-- What cannot be used is read as zero. -/
theorem exists_sanitize (a : Exact) : ∃ x, 0 ≤ x ∧ Scalar.sanitize a = real x := by
  have hzero : Scalar.larger 0 0 = real (max 0 0) := by rw [zero_eq, larger_real]
  cases a with
  | real x => exact ⟨max x 0, le_max_right x 0, sanitize_real x⟩
  | _ => exact ⟨max 0 0, le_max_right 0 0, hzero⟩

theorem round_of_nonneg {x : ℝ} (hx : 0 ≤ x) : Scalar.round (real x) = real ⌊x + 1 / 2⌋₊ := by
  calc Scalar.round (real x)
      = real (if 0 ≤ x then ⌊x + 1 / 2⌋ else ⌈x - 1 / 2⌉) := rfl
    _ = real ⌊x + 1 / 2⌋₊ := by
        rw [if_pos hx, natCast_floor_eq_intCast_floor (by linarith)]

theorem round_natCast (n : ℕ) : Scalar.round (real n) = real n := by
  have hfloor : ⌊(n : ℝ) + 1 / 2⌋₊ = n := by
    rw [Nat.floor_eq_iff (by positivity)]
    constructor <;> linarith
  rw [round_of_nonneg n.cast_nonneg, hfloor]

theorem toCount_natCast (n : ℕ) : Scalar.toCount (real n) = n := Nat.floor_natCast n

theorem toCount_round (v : ℝ) : Scalar.toCount (Scalar.round (real v)) = ⌊v + 1 / 2⌋₊ := by
  rcases le_or_gt 0 v with hv | hv
  · rw [round_of_nonneg hv, toCount_natCast]
  · have hceil : ⌈v - 1 / 2⌉ ≤ 0 := Int.ceil_le.2 (by push_cast; linarith)
    have hround : Scalar.round (real v) = real ⌈v - 1 / 2⌉ := congrArg real (if_neg hv.not_ge)
    have hzero : ⌊v + 1 / 2⌋₊ = 0 := Nat.floor_eq_zero.2 (by linarith)
    rw [hround, hzero]
    exact Nat.floor_of_nonpos (by exact_mod_cast hceil)

theorem toCount_ceil (x : ℝ) : Scalar.toCount (Scalar.ceil (real x)) = ⌈x⌉₊ := by
  calc Scalar.toCount (Scalar.ceil (real x))
      = ⌊((⌈x⌉ : ℤ) : ℝ)⌋₊ := rfl
    _ = ⌈x⌉₊ := by rw [← Int.floor_toNat, Int.floor_intCast, Int.ceil_toNat]

theorem toCount_floor (x : ℝ) : Scalar.toCount (Scalar.floor (real x)) = ⌊x⌋₊ := by
  calc Scalar.toCount (Scalar.floor (real x))
      = ⌊((⌊x⌋ : ℤ) : ℝ)⌋₊ := rfl
    _ = ⌊x⌋₊ := by rw [← Int.floor_toNat, Int.floor_intCast, Int.floor_toNat]

/-- Place of a value in the order in which what is no number comes last. -/
noncomputable def place : Exact → WithTop EReal
  | real x => ((x : EReal) : WithTop EReal)
  | posInf => ((⊤ : EReal) : WithTop EReal)
  | negInf => ((⊥ : EReal) : WithTop EReal)
  | nan => ⊤

theorem precedes_iff (a b : Exact) : Scalar.precedes a b = true ↔ a.place < b.place := by
  unfold Scalar.precedes
  cases a <;> cases b <;> simp [place, Scalar.isNaN, WithTop.coe_lt_top, bot_lt_iff_ne_bot]

theorem place_injective : Function.Injective place := by
  intro a b h
  cases a <;> cases b <;> simp_all [place]

theorem le_iff_place {a b : Exact} : a ≤ b ↔ a.place ≤ b.place ∧ Scalar.isNaN b = false := by
  cases a <;> cases b
  case real.real x y => simp [place, Scalar.isNaN]
  all_goals first
    | exact iff_of_true trivial (by simp [place, Scalar.isNaN])
    | exact iff_of_false id (by simp [place, Scalar.isNaN])

protected theorem le_trans {a b c : Exact} (hab : a ≤ b) (hbc : b ≤ c) : a ≤ c := by
  rw [le_iff_place] at *
  exact ⟨hab.1.trans hbc.1, hbc.2⟩

protected theorem le_of_lt {a b : Exact} (h : a < b) : a ≤ b := by
  cases a <;> cases b
  case real.real => exact real_le_real.2 (real_lt_real.1 h).le
  all_goals trivial

protected theorem not_lt_of_le {a b : Exact} (h : a ≤ b) : ¬b < a := by
  cases a <;> cases b
  case real.real => exact not_lt.2 (real_le_real.1 h)
  all_goals first
    | exact id
    | exact fun _ => h

protected theorem lt_irrefl (a : Exact) : ¬a < a := by
  cases a with
  | real x => exact fun h => (real_lt_real.1 h).ne rfl
  | _ => exact id

/-- What is no number comes last, so it is the smaller one only of two such values. -/
theorem place_smaller (a b : Exact) : (Scalar.smaller a b).place = min a.place b.place := by
  unfold Scalar.smaller
  cases a <;> cases b
  case real.real x y =>
    by_cases h : y < x
    · simp [Scalar.isNaN, place, h, h.le]
    · simp [Scalar.isNaN, place, h, not_lt.1 h]
  all_goals simp [Scalar.isNaN, place]

theorem sum_map_real (xs : List ℝ) : Scalar.sum (xs.map real) = real xs.sum := by
  have foldl_real (ys : List ℝ) (x : ℝ) :
      (ys.map real).foldl (· + ·) (real x) = real (x + ys.sum) := by
    induction ys generalizing x with
    | nil => simp
    | cons y ys ih => simp [ih, add_assoc]
  simpa [Scalar.sum, zero_eq] using foldl_real xs 0

/-- The last two summands can change places. -/
theorem add_swap (a b c : Exact) : a + b + c = a + c + b := by
  cases a <;> cases b <;> cases c
  case real.real.real x y z => simp [add_right_comm]
  all_goals rfl

theorem sum_perm {xs ys : List Exact} (h : xs.Perm ys) : Scalar.sum xs = Scalar.sum ys :=
  h.foldl_eq' (fun a _ b _ c => add_swap c a b) 0

/-- The real number that a scalar stands for, zero where it is none. -/
def toReal : Exact → ℝ
  | real x => x
  | _ => 0

@[simp] theorem toReal_real (x : ℝ) : toReal (real x) = x := rfl

theorem exists_real_of_pos {a : Exact} (h : 0 < a) (ha : a ≠ Scalar.infinity) :
    ∃ x, a = real x ∧ 0 < x := by
  rw [zero_eq] at h
  cases a with
  | real x => exact ⟨x, rfl, h⟩
  | posInf => exact absurd rfl ha
  | negInf => exact absurd h (not_lt_negInf _)
  | nan => exact absurd h (not_lt_nan _)

lemma real_of_neg {a : Exact} {z : ℝ} (h : -a = real z) : ∃ x, a = real x := by
  cases a with
  | real x => exact ⟨x, rfl⟩
  | _ => cases h

lemma real_of_add {a b : Exact} {z : ℝ} (h : a + b = real z) :
    (∃ x, a = real x) ∧ ∃ y, b = real y := by
  cases a with
  | real x =>
    cases b with
    | real y => exact ⟨⟨x, rfl⟩, y, rfl⟩
    | _ => cases h
  | _ => cases b <;> cases h

lemma real_of_sub {a b : Exact} {z : ℝ} (h : a - b = real z) :
    (∃ x, a = real x) ∧ ∃ y, b = real y := by
  obtain ⟨ha, y, hb⟩ := real_of_add (b := -b) h
  exact ⟨ha, real_of_neg hb⟩

lemma ofSign_ne_real (s : SignType) (z : ℝ) : ofSign s ≠ real z := by cases s <;> nofun

lemma real_of_mul {a b : Exact} {z : ℝ} (h : a * b = real z) :
    (∃ x, a = real x) ∧ ∃ y, b = real y := by
  cases a with
  | real x =>
    cases b with
    | real y => exact ⟨⟨x, rfl⟩, y, rfl⟩
    | _ => exact absurd h (ofSign_ne_real _ z)
  | _ => exact absurd h (ofSign_ne_real _ z)

lemma real_of_sqrt {a : Exact} {z : ℝ} (h : Scalar.sqrt a = real z) : ∃ x, a = real x := by
  cases a with
  | real x => exact ⟨x, rfl⟩
  | _ => cases h

theorem neg_neg (a : Exact) : - -a = a := by
  cases a with
  | real x => simp
  | _ => rfl

theorem neg_le_neg_iff {a b : Exact} : -a ≤ -b ↔ b ≤ a := by
  cases a <;> cases b
  case real.real x y => simp
  all_goals exact Iff.rfl

theorem neg_lt_neg_iff {a b : Exact} : -a < -b ↔ b < a := by
  cases a <;> cases b
  case real.real x y => simp
  all_goals exact Iff.rfl

theorem isNaN_neg (a : Exact) : Scalar.isNaN (-a) = Scalar.isNaN a := by cases a <;> rfl

theorem larger_eq_neg (a b : Exact) : Scalar.larger a b = -Scalar.smaller (-a) (-b) := by
  unfold Scalar.larger Scalar.smaller
  simp only [isNaN_neg, neg_lt_neg_iff]
  split_ifs <;> rw [neg_neg]

/-- The smallest of the numbers among some values, no number if there are none. -/
noncomputable def least (xs : List Exact) : Exact := xs.foldl Scalar.smaller nan

/-- The largest of the numbers among some values, no number if there are none. -/
noncomputable def greatest (xs : List Exact) : Exact := xs.foldl Scalar.larger nan

lemma greatest_eq_neg (xs : List Exact) : greatest xs = -least (xs.map Neg.neg) := by
  have foldl_larger (a : Exact) :
      xs.foldl Scalar.larger a = -(xs.map Neg.neg).foldl Scalar.smaller (-a) := by
    induction xs generalizing a with
    | nil => exact (neg_neg a).symm
    | cons x xs ih => simp only [List.foldl_cons, List.map_cons, ih, larger_eq_neg, neg_neg]
  exact foldl_larger nan

theorem least_perm {xs ys : List Exact} (h : xs.Perm ys) : least xs = least ys := by
  refine h.foldl_eq' (fun a _ b _ c => place_injective ?_) nan
  simp only [place_smaller, min_right_comm]

theorem greatest_perm {xs ys : List Exact} (h : xs.Perm ys) : greatest xs = greatest ys := by
  rw [greatest_eq_neg, greatest_eq_neg, least_perm (h.map _)]

theorem least_le {xs : List Exact} {x : Exact} (hx : x ∈ xs) (hnum : Scalar.isNaN x = false) :
    least xs ≤ x := by
  have foldl_smaller (xs : List Exact) (a : Exact) :
      (xs.foldl Scalar.smaller a).place ≤ a.place ∧
        ∀ x ∈ xs, (xs.foldl Scalar.smaller a).place ≤ x.place := by
    induction xs generalizing a with
    | nil => simp
    | cons x xs ih =>
      obtain ⟨hstart, hrest⟩ := ih (Scalar.smaller a x)
      rw [place_smaller, le_min_iff] at hstart
      simp only [List.foldl_cons, List.forall_mem_cons]
      exact ⟨hstart.1, hstart.2, hrest⟩
  exact le_iff_place.2 ⟨(foldl_smaller xs nan).2 x hx, hnum⟩

theorem le_greatest {xs : List Exact} {x : Exact} (hx : x ∈ xs) (hnum : Scalar.isNaN x = false) :
    x ≤ greatest xs := by
  rw [greatest_eq_neg, ← neg_le_neg_iff, neg_neg]
  exact least_le (List.mem_map_of_mem hx) ((isNaN_neg x).trans hnum)

theorem least_mem {xs : List Exact} (h : xs ≠ []) : least xs ∈ xs := by
  have foldl_mem (xs : List Exact) (a : Exact) : xs.foldl Scalar.smaller a ∈ a :: xs := by
    induction xs generalizing a with
    | nil => simp
    | cons x xs ih =>
      rcases List.mem_cons.1 (ih (Scalar.smaller a x)) with heq | hmem
      · rw [List.foldl_cons, heq, Scalar.smaller]
        split_ifs <;> simp
      · exact List.mem_cons_of_mem a (List.mem_cons_of_mem x hmem)
  cases xs with
  | nil => exact absurd rfl h
  | cons x xs => exact foldl_mem xs x

theorem greatest_mem {xs : List Exact} (h : xs ≠ []) : greatest xs ∈ xs := by
  obtain ⟨x, hx, hleast⟩ := List.mem_map.1 (least_mem (mt List.map_eq_nil_iff.1 h))
  rwa [greatest_eq_neg, ← hleast, neg_neg]

theorem least_le_greatest {xs : List Exact} (h : xs ≠ [])
    (hfin : ∀ x ∈ xs, Scalar.isFinite x = true) :
    ∃ x y, least xs = real x ∧ greatest xs = real y ∧ x ≤ y := by
  obtain ⟨x, hx⟩ := isFinite_iff.1 (hfin _ (least_mem h))
  obtain ⟨y, hy⟩ := isFinite_iff.1 (hfin _ (greatest_mem h))
  refine ⟨x, y, hx, hy, real_le_real.1 ?_⟩
  rw [← hx, ← hy]
  exact le_greatest (least_mem h) (by rw [hx]; rfl)

def ofCost : WithTop ℝ → Exact
  | some x => real x
  | none => posInf

/-- The cost that a scalar stands for, infinite where it is none. -/
def toCost : Exact → WithTop ℝ
  | real x => x
  | _ => ⊤

/-- True of the real numbers and the positive infinity. -/
def IsCost (a : Exact) : Prop := ofCost (toCost a) = a

@[simp] theorem ofCost_coe (x : ℝ) : ofCost x = real x := rfl

@[simp] theorem ofCost_top : ofCost ⊤ = posInf := rfl

@[simp] theorem toCost_real (x : ℝ) : toCost (real x) = x := rfl

@[simp] theorem toCost_ofCost (a : WithTop ℝ) : toCost (ofCost a) = a := by cases a <;> rfl

theorem ofCost_injective : Function.Injective ofCost :=
  Function.LeftInverse.injective toCost_ofCost

@[simp] theorem isCost_ofCost (a : WithTop ℝ) : IsCost (ofCost a) := by simp [IsCost]

@[simp] theorem isCost_real (x : ℝ) : IsCost (real x) := rfl

@[simp] theorem isCost_posInf : IsCost posInf := rfl

@[simp] theorem ofCost_lt_ofCost {a b : WithTop ℝ} : ofCost a < ofCost b ↔ a < b := by
  cases a with
  | top => exact ⟨by cases b <;> exact False.elim, fun h => absurd h not_top_lt⟩
  | coe x =>
    cases b with
    | top => exact iff_of_true trivial (WithTop.coe_lt_top x)
    | coe y => exact real_lt_real.trans WithTop.coe_lt_coe.symm

@[simp] theorem ofCost_le_ofCost {a b : WithTop ℝ} : ofCost a ≤ ofCost b ↔ a ≤ b := by
  cases b with
  | top => exact ⟨fun _ => le_top, by cases a <;> exact fun _ => trivial⟩
  | coe y =>
    cases a with
    | top => exact iff_of_false id (not_le.2 (WithTop.coe_lt_top y))
    | coe x => exact real_le_real.trans WithTop.coe_le_coe.symm

@[simp] theorem isNaN_ofCost (a : WithTop ℝ) : Scalar.isNaN (ofCost a) = false := by
  cases a <;> rfl

/-- What costs no less is no smaller, unless it lies below all numbers. -/
theorem not_lt_of_toCost_le {a b : Exact} (hb : b ≠ negInf) (h : toCost a ≤ toCost b) :
    ¬b < a := by
  cases a with
  | real x =>
    cases b with
    | real y => exact not_lt.2 (WithTop.coe_le_coe.1 h)
    | negInf => exact absurd rfl hb
    | _ => exact id
  | posInf =>
    cases b with
    | real y => exact absurd (top_le_iff.1 h) WithTop.coe_ne_top
    | negInf => exact absurd rfl hb
    | _ => exact id
  | negInf => exact not_lt_negInf b
  | nan => exact not_lt_nan b

theorem isFinite_ofCost {a : WithTop ℝ} : Scalar.isFinite (ofCost a) = true ↔ a ≠ ⊤ := by
  cases a with
  | top => exact iff_of_false Bool.false_ne_true (not_not_intro rfl)
  | coe x => exact iff_of_true rfl WithTop.coe_ne_top

theorem smaller_ofCost (a b : WithTop ℝ) :
    Scalar.smaller (ofCost a) (ofCost b) = ofCost (min a b) := by
  unfold Scalar.smaller
  by_cases h : b < a
  · simp [h, min_eq_right h.le]
  · simp [h, min_eq_left (not_lt.1 h)]

/-- True of the real numbers that are not negative, of the positive infinity and of what is no
number. -/
def IsWeight (a : Exact) : Prop := 0 ≤ toCost a ∧ a ≠ negInf

theorem isWeight_real {x : ℝ} (hx : 0 ≤ x) : IsWeight (real x) :=
  ⟨WithTop.coe_nonneg.2 hx, nofun⟩

theorem isWeight_posInf : IsWeight posInf := ⟨le_top, nofun⟩

theorem isWeight_nan : IsWeight nan := ⟨le_top, nofun⟩

theorem isWeight_sqrt (a : Exact) : IsWeight (Scalar.sqrt a) := by
  cases a with
  | real x =>
    by_cases hx : x < 0
    · rw [show Scalar.sqrt (real x) = nan from if_pos hx]
      exact isWeight_nan
    · rw [sqrt_real (not_lt.1 hx)]
      exact isWeight_real (Real.sqrt_nonneg x)
  | posInf => exact isWeight_posInf
  | negInf => exact isWeight_nan
  | nan => exact isWeight_nan

theorem isWeight_larger_zero (a : Exact) : IsWeight (Scalar.larger a 0) := by
  rw [zero_eq]
  cases a with
  | real x =>
    rw [larger_real]
    exact isWeight_real (le_max_right x 0)
  | posInf =>
    rw [show Scalar.larger posInf (real 0) = posInf from if_neg (not_posInf_lt _)]
    exact isWeight_posInf
  | negInf =>
    rw [show Scalar.larger negInf (real 0) = real 0 from if_pos trivial]
    exact isWeight_real le_rfl
  | nan => exact isWeight_real le_rfl

theorem isWeight_ofSign {s : SignType} (hs : s ≠ .neg) : IsWeight (ofSign s) := by
  cases s with
  | zero => exact isWeight_nan
  | neg => exact absurd rfl hs
  | pos => exact isWeight_posInf

theorem IsWeight.sgn_ne {a : Exact} (ha : IsWeight a) : sgn a ≠ .neg := by
  cases a with
  | real x =>
    have hx : 0 ≤ x := WithTop.coe_nonneg.1 ha.1
    exact fun h => absurd (sign_eq_neg_one_iff.1 h) (not_lt.2 hx)
  | posInf => decide
  | negInf => exact absurd rfl ha.2
  | nan => decide

theorem IsWeight.mul {a b : Exact} (ha : IsWeight a) (hb : IsWeight b) : IsWeight (a * b) := by
  have hsign : sgn a * sgn b ≠ .neg := by
    have hcases : ∀ s t : SignType, s ≠ .neg → t ≠ .neg → s * t ≠ .neg := by decide
    exact hcases _ _ ha.sgn_ne hb.sgn_ne
  cases a with
  | real x =>
    cases b with
    | real y =>
      exact isWeight_real (mul_nonneg (WithTop.coe_nonneg.1 ha.1) (WithTop.coe_nonneg.1 hb.1))
    | _ => exact isWeight_ofSign hsign
  | _ => exact isWeight_ofSign hsign

/-- Adding to a real number is adding costs, as long as the sum is not below all numbers. -/
theorem toCost_real_add (x : ℝ) {a : Exact} (ha : a ≠ negInf) :
    toCost (real x + a) = x + toCost a ∧ real x + a ≠ negInf := by
  cases a with
  | real y => exact ⟨rfl, nofun⟩
  | posInf => exact ⟨rfl, nofun⟩
  | negInf => exact absurd rfl ha
  | nan => exact ⟨rfl, nofun⟩

end Exact

end Egress
