import Egress.Proofs.Exact
import Egress.Field.March

/-!
# Laws of the upwind update

The updated cost of a cell is the one height `u` above the lower neighbour at which the squares of
its rises above the neighbours along the two axes add up to `s ^ 2`. A neighbour that is not below
`u` adds nothing. All laws of the update follow from this equation: the cost grows with the
neighbours and with `s`, lies strictly above the lower neighbour, but by no more than `s`, and does
not see a neighbour above itself.
-/
namespace Egress.Upwind
open Exact

/-- How far `u` lies above a cost. -/
noncomputable def rise (u : ℝ) : WithTop ℝ → ℝ
  | some x => max (u - x) 0
  | none => 0

/-- The squares of the rises above the costs along the two axes. -/
noncomputable def steepness (x y : WithTop ℝ) (u : ℝ) : ℝ := rise u x ^ 2 + rise u y ^ 2

/-- The updated cost as a function of costs. -/
noncomputable def update (x y : WithTop ℝ) (s : ℝ) : WithTop ℝ :=
  toCost (upwind (ofCost x) (ofCost y) (real s))

@[simp] theorem rise_coe (u x : ℝ) : rise u x = max (u - x) 0 := rfl

@[simp] theorem rise_top (u : ℝ) : rise u ⊤ = 0 := rfl

lemma rise_nonneg (u : ℝ) (x : WithTop ℝ) : 0 ≤ rise u x := by
  cases x <;> simp

lemma rise_eq_zero {u : ℝ} {x : WithTop ℝ} (h : (u : WithTop ℝ) ≤ x) : rise u x = 0 := by
  cases x with
  | top => rfl
  | coe x => simpa using WithTop.coe_le_coe.1 h

lemma rise_anti (u : ℝ) {x x' : WithTop ℝ} (h : x ≤ x') : rise u x' ≤ rise u x := by
  cases x' with
  | top => exact rise_nonneg u x
  | coe x' =>
    lift x to ℝ using ne_top_of_le_ne_top WithTop.coe_ne_top h
    have hx : x ≤ x' := WithTop.coe_le_coe.1 h
    exact max_le_max (by linarith) le_rfl

lemma rise_mono {u v : ℝ} (h : u ≤ v) (x : WithTop ℝ) : rise u x ≤ rise v x := by
  cases x with
  | top => exact le_rfl
  | coe x => exact max_le_max (by linarith) le_rfl

lemma rise_lt {u v : ℝ} (h : u < v) {x : WithTop ℝ} (hx : x < v) : rise u x < rise v x := by
  lift x to ℝ using hx.ne_top
  have hx : x < v := WithTop.coe_lt_coe.1 hx
  exact (max_lt (by linarith) (by linarith)).trans_le (le_max_left (v - x) 0)

lemma rise_le {u a : ℝ} {x : WithTop ℝ} (ha : 0 ≤ a) (h : ((u - a : ℝ) : WithTop ℝ) ≤ x) :
    rise u x ≤ a := by
  cases x with
  | top => exact ha
  | coe x =>
    have hx : u - a ≤ x := WithTop.coe_le_coe.1 h
    exact max_le (by linarith) ha

/-- Above the lower of the two costs the steepness grows. -/
lemma steepness_lt {x y : WithTop ℝ} {u v : ℝ} (h : u < v) (hmin : min x y < v) :
    steepness x y u < steepness x y v := by
  have grow (z : WithTop ℝ) : rise u z ^ 2 ≤ rise v z ^ 2 :=
    pow_le_pow_left₀ (rise_nonneg u z) (rise_mono h.le z) 2
  have grow' {z : WithTop ℝ} (hz : z < v) : rise u z ^ 2 < rise v z ^ 2 :=
    pow_lt_pow_left₀ (rise_lt h hz) (rise_nonneg u z) two_ne_zero
  rcases min_lt_iff.1 hmin with hx | hy
  · exact add_lt_add_of_lt_of_le (grow' hx) (grow y)
  · exact add_lt_add_of_le_of_lt (grow x) (grow' hy)

lemma steepness_anti {x x' y y' : WithTop ℝ} (hx : x ≤ x') (hy : y ≤ y') (u : ℝ) :
    steepness x' y' u ≤ steepness x y u :=
  add_le_add (pow_le_pow_left₀ (rise_nonneg u x') (rise_anti u hx) 2)
    (pow_le_pow_left₀ (rise_nonneg u y') (rise_anti u hy) 2)

lemma steepness_comm (x y : WithTop ℝ) (u : ℝ) : steepness x y u = steepness y x u :=
  add_comm _ _

lemma upwind_of_le {α : Type} [Scalar α] {x y s : α} (h : x ≤ y) :
    upwind x y s = if Scalar.isFinite y && decide (y - x < s) then
      (x + y + Scalar.sqrt (2 * s * s - (y - x) * (y - x))) / 2 else x + s := by
  simp only [upwind, if_pos h]

lemma upwind_comm (x y : WithTop ℝ) (s : Exact) :
    upwind (ofCost x) (ofCost y) s = upwind (ofCost y) (ofCost x) s := by
  rcases lt_trichotomy x y with h | rfl | h
  · simp [upwind, h.le, not_le.2 h]
  · rfl
  · simp [upwind, h.le, not_le.2 h]

/-- The two-sided formula solves the equation where the costs differ by less than `s`. -/
lemma steepness_twoSided {x y s : ℝ} (hs : 0 < s) (hxy : x ≤ y) (hd : y - x < s) :
    0 ≤ 2 * s * s - (y - x) * (y - x) ∧
      steepness x y ((x + y + √(2 * s * s - (y - x) * (y - x))) / 2) = s ^ 2 ∧
      x < (x + y + √(2 * s * s - (y - x) * (y - x))) / 2 := by
  set d := y - x with hd'
  have hd0 : 0 ≤ d := by linarith
  have hrad : d * d < 2 * s * s - d * d := by nlinarith
  have hnonneg : 0 ≤ 2 * s * s - d * d := (mul_self_nonneg d).trans hrad.le
  have hroot : d < √(2 * s * s - d * d) := Real.lt_sqrt_of_sq_lt (by simpa [sq] using hrad)
  have hsq := Real.mul_self_sqrt hnonneg
  set r := √(2 * s * s - d * d)
  have hx : (x + y + r) / 2 - x = (r + d) / 2 := by rw [hd']; ring
  have hy : (x + y + r) / 2 - y = (r - d) / 2 := by rw [hd']; ring
  refine ⟨hnonneg, ?_, by linarith⟩
  simp only [steepness, rise_coe, hx, hy]
  rw [max_eq_left (by linarith), max_eq_left (by linarith)]
  linear_combination hsq / 2

/-- Unless both costs are infinite the update is the solution of the equation above the lower
cost. -/
theorem upwind_spec {x y : WithTop ℝ} {s : ℝ} (hs : 0 < s) (h : min x y ≠ ⊤) :
    ∃ u : ℝ, upwind (ofCost x) (ofCost y) (real s) = real u ∧
      min x y < u ∧ steepness x y u = s ^ 2 := by
  wlog hxy : x ≤ y generalizing x y
  · obtain ⟨u, hu, hlt, heq⟩ := this (by rwa [min_comm]) (le_of_not_ge hxy)
    exact ⟨u, by rw [upwind_comm, hu], by rwa [min_comm], by rwa [steepness_comm]⟩
  rw [min_eq_left hxy] at h ⊢
  lift x to ℝ using h
  rw [upwind_of_le (ofCost_le_ofCost.2 hxy)]
  have oneSided : steepness x y (x + s) = s ^ 2 ↔ rise (x + s) y = 0 := by
    simp [steepness, max_eq_left hs.le]
  cases y with
  | top =>
    refine ⟨x + s, by simp [Scalar.isFinite], by exact_mod_cast lt_add_of_pos_right x hs, ?_⟩
    exact oneSided.2 rfl
  | coe y =>
    have hxy : x ≤ y := WithTop.coe_le_coe.1 hxy
    by_cases hd : y - x < s
    · obtain ⟨hrad, heq, hlt⟩ := steepness_twoSided hs hxy hd
      refine ⟨_, ?_, WithTop.coe_lt_coe.2 hlt, heq⟩
      simp [hd, two_eq, sqrt_real hrad, real_div_real]
    · refine ⟨x + s, by simp [hd], WithTop.coe_lt_coe.2 (lt_add_of_pos_right x hs), ?_⟩
      exact oneSided.2 (rise_eq_zero (WithTop.coe_le_coe.2 (by linarith)))

lemma upwind_top_top (s : ℝ) : upwind (ofCost ⊤) (ofCost ⊤) (real s) = ofCost ⊤ := by
  rw [upwind_of_le (ofCost_le_ofCost.2 le_rfl)]
  exact if_neg (by simp [Scalar.isFinite])

@[simp] theorem update_top_top (s : ℝ) : update ⊤ ⊤ s = ⊤ := by
  rw [update, upwind_top_top, toCost_ofCost]

theorem upwind_ofCost (x y : WithTop ℝ) {s : ℝ} (hs : 0 < s) :
    upwind (ofCost x) (ofCost y) (real s) = ofCost (update x y s) := by
  by_cases h : min x y = ⊤
  · obtain ⟨rfl, rfl⟩ : x = ⊤ ∧ y = ⊤ := by simpa [min_eq_top] using h
    rw [upwind_top_top, update_top_top]
  · obtain ⟨u, hu, -⟩ := upwind_spec hs h
    simp [update, hu]

theorem update_comm (x y : WithTop ℝ) (s : ℝ) : update x y s = update y x s := by
  rw [update, upwind_comm, update]

theorem update_eq_top_iff {x y : WithTop ℝ} {s : ℝ} (hs : 0 < s) :
    update x y s = ⊤ ↔ min x y = ⊤ := by
  constructor
  · intro h
    by_contra hne
    obtain ⟨u, hu, -⟩ := upwind_spec hs hne
    simp [update, hu] at h
  · intro h
    obtain ⟨rfl, rfl⟩ : x = ⊤ ∧ y = ⊤ := by simpa [min_eq_top] using h
    exact update_top_top s

/-- The updated cost is the only solution of the equation above the lower cost. -/
theorem update_eq_coe_iff {x y : WithTop ℝ} {s u : ℝ} (hs : 0 < s) :
    update x y s = u ↔ min x y < u ∧ steepness x y u = s ^ 2 := by
  by_cases h : min x y = ⊤
  · rw [(update_eq_top_iff hs).2 h, h]
    simp
  · obtain ⟨v, hv, hlt, heq⟩ := upwind_spec hs h
    have hupdate : update x y s = v := by simp [update, hv]
    rw [hupdate, WithTop.coe_inj]
    constructor
    · rintro rfl
      exact ⟨hlt, heq⟩
    · rintro ⟨hlt', heq'⟩
      rcases lt_trichotomy v u with hvu | hvu | hvu
      · exact absurd (heq.trans heq'.symm) (steepness_lt hvu hlt').ne
      · exact hvu
      · exact absurd (heq'.trans heq.symm) (steepness_lt hvu hlt).ne

/-- Where the steepness has not come up to `s ^ 2` the updated cost has not been reached. -/
theorem le_update {x y : WithTop ℝ} {s d : ℝ} (hs : 0 < s) (h : steepness x y d ≤ s ^ 2) :
    d ≤ update x y s := by
  cases hu : update x y s with
  | top => exact le_top
  | coe u =>
    obtain ⟨hlt, heq⟩ := (update_eq_coe_iff hs).1 hu
    by_contra hnot
    have hud : u < d := WithTop.coe_lt_coe.1 (not_le.1 hnot)
    have hmin : min x y < d := hlt.trans (WithTop.coe_lt_coe.2 hud)
    exact absurd (heq ▸ h) (not_le.2 (steepness_lt hud hmin))

/-- The front moves strictly away from where it came from. -/
theorem min_lt_update {x y : WithTop ℝ} {s : ℝ} (hs : 0 < s) (h : min x y ≠ ⊤) :
    min x y < update x y s := by
  cases hu : update x y s with
  | top => exact absurd ((update_eq_top_iff hs).1 hu) h
  | coe u => exact ((update_eq_coe_iff hs).1 hu).1

theorem min_le_update (x y : WithTop ℝ) {s : ℝ} (hs : 0 < s) : min x y ≤ update x y s := by
  by_cases h : min x y = ⊤
  · rw [h, (update_eq_top_iff hs).2 h]
  · exact (min_lt_update hs h).le

theorem update_mono {x x' y y' : WithTop ℝ} {s : ℝ} (hs : 0 < s) (hx : x ≤ x') (hy : y ≤ y') :
    update x y s ≤ update x' y' s := by
  cases hu' : update x' y' s with
  | top => exact le_top
  | coe u' =>
    obtain ⟨hlt', heq'⟩ := (update_eq_coe_iff hs).1 hu'
    have hne : min x y ≠ ⊤ := ((min_le_min hx hy).trans_lt hlt').ne_top
    cases hu : update x y s with
    | top => exact absurd ((update_eq_top_iff hs).1 hu) hne
    | coe u =>
      obtain ⟨hlt, heq⟩ := (update_eq_coe_iff hs).1 hu
      by_contra hnot
      have hlow : u' < u := WithTop.coe_lt_coe.1 (not_le.1 hnot)
      have : steepness x y u' < steepness x' y' u' := by
        rw [heq', ← heq]
        exact steepness_lt hlow hlt
      exact absurd (steepness_anti hx hy u') (not_le.2 this)

theorem update_mono_step (x y : WithTop ℝ) {s s' : ℝ} (hs : 0 < s) (h : s ≤ s') :
    update x y s ≤ update x y s' := by
  cases hu' : update x y s' with
  | top => exact le_top
  | coe u' =>
    obtain ⟨hlt', heq'⟩ := (update_eq_coe_iff (hs.trans_le h)).1 hu'
    cases hu : update x y s with
    | top => exact absurd ((update_eq_top_iff hs).1 hu) hlt'.ne_top
    | coe u =>
      obtain ⟨hlt, heq⟩ := (update_eq_coe_iff hs).1 hu
      by_contra hnot
      have hsteep := steepness_lt (WithTop.coe_lt_coe.1 (not_le.1 hnot)) hlt
      rw [heq, heq'] at hsteep
      exact absurd (pow_le_pow_left₀ hs.le h 2) (not_le.2 hsteep)

/-- A neighbour that is not below the updated cost may be replaced by any other such neighbour. -/
lemma update_congr_left {x x' y : WithTop ℝ} {s : ℝ} (hs : 0 < s) (hx : update x y s ≤ x)
    (hx' : update x y s ≤ x') : update x' y s = update x y s := by
  cases hu : update x y s with
  | top =>
    rw [hu] at hx'
    have hy : y = ⊤ := by simpa using (min_eq_top.1 ((update_eq_top_iff hs).1 hu)).2
    rw [top_le_iff.1 hx', hy, update_top_top]
  | coe u =>
    rw [hu] at hx hx'
    obtain ⟨hlt, heq⟩ := (update_eq_coe_iff hs).1 hu
    have hy : y < u := (min_lt_iff.1 hlt).resolve_left (not_lt.2 hx)
    refine (update_eq_coe_iff hs).2 ⟨(min_le_right x' y).trans_lt hy, ?_⟩
    rwa [steepness, rise_eq_zero hx', ← rise_eq_zero hx]

/-- The update does not change with costs that are not below it. -/
theorem update_congr {x x' y y' u : WithTop ℝ} {s : ℝ} (hs : 0 < s) (hu : update x y s = u)
    (hx : x = x' ∨ u ≤ x ∧ u ≤ x') (hy : y = y' ∨ u ≤ y ∧ u ≤ y') : update x' y' s = u := by
  have hleft : update x' y s = u := by
    rcases hx with rfl | ⟨hx, hx'⟩
    · exact hu
    · subst hu
      exact update_congr_left hs hx hx'
  rcases hy with rfl | ⟨hy, hy'⟩
  · exact hleft
  · subst hleft
    rw [update_comm x' y] at hy hy' ⊢
    rw [update_comm x' y']
    exact update_congr_left hs hy hy'

/-- The lower of two costs is the one that counts most. -/
lemma rise_min_sq (x y : WithTop ℝ) (u : ℝ) :
    rise u (min x y) ^ 2 ≤ steepness x y u ∧ steepness x y u ≤ 2 * rise u (min x y) ^ 2 := by
  wlog hxy : x ≤ y generalizing x y
  · rw [min_comm, steepness_comm]
    exact this y x (le_of_not_ge hxy)
  have hle : rise u y ^ 2 ≤ rise u x ^ 2 := pow_le_pow_left₀ (rise_nonneg u y) (rise_anti u hxy) 2
  have hnonneg : 0 ≤ rise u y ^ 2 := sq_nonneg _
  rw [min_eq_left hxy, steepness]
  constructor <;> linarith

/-- The updated cost lies at most `s` above the lower cost, and at least as far as where the front
comes from both sides alike. -/
theorem update_between {x y : WithTop ℝ} {s u : ℝ} (hs : 0 < s) (hu : update x y s = u) :
    ∃ m : ℝ, min x y = m ∧ m < u ∧ u - m ≤ s ∧ s ≤ √2 * (u - m) := by
  obtain ⟨hlt, hsteep⟩ := (update_eq_coe_iff hs).1 hu
  obtain ⟨m, hm⟩ := WithTop.ne_top_iff_exists.1 hlt.ne_top
  rw [← hm, WithTop.coe_lt_coe] at hlt
  have hrise : rise u (min x y) = u - m := by
    rw [← hm, rise_coe, max_eq_left (sub_pos.2 hlt).le]
  obtain ⟨hlow, hhigh⟩ := rise_min_sq x y u
  rw [hsteep, hrise] at hlow hhigh
  refine ⟨m, hm.symm, hlt, ?_, ?_⟩
  · exact (pow_le_pow_iff_left₀ (sub_pos.2 hlt).le hs.le two_ne_zero).1 hlow
  · refine (pow_le_pow_iff_left₀ hs.le ?_ two_ne_zero).1 ?_
    · exact mul_nonneg (Real.sqrt_nonneg 2) (sub_pos.2 hlt).le
    · rwa [mul_pow, Real.sq_sqrt zero_le_two]

/-- The cost of a cell is at most that of coming to it straight from its lower neighbour. -/
theorem update_le_add (x y : WithTop ℝ) {s : ℝ} (hs : 0 < s) : update x y s ≤ min x y + s := by
  by_cases h : min x y = ⊤
  · rw [h, WithTop.top_add]
    exact le_top
  · obtain ⟨u, hu⟩ := WithTop.ne_top_iff_exists.1 (mt (update_eq_top_iff hs).1 h)
    obtain ⟨m, hm, -, hle, -⟩ := update_between hs hu.symm
    rw [← hu, hm, ← WithTop.coe_add, WithTop.coe_le_coe]
    linarith

/-- Where the two-sided formula is used its square root is taken of at least `s ^ 2`, and the cost
comes out no lower than either neighbour. -/
lemma twoSided_spec {a b s : ℝ} (hs : 0 < s) (hab : a ≤ b) (hd : b - a < s) :
    s ^ 2 ≤ 2 * s * s - (b - a) * (b - a) ∧
      update a b s = ((a + b + √(2 * s * s - (b - a) * (b - a))) / 2 : ℝ) ∧
      b ≤ (a + b + √(2 * s * s - (b - a) * (b - a))) / 2 := by
  obtain ⟨-, hsteep, hlt⟩ := steepness_twoSided hs hab hd
  have hsq : (b - a) * (b - a) ≤ s * s := mul_self_le_mul_self (sub_nonneg.2 hab) hd.le
  have hrad : s ^ 2 ≤ 2 * s * s - (b - a) * (b - a) := by linarith
  have hroot : s ≤ √(2 * s * s - (b - a) * (b - a)) := Real.le_sqrt_of_sq_le hrad
  refine ⟨hrad, (update_eq_coe_iff hs).2 ⟨?_, hsteep⟩, by linarith⟩
  rw [min_eq_left (WithTop.coe_le_coe.2 hab)]
  exact WithTop.coe_lt_coe.2 hlt

/-- The bounds on an updated cost, as sums. -/
lemma update_bounds {x y : WithTop ℝ} {s u : ℝ} (hs : 0 < s) (hu : update x y s = u) :
    ∃ m : ℝ, min x y = m ∧ m + s / √2 ≤ u ∧ u ≤ m + s := by
  obtain ⟨m, hm, -, hhigh, hlow⟩ := update_between hs hu
  have hdiv : s / √2 ≤ u - m := (div_le_iff₀' (Real.sqrt_pos.2 two_pos)).2 hlow
  exact ⟨m, hm, by linarith, by linarith⟩

/-- Unless the costs along both axes are infinite the update is a real number `u`. The square root
of the two-sided formula is taken of `s ^ 2` at least, and then `u` is no lower than the higher of
the two costs. It lies above the lower one by at least `s / √2` and at most `s`. It does not fall
when the costs or `s` rise, whichever formula is used before and after. A higher cost that is not
below `u` may be replaced by any other that is not. -/
theorem upwind_laws {x y : WithTop ℝ} {s : ℝ} (hs : 0 < s) (h : ¬(x = ⊤ ∧ y = ⊤)) :
    ∃ u : ℝ, upwind (ofCost x) (ofCost y) (real s) = real u ∧
      (∀ a b : ℝ, min x y = a → max x y = b → b - a < s →
        s ^ 2 ≤ 2 * s * s - (b - a) * (b - a) ∧
        u = (a + b + √(2 * s * s - (b - a) * (b - a))) / 2 ∧ b ≤ u) ∧
      (∃ m : ℝ, min x y = m ∧ m + s / √2 ≤ u ∧ u ≤ m + s) ∧
      (∀ x' y' s', x ≤ x' → y ≤ y' → s ≤ s' →
        real u ≤ upwind (ofCost x') (ofCost y') (real s')) ∧
      (∀ v : WithTop ℝ, x ≤ y → u ≤ y → u ≤ v →
        upwind (ofCost x) (ofCost v) (real s) = real u) ∧
      ∀ v : WithTop ℝ, y ≤ x → u ≤ x → u ≤ v →
        upwind (ofCost v) (ofCost y) (real s) = real u := by
  obtain ⟨u, hu, -⟩ := upwind_spec hs fun htop => h (min_eq_top.1 htop)
  have hupdate : update x y s = u := by simp [update, hu]
  have replace_left {x y v : WithTop ℝ} (hupdate : update x y s = u) (hx : u ≤ x) (hv : u ≤ v) :
      upwind (ofCost v) (ofCost y) (real s) = real u := by
    rw [← hupdate] at hx hv
    rw [upwind_ofCost v y hs, update_congr_left hs hx hv, hupdate, ofCost_coe]
  refine ⟨u, hu, ?_, update_bounds hs hupdate, ?_, ?_, ?_⟩
  · intro a b ha hb hd
    have hab : a ≤ b := by
      rw [← WithTop.coe_le_coe, ← ha, ← hb]
      exact min_le_max
    obtain ⟨hrad, hformula, hle⟩ := twoSided_spec hs hab hd
    have hsame : update a b s = u := by
      rw [← ha, ← hb, ← hupdate]
      rcases le_total x y with hxy | hyx
      · rw [min_eq_left hxy, max_eq_right hxy]
      · rw [min_eq_right hyx, max_eq_left hyx, update_comm]
    rw [hsame, WithTop.coe_inj] at hformula
    exact ⟨hrad, hformula, hformula ▸ hle⟩
  · intro x' y' s' hx hy hs'
    rw [upwind_ofCost x' y' (hs.trans_le hs'), ← ofCost_coe, ofCost_le_ofCost, ← hupdate]
    calc update x y s ≤ update x' y' s := update_mono hs hx hy
      _ ≤ update x' y' s' := update_mono_step x' y' hs hs'
  · intro v _ hy hv
    rw [upwind_comm]
    exact replace_left ((update_comm y x s).trans hupdate) hy hv
  · intro v _ hx hv
    exact replace_left hupdate hx hv

/-- Between neighbours at zero and one, a cell that takes five to cross costs four, and no less when
one of them is not reached. -/
theorem upwind_laws_five : (0 : ℝ) < 5 ∧ ¬(((0 : ℝ) : WithTop ℝ) = ⊤ ∧ ((1 : ℝ) : WithTop ℝ) = ⊤) ∧
    upwind (ofCost (0 : ℝ)) (ofCost (1 : ℝ)) (real 5) = real 4 ∧
    real 4 ≤ upwind (ofCost (0 : ℝ)) (ofCost ⊤) (real 5) := by
  have hfive : (0 : ℝ) < 5 := by norm_num
  have hfinite : ¬(((0 : ℝ) : WithTop ℝ) = ⊤ ∧ ((1 : ℝ) : WithTop ℝ) = ⊤) := by simp
  obtain ⟨u, hu, htwo, -, hmono, -⟩ := upwind_laws hfive hfinite
  have hzero : ((0 : ℝ) : WithTop ℝ) ≤ ((1 : ℝ) : WithTop ℝ) := WithTop.coe_le_coe.2 zero_le_one
  obtain ⟨-, hformula, -⟩ := htwo 0 1 (min_eq_left hzero) (max_eq_right hzero) (by norm_num)
  have hroot : √(2 * 5 * 5 - (1 - 0) * (1 - 0) : ℝ) = 7 := by
    rw [Real.sqrt_eq_iff_mul_self_eq_of_pos (by norm_num)]
    norm_num
  obtain rfl : u = 4 := by
    rw [hformula, hroot]
    norm_num
  exact ⟨hfive, hfinite, hu, hmono 0 ⊤ 5 le_rfl le_top le_rfl⟩

end Egress.Upwind
