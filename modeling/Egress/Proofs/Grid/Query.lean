import Egress.Proofs.Geometry
import Egress.Proofs.Grid.FloorPlan
import Egress.Proofs.MinHeap

/-!
# The cell at which a question is answered

The rings around a cell are told apart by the larger of the two distances in columns and rows. A
question is answered on the first ring with a free cell, at the free cell of that ring that comes
first by the distance of its centre, and by its number among those equally near.
-/
namespace Egress
open Exact

namespace RectGrid

lemma contains_of_cellAt? {α : Type} [Scalar α] {g : RectGrid α} {p : Point α} {c : Cell}
    (hc : g.cellAt? p = some c) : g.contains c = true := by
  simp only [cellAt?, Option.ite_none_right_eq_some] at hc
  obtain ⟨⟨-, -, hi, hj⟩, h⟩ := hc
  obtain rfl := Option.some.inj h
  exact contains_iff.2 ⟨hi, hj⟩

/-- The grids in the plane with cells of positive size. -/
structure IsReal (g : RectGrid Exact) : Prop where
  pos : 0 < g.cellSize
  finite : Scalar.isFinite g.cellSize = true
  origin : g.origin.IsFinite

variable {g : RectGrid Exact} {p : Point Exact} {c : Cell}

lemma IsReal.exists_real (hg : g.IsReal) :
    ∃ x y s width height, 0 < s ∧ g = ⟨⟨real x, real y⟩, real s, width, height⟩ := by
  obtain ⟨origin, size, width, height⟩ := g
  obtain ⟨hpos, hfin, horigin⟩ := hg
  obtain ⟨s, hs⟩ := isFinite_iff.1 hfin
  obtain ⟨x, y, hxy⟩ := horigin.exists_real
  subst hs hxy
  exact ⟨x, y, s, width, height, by rwa [zero_eq, real_lt_real] at hpos, rfl⟩

theorem cellAt?_centre (hg : g.IsReal) (hc : g.contains c = true) :
    g.cellAt? (g.centre c) = some c := by
  obtain ⟨x, y, s, width, height, hs, rfl⟩ := hg.exists_real
  have hplace (o : ℝ) (i : ℕ) :
      Scalar.round ((real o + (i : Exact) * real s - real o) / real s) = real i := by
    rw [natCast_eq, real_mul_real, real_add_real, real_sub_real, add_sub_cancel_left,
      real_div_real _ hs.ne', mul_div_cancel_right₀ _ hs.ne', round_natCast]
  have hnonneg (i : ℕ) : (0 : Exact) ≤ real i := by
    rw [zero_eq, real_le_real]
    exact Nat.cast_nonneg i
  obtain ⟨hi, hj⟩ := contains_iff.1 hc
  simp only [cellAt?, centre, hplace, toCount_natCast]
  rw [if_pos ⟨hnonneg _, hnonneg _, hi, hj⟩]

lemma isNaN_dist (hg : g.IsReal) (hc : g.cellAt? p = some c) (n : Cell) :
    Scalar.isNaN ((g.centre n).dist p) = false := by
  obtain ⟨x, y, s, width, height, hs, rfl⟩ := hg.exists_real
  -- A coordinate that is no number, or below all numbers, has no place from zero on.
  have axis {a : Exact} {o : ℝ} (h : 0 ≤ Scalar.round ((a - real o) / real s)) :
      (∃ x, a = real x) ∨ a = posInf := by
    rw [zero_eq] at h
    cases a with
    | real x => exact .inl ⟨x, rfl⟩
    | posInf => exact .inr rfl
    | negInf =>
      have hplace : (negInf - real o) / real s = negInf := if_neg hs.not_gt
      rw [hplace] at h
      exact absurd h id
    | nan => exact absurd h id
  obtain ⟨px, py⟩ := p
  simp only [cellAt?, Option.ite_none_right_eq_some] at hc
  rcases axis hc.1.1 with ⟨px, rfl⟩ | rfl
  · rcases axis hc.1.2.1 with ⟨py, rfl⟩ | rfl
    · exact congrArg Scalar.isNaN (Point.dist_eq_real _ _ px py)
    · rfl
  · rcases axis hc.1.2.1 with ⟨py, rfl⟩ | rfl
    · rfl
    · rfl

end RectGrid

namespace ZoneGrid

section
variable {α : Type} {g : ZoneGrid α} {c n : Cell} {r : Nat}

lemma mem_span_iff {d : Int} : d ∈ span r ↔ d.natAbs ≤ r := by
  simp only [span, List.mem_map, List.mem_range]
  constructor
  · rintro ⟨k, hk, rfl⟩
    omega
  · intro hd
    exact ⟨(d + r).toNat, by omega, by omega⟩

theorem mem_freeRing_iff : n ∈ g.freeRing c r ↔
    g.grid.contains n = true ∧ g.isPassable n = true ∧ Trace.longer c n = r := by
  simp only [freeRing, List.mem_flatMap, List.mem_filterMap, mem_span_iff,
    Option.ite_none_right_eq_some, Option.filter_eq_some_iff, RectGrid.offset?_eq_some_iff]
  unfold Trace.longer Trace.columns Trace.rows
  constructor
  · rintro ⟨di, hdi, dj, hdj, hring, ⟨hi, hj, hn⟩, hfree⟩
    exact ⟨hn, hfree, by omega⟩
  · rintro ⟨hn, hfree, hring⟩
    exact ⟨n.1 - c.1, by omega, n.2 - c.2, by omega, by omega, ⟨by omega, by omega, hn⟩, hfree⟩

/-- The cell itself is the ring of radius zero. -/
lemma freeRing_zero (hc : g.grid.contains c = true) :
    g.freeRing c 0 = if g.isPassable c = true then [c] else [] := by
  have hself : g.grid.offset? c 0 0 = some c :=
    RectGrid.offset?_eq_some_iff.2 ⟨by simp, by simp, hc⟩
  have hspan : span 0 = [0] := rfl
  rw [freeRing, hspan, List.flatMap_singleton, List.filterMap_cons, List.filterMap_nil]
  rw [if_pos (.inl rfl), hself]
  by_cases hfree : g.isPassable c = true
  · rw [Option.filter_some_pos hfree, if_pos hfree]
  · rw [Option.filter_some_neg (Bool.not_eq_true _ ▸ hfree), if_neg hfree]

variable [Scalar α] {p : Point α}

lemma queryCell_eq_outsideGrid_iff :
    g.queryCell p = .error (.outsideGrid g.zone p) ↔ g.grid.cellAt? p = none := by
  constructor
  · intro h
    unfold queryCell at h
    split at h
    · assumption
    · split at h
      · cases h
      · split at h
        · cases h
        · cases h
  · intro h
    rw [queryCell, h]

/-- Where the first rings have no free cell, the first that has one answers. -/
lemma queryCell_of_ring {c' : Cell} (hcell : g.grid.cellAt? p = some c) (hr : r ≤ 3)
    (hempty : ∀ r' < r, g.freeRing c r' = []) (hnearest : g.nearest? p (g.freeRing c r) = some c') :
    g.queryCell p = .ok c' := by
  have hzero := freeRing_zero (g := g) (RectGrid.contains_of_cellAt? hcell)
  rw [queryCell, hcell]
  dsimp only
  -- The cell at the position is a ring of its own, which is tried before the three others.
  rcases Nat.eq_zero_or_pos r with rfl | hpos
  · rw [hzero] at hnearest
    split at hnearest
    · rename_i hfree
      rw [if_pos hfree, ← Option.some.inj hnearest]
      rfl
    · cases hnearest
  · have hblocked : ¬g.isPassable c = true := by
      intro hfree
      rw [hempty 0 hpos, if_pos hfree] at hzero
      cases hzero
    have hnone (r' : Nat) (h : r' < r) : g.nearest? p (g.freeRing c r') = none := by
      rw [hempty r' h]
      rfl
    have hfound : [1, 2, 3].findSome? (fun r => g.nearest? p (g.freeRing c r)) = some c' := by
      interval_cases r
      · simp [hnearest]
      · simp [hnearest, hnone]
      · simp [hnearest, hnone]
    rw [if_neg hblocked, hfound]

lemma queryCell_of_forall (hcell : g.grid.cellAt? p = some c)
    (h : ∀ n, g.grid.contains n = true → Trace.columns c n ≤ 3 → Trace.rows c n ≤ 3 →
      g.isPassable n = false) : g.queryCell p = .error (.noFreeCell g.zone p) := by
  have hnone (r : Nat) (hr : r ≤ 3) : g.nearest? p (g.freeRing c r) = none := by
    have hempty : g.freeRing c r = [] := by
      refine List.eq_nil_iff_forall_not_mem.2 fun n hmem => ?_
      obtain ⟨hn, hfree, rfl⟩ := mem_freeRing_iff.1 hmem
      obtain ⟨hcolumns, hrows⟩ := max_le_iff.1 hr
      rw [h n hn hcolumns hrows] at hfree
      cases hfree
    rw [hempty]
    rfl
  have hblocked : ¬g.isPassable c = true := by
    simp [h c (RectGrid.contains_of_cellAt? hcell), Trace.columns, Trace.rows]
  rw [queryCell, hcell]
  dsimp only
  rw [if_neg hblocked]
  simp [hnone]

/-- A position has no cell to be read at only if it is off the grid or far from all free cells. -/
lemma queryCell_eq_error {e : FieldError α} (h : g.queryCell p = .error e) :
    e = .outsideGrid g.zone p ∨ e = .noFreeCell g.zone p := by
  unfold queryCell at h
  split at h
  · exact .inl (Except.error.inj h).symm
  · split at h
    · cases h
    · split at h
      · cases h
      · exact .inr (Except.error.inj h).symm

end

/-- What is answered for a position in the cell `c`: a free cell on the innermost ring around `c`
that has one, of these cells one with the nearest centre, and of equally near ones that with the
lowest number. -/
structure IsNearestFree (g : ZoneGrid Exact) (p : Point Exact) (c c' : Cell) : Prop where
  contains : g.grid.contains c' = true
  free : g.isPassable c' = true
  ring_le : ∀ n, g.grid.contains n = true → g.isPassable n = true →
    Trace.longer c c' ≤ Trace.longer c n
  dist_le : ∀ n, g.grid.contains n = true → g.isPassable n = true →
    Trace.longer c n = Trace.longer c c' → (g.grid.centre c').dist p ≤ (g.grid.centre n).dist p
  key_le : ∀ n, g.grid.contains n = true → g.isPassable n = true →
    Trace.longer c n = Trace.longer c c' →
    (g.grid.centre n).dist p ≤ (g.grid.centre c').dist p → g.grid.key c' ≤ g.grid.key n

variable {g : ZoneGrid Exact} {p : Point Exact} {c : Cell}

/-- Of a list of cells one is picked that is not farther than any, nor as near as one with a lower
number. -/
lemma exists_nearest? {cs : List Cell} (h : cs ≠ []) :
    ∃ c' ∈ cs, g.nearest? p cs = some c' ∧ ∀ n ∈ cs,
      ((g.grid.centre c').dist p).place ≤ ((g.grid.centre n).dist p).place ∧
        (((g.grid.centre n).dist p).place ≤ ((g.grid.centre c').dist p).place →
          g.grid.key c' ≤ g.grid.key n) := by
  let before := MinHeap.byCost (fun n => (g.grid.centre n).dist p) g.grid.key
  cases cs with
  | nil => exact absurd rfl h
  | cons c cs =>
    have hfirst := (MinHeap.ranks_byCost _ _ : MinHeap.Ranks before).foldl_first c cs
    refine ⟨_, MinHeap.foldl_mem before c cs, rfl, fun n hn => ?_⟩
    exact MinHeap.byCost_eq_false_iff.1 (hfirst n hn)

/-- With a free cell on one of the first rings there is an answer. -/
lemma queryCell_of_free (hg : g.grid.IsReal) (hcell : g.grid.cellAt? p = some c) {n₀ : Cell}
    (hn₀ : g.grid.contains n₀ = true) (hfree : g.isPassable n₀ = true)
    (hnear : Trace.longer c n₀ ≤ 3) :
    ∃ c', g.queryCell p = .ok c' ∧ g.IsNearestFree p c c' := by
  have hmem {n : Cell} (hn : g.grid.contains n = true) (hfree : g.isPassable n = true) :
      n ∈ g.freeRing c (Trace.longer c n) := mem_freeRing_iff.2 ⟨hn, hfree, rfl⟩
  obtain ⟨r, hring, hfirst⟩ : ∃ r, g.freeRing c r ≠ [] ∧ ∀ r' < r, g.freeRing c r' = [] := by
    have hring : ∃ r, g.freeRing c r ≠ [] := ⟨_, List.ne_nil_of_mem (hmem hn₀ hfree)⟩
    exact ⟨Nat.find hring, Nat.find_spec hring, fun r hr => not_not.1 (Nat.find_min hring hr)⟩
  have hle {n : Cell} (hn : g.grid.contains n = true) (hfree : g.isPassable n = true) :
      r ≤ Trace.longer c n := by
    by_contra hlt
    exact List.ne_nil_of_mem (hmem hn hfree) (hfirst _ (not_le.1 hlt))
  obtain ⟨c', hc', hpicked, hbest⟩ := exists_nearest? (p := p) hring
  obtain ⟨hcontains, hfree', rfl⟩ := mem_freeRing_iff.1 hc'
  refine ⟨c', queryCell_of_ring hcell ((hle hn₀ hfree).trans hnear) hfirst hpicked, hcontains,
    hfree', fun n => hle, ?_, ?_⟩
  · intro n hn hfree hsame
    obtain ⟨hdist, -⟩ := hbest n (hsame ▸ hmem hn hfree)
    exact le_iff_place.2 ⟨hdist, RectGrid.isNaN_dist hg hcell n⟩
  · intro n hn hfree hsame hnearer
    obtain ⟨-, hkey⟩ := hbest n (hsame ▸ hmem hn hfree)
    exact hkey (le_iff_place.1 hnearer).1

/-- Off the grid there is no answer, and in the cell `c` there is none exactly if no free cell is
within three columns and three rows of `c`. Otherwise the answer is a nearest free cell, which is
also what the centre of that cell gets for an answer. -/
theorem queryCell_nearest (hg : g.grid.IsReal) (p : Point Exact) :
    (g.queryCell p = .error (.outsideGrid g.zone p) ↔ g.grid.cellAt? p = none) ∧
    ∀ c, g.grid.cellAt? p = some c →
      (g.queryCell p = .error (.noFreeCell g.zone p) ↔
        ∀ n, g.grid.contains n = true → Trace.columns c n ≤ 3 → Trace.rows c n ≤ 3 →
          g.isPassable n = false) ∧
      ∀ n₀, g.grid.contains n₀ = true → Trace.columns c n₀ ≤ 3 → Trace.rows c n₀ ≤ 3 →
        g.isPassable n₀ = true →
        ∃ c', g.queryCell p = .ok c' ∧ g.IsNearestFree p c c' ∧
          g.queryCell (g.grid.centre c') = .ok c' := by
  refine ⟨queryCell_eq_outsideGrid_iff, fun c hcell => ?_⟩
  have hanswer {n : Cell} (hn : g.grid.contains n = true) (hcolumns : Trace.columns c n ≤ 3)
      (hrows : Trace.rows c n ≤ 3) (hfree : g.isPassable n = true) :
      ∃ c', g.queryCell p = .ok c' ∧ g.IsNearestFree p c c' :=
    queryCell_of_free hg hcell hn hfree (max_le hcolumns hrows)
  refine ⟨⟨?_, queryCell_of_forall hcell⟩, ?_⟩
  · intro h n hn hcolumns hrows
    cases hfree : g.isPassable n with
    | false => rfl
    | true =>
      obtain ⟨c', hok, -⟩ := hanswer hn hcolumns hrows hfree
      rw [hok] at h
      cases h
  · intro n₀ hn₀ hcolumns hrows hfree
    obtain ⟨c', hok, hnearest⟩ := hanswer hn₀ hcolumns hrows hfree
    have hcentre := RectGrid.cellAt?_centre hg hnearest.contains
    refine ⟨c', hok, hnearest, ?_⟩
    rw [queryCell, hcentre]
    exact if_pos hnearest.free

/-- A wall with a free cell to the left and to the right of its middle. -/
noncomputable def niches : ZoneGrid Exact where
  zone := .room 0
  grid := ⟨⟨real 0, real 0⟩, real 1, 5, 5⟩
  cells := Lattice.ofFn 5 5 fun c => if c = (1, 2) ∨ c = (3, 2) then .inside else .wall
  targets := .empty

lemma isPassable_niches {c : Cell} (hc : niches.grid.contains c = true) :
    niches.isPassable c = true ↔ c = (1, 2) ∨ c = (3, 2) := by
  have hplace : c.1 < 5 ∧ c.2 < 5 := RectGrid.contains_iff.1 hc
  rw [isPassable, kind, niches]
  dsimp only
  rw [Lattice.getD_ofFn _ hplace]
  split
  · rename_i h
    exact iff_of_true rfl h
  · rename_i h
    exact iff_of_false (by decide) h

/-- From the middle of the wall both free cells are equally near, and the left one has the lower
number. -/
theorem queryCell_nearest_niches :
    niches.queryCell (niches.grid.centre (2, 2)) = .ok (1, 2) ∧
      niches.queryCell (niches.grid.centre (1, 2)) = .ok (1, 2) := by
  have hreal : niches.grid.IsReal := by
    refine ⟨?_, rfl, rfl, rfl⟩
    show (0 : Exact) < real 1
    rw [← one_eq]
    exact zero_lt_one
  have hmiddle : niches.grid.cellAt? (niches.grid.centre (2, 2)) = some (2, 2) :=
    RectGrid.cellAt?_centre hreal rfl
  have hleft : niches.isPassable (1, 2) = true := (isPassable_niches rfl).2 (.inl rfl)
  obtain ⟨-, hnear⟩ := queryCell_nearest hreal (niches.grid.centre (2, 2))
  obtain ⟨-, hanswer⟩ := hnear (2, 2) hmiddle
  obtain ⟨c', hok, hnearest, hagain⟩ := hanswer (1, 2) rfl (by decide) (by decide) hleft
  have hdist : (niches.grid.centre (1, 2)).dist (niches.grid.centre (2, 2)) ≤
      (niches.grid.centre (3, 2)).dist (niches.grid.centre (2, 2)) := by
    have hplane (i : ℕ) : (niches.grid.centre (i, 2)).dist (niches.grid.centre (2, 2)) =
        real (dist (⟨0 + i * 1, 0 + (2 : ℕ) * 1⟩ : ℂ) ⟨0 + (2 : ℕ) * 1, 0 + (2 : ℕ) * 1⟩) :=
      Point.dist_eq_real _ _ _ _
    rw [hplane, hplane, real_le_real, Complex.dist_mk, Complex.dist_mk]
    norm_num
  obtain rfl : c' = (1, 2) := by
    rcases (isPassable_niches hnearest.contains).1 hnearest.free with rfl | rfl
    · rfl
    · exact absurd (hnearest.key_le (1, 2) rfl hleft (by decide) hdist) (by decide)
  exact ⟨hok, hagain⟩

end ZoneGrid

end Egress
