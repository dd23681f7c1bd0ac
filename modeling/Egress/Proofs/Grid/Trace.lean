import Egress.Grid.Trace
import Mathlib.Tactic

/-!
# The cells of a line

A line is drawn in steps along its longer axis. After `k` steps it has moved along the other axis
by the whole number nearest to the ideal distance, halves going up. The pen keeps no distance, only
an error from which it tells whether the next step moves along an axis: the error is determined by
the numbers of columns and rows moved, and both tests of a step compare these with the ideal line.
-/
namespace Egress.Trace

variable {a b c : Cell}

def columns (a b : Cell) : Nat := (b.1 - a.1 : Int).natAbs

def rows (a b : Cell) : Nat := (b.2 - a.2 : Int).natAbs

def longer (a b : Cell) : Nat := max (columns a b) (rows a b)

def shorter (a b : Cell) : Nat := min (columns a b) (rows a b)

/-- How far a line has moved along its shorter axis after `k` steps along the longer one. -/
def drift (a b : Cell) (k : Nat) : Nat := (2 * k * shorter a b + longer a b) / (2 * longer a b)

/-- Numbers of columns and rows that a line has moved after `k` steps. -/
def moved (a b : Cell) (k : Nat) : Nat × Nat :=
  if rows a b ≤ columns a b then (k, drift a b k) else (drift a b k, k)

/-- The place `m` further on from `i` in the direction of `j`. -/
def towards (i j m : Nat) : Nat := if i < j then i + m else i - m

/-- The cell of a line after `k` steps. -/
def cellAfter (a b : Cell) (k : Nat) : Cell :=
  (towards a.1 b.1 (moved a b k).1, towards a.2 b.2 (moved a b k).2)

lemma shorter_le_longer (a b : Cell) : shorter a b ≤ longer a b :=
  (min_le_left _ _).trans (le_max_left _ _)

lemma axes_of_wide (h : rows a b ≤ columns a b) :
    longer a b = columns a b ∧ shorter a b = rows a b :=
  ⟨max_eq_left h, min_eq_right h⟩

lemma axes_of_tall (h : ¬rows a b ≤ columns a b) :
    longer a b = rows a b ∧ shorter a b = columns a b :=
  ⟨max_eq_right (not_le.1 h).le, min_eq_left (not_le.1 h).le⟩

@[simp] theorem drift_zero (a b : Cell) : drift a b 0 = 0 := by
  rw [drift, Nat.mul_zero, Nat.zero_mul, Nat.zero_add]
  exact Nat.div_eq_zero_iff.2 (by omega)

@[simp] theorem drift_longer (a b : Cell) : drift a b (longer a b) = shorter a b := by
  have hle := shorter_le_longer a b
  rcases Nat.eq_zero_or_pos (longer a b) with hzero | hpos
  · rw [drift, hzero]
    omega
  · rw [drift, Nat.div_eq_iff (by omega)]
    have hswap : 2 * longer a b * shorter a b = shorter a b * (2 * longer a b) := Nat.mul_comm _ _
    omega

/-- The drift is the nearest whole number: rounded up by no more than a half, and down by less. -/
lemma drift_bounds (hpos : 0 < longer a b) (k : Nat) :
    2 * (drift a b k * longer a b) ≤ 2 * (k * shorter a b) + longer a b ∧
      2 * (k * shorter a b) < 2 * (drift a b k * longer a b) + longer a b := by
  have hdiv := (Nat.div_eq_iff (x := 2 * k * shorter a b + longer a b) (by omega)).1
    (show _ / (2 * longer a b) = drift a b k from rfl)
  have hdouble : drift a b k * (2 * longer a b) = 2 * (drift a b k * longer a b) := by ring
  have hassoc : 2 * k * shorter a b = 2 * (k * shorter a b) := Nat.mul_assoc _ _ _
  omega

/-- The drift grows by one where the ideal line passes the next half, and not elsewhere. -/
lemma drift_succ (hpos : 0 < longer a b) (k : Nat) :
    drift a b (k + 1) = drift a b k +
      if 2 * ((drift a b k + 1) * longer a b) ≤ 2 * ((k + 1) * shorter a b) + longer a b
      then 1 else 0 := by
  obtain ⟨hlow, hhigh⟩ := drift_bounds hpos k
  have hle := shorter_le_longer a b
  have hassoc : 2 * (k + 1) * shorter a b = 2 * ((k + 1) * shorter a b) := Nat.mul_assoc _ _ _
  have hsucc : (k + 1) * shorter a b = k * shorter a b + shorter a b := by ring
  have hnext : (drift a b k + 1) * longer a b = drift a b k * longer a b + longer a b := by ring
  rw [drift, Nat.div_eq_iff (by omega)]
  split
  · have hdouble : (drift a b k + 1) * (2 * longer a b) =
        2 * (drift a b k * longer a b) + 2 * longer a b := by ring
    omega
  · have hdouble : (drift a b k + 0) * (2 * longer a b) = 2 * (drift a b k * longer a b) := by ring
    omega

lemma drift_le_succ (a b : Cell) (k : Nat) :
    drift a b k ≤ drift a b (k + 1) ∧ drift a b (k + 1) ≤ drift a b k + 1 := by
  rcases Nat.eq_zero_or_pos (longer a b) with hzero | hpos
  · simp [drift, hzero]
  · rw [drift_succ hpos]
    split <;> omega

theorem drift_mono (a b : Cell) : Monotone (drift a b) :=
  monotone_nat_of_le_succ fun k => (drift_le_succ a b k).1

theorem drift_le_shorter {k : Nat} (hk : k ≤ longer a b) : drift a b k ≤ shorter a b :=
  drift_longer a b ▸ drift_mono a b hk

@[simp] theorem moved_zero (a b : Cell) : moved a b 0 = (0, 0) := by simp [moved]

@[simp] theorem moved_longer (a b : Cell) : moved a b (longer a b) = (columns a b, rows a b) := by
  unfold moved
  split
  · rename_i h
    rw [drift_longer, (axes_of_wide h).1, (axes_of_wide h).2]
  · rename_i h
    rw [drift_longer, (axes_of_tall h).1, (axes_of_tall h).2]

theorem moved_le {k : Nat} (hk : k ≤ longer a b) :
    (moved a b k).1 ≤ columns a b ∧ (moved a b k).2 ≤ rows a b := by
  have hdrift := drift_le_shorter hk
  unfold moved
  split
  · rename_i h
    rw [(axes_of_wide h).2] at hdrift
    exact ⟨(axes_of_wide h).1 ▸ hk, hdrift⟩
  · rename_i h
    rw [(axes_of_tall h).2] at hdrift
    exact ⟨hdrift, (axes_of_tall h).1 ▸ hk⟩

/-- Place of a cell along the longer axis of a line. -/
def along (a b c : Cell) : Nat := if rows a b ≤ columns a b then c.1 else c.2

/-- Place of a cell along the shorter axis of a line. -/
def across (a b c : Cell) : Nat := if rows a b ≤ columns a b then c.2 else c.1

lemma ext_axes {c c' : Cell} (halong : along a b c = along a b c')
    (hacross : across a b c = across a b c') : c = c' := by
  unfold along at halong
  unfold across at hacross
  split at halong
  · rename_i h
    rw [if_pos h, if_pos h] at hacross
    exact Prod.ext halong hacross
  · rename_i h
    rw [if_neg h, if_neg h] at hacross
    exact Prod.ext hacross halong

lemma natAbs_along (a b : Cell) : (along a b b - along a b a : Int).natAbs = longer a b := by
  unfold along
  split
  · rename_i h
    rw [(axes_of_wide h).1, columns]
  · rename_i h
    rw [(axes_of_tall h).1, rows]

lemma along_cellAfter (a b : Cell) (k : Nat) :
    along a b (cellAfter a b k) = towards (along a b a) (along a b b) k := by
  unfold along cellAfter moved
  split <;> rfl

lemma across_cellAfter (a b : Cell) (k : Nat) :
    across a b (cellAfter a b k) = towards (across a b a) (across a b b) (drift a b k) := by
  unfold across cellAfter moved
  split <;> rfl

/-- Within the distance to `j` the place `m` further on lies between the ends, `m` from `i`. -/
lemma towards_spec {i j m : Nat} (hm : m ≤ (j - i : Int).natAbs) :
    towards i j m ∈ Set.uIcc i j ∧ (towards i j m - i : Int).natAbs = m := by
  rw [Set.mem_uIcc]
  unfold towards
  split <;> omega

/-- Every place between the ends is some way on from `i`. -/
lemma towards_natAbs {i j m : Nat} (hm : m ∈ Set.uIcc i j) :
    towards i j (m - i : Int).natAbs = m ∧ (m - i : Int).natAbs ≤ (j - i : Int).natAbs := by
  rw [Set.mem_uIcc] at hm
  unfold towards
  split <;> omega

lemma towards_le_succ (i j : Nat) {m m' : Nat} (h : m ≤ m' ∧ m' ≤ m + 1) :
    (towards i j m' - towards i j m : Int).natAbs ≤ 1 := by
  unfold towards
  split <;> omega

/-- A cell of the line tells after how many steps it is drawn. -/
lemma natAbs_along_cellAfter {k : Nat} (hk : k ≤ longer a b) :
    (along a b (cellAfter a b k) - along a b a : Int).natAbs = k := by
  rw [along_cellAfter]
  exact (towards_spec (natAbs_along a b ▸ hk)).2

/-- The direction from `i` to `j`. -/
def sign (i j : Nat) : Int := if i < j then 1 else -1

/-- The pen on the line from `a` to `b` after `k` steps. -/
def penAfter (a b : Cell) (k : Nat) : Pen where
  x := a.1 + sign a.1 b.1 * (moved a b k).1
  y := a.2 + sign a.2 b.2 * (moved a b k).2
  err := (((moved a b k).2 + 1) * columns a b : Nat) - (((moved a b k).1 + 1) * rows a b : Nat)

/-- The cells drawn from the pen on in at most `fuel` steps. -/
def draw (a b : Cell) (fuel : Nat) (p : Pen) : List Cell :=
  Pen.cells (columns a b) (-rows a b) (sign a.1 b.1) (sign a.2 b.2) b.1 b.2 fuel p

/-- The two tests of a step tell whether the line moves along the two axes. -/
lemma moved_succ (hpos : 0 < longer a b) (k : Nat) :
    (moved a b (k + 1)).1 = (moved a b k).1 +
      (if -(rows a b : Int) ≤ 2 * (penAfter a b k).err then 1 else 0) ∧
    (moved a b (k + 1)).2 = (moved a b k).2 +
      (if 2 * (penAfter a b k).err ≤ (columns a b : Int) then 1 else 0) := by
  obtain ⟨-, hhigh⟩ := drift_bounds hpos k
  have hle := shorter_le_longer a b
  have hdrift := drift_succ hpos k
  have hsucc : (k + 1) * shorter a b = k * shorter a b + shorter a b := by ring
  have hnext : (drift a b k + 1) * longer a b = drift a b k * longer a b + longer a b := by ring
  simp only [penAfter, moved]
  by_cases h : rows a b ≤ columns a b
  · obtain ⟨hlong, hshort⟩ := axes_of_wide h
    simp only [if_pos h]
    rw [← hlong, ← hshort]
    constructor
    · rw [if_pos (by omega)]
    · rw [hdrift]
      congr 2
      exact propext (by omega)
  · obtain ⟨hlong, hshort⟩ := axes_of_tall h
    simp only [if_neg h]
    rw [← hlong, ← hshort]
    constructor
    · rw [hdrift]
      congr 2
      exact propext (by omega)
    · rw [if_pos (by omega)]

lemma step_eq (dx dy sx sy : Int) (p : Pen) : p.step dx dy sx sy =
    ⟨p.x + sx * (if dy ≤ 2 * p.err then 1 else 0), p.y + sy * (if 2 * p.err ≤ dx then 1 else 0),
      p.err + dy * (if dy ≤ 2 * p.err then 1 else 0) +
        dx * (if 2 * p.err ≤ dx then 1 else 0)⟩ := by
  unfold Pen.step
  split <;> split <;> simp

theorem step_penAfter (hpos : 0 < longer a b) (k : Nat) :
    (penAfter a b k).step (columns a b) (-rows a b) (sign a.1 b.1) (sign a.2 b.2) =
      penAfter a b (k + 1) := by
  obtain ⟨hx, hy⟩ := moved_succ hpos k
  have hnext : penAfter a b (k + 1) = ⟨_, _, _⟩ := rfl
  rw [step_eq, hnext, hx, hy, Pen.mk.injEq]
  push_cast
  refine ⟨?_, ?_, ?_⟩
  · rw [penAfter, mul_add, add_assoc]
  · rw [penAfter, mul_add, add_assoc]
  · have herr : (penAfter a b k).err = ((moved a b k).2 + 1 : Int) * columns a b -
        ((moved a b k).1 + 1 : Int) * rows a b := by
      rw [penAfter]
      push_cast
      rfl
    linear_combination herr

/-- A pen that has moved `m` places towards `j` is at the cell `m` places on. -/
lemma toNat_sign (i j m : Nat) : (i + sign i j * m : Int).toNat = towards i j m := by
  unfold sign towards
  split <;> omega

lemma cell_penAfter (a b : Cell) (k : Nat) :
    ((penAfter a b k).x.toNat, (penAfter a b k).y.toNat) = cellAfter a b k :=
  Prod.ext (toNat_sign _ _ _) (toNat_sign _ _ _)

lemma sign_natAbs (i j : Nat) : i + sign i j * (j - i : Int).natAbs = j := by
  unfold sign
  split <;> omega

/-- The pen comes to the end of the line after as many steps as the line is long, and no sooner. -/
lemma penAfter_at_end {k : Nat} (hk : k ≤ longer a b) :
    ((penAfter a b k).x = b.1 ∧ (penAfter a b k).y = b.2) ↔ k = longer a b := by
  constructor
  · rintro ⟨hx, hy⟩
    have hend : cellAfter a b k = b := by
      rw [← cell_penAfter, hx, hy]
      rfl
    rw [← natAbs_along_cellAfter hk, hend, natAbs_along]
  · rintro rfl
    simp only [penAfter, moved_longer]
    exact ⟨sign_natAbs _ _, sign_natAbs _ _⟩

/-- From the pen after `k` steps the rest of the line is drawn. -/
theorem draw_penAfter {fuel k : Nat} (hk : k ≤ longer a b) (hfuel : longer a b ≤ k + fuel) :
    draw a b fuel (penAfter a b k) =
      (List.range' k (longer a b + 1 - k)).map (cellAfter a b) := by
  induction fuel generalizing k with
  | zero =>
    have hlast : longer a b + 1 - k = 1 := by omega
    rw [hlast, draw, Pen.cells, cell_penAfter]
    rfl
  | succ fuel ih =>
    have hrest : longer a b + 1 - k = longer a b - k + 1 := by omega
    rw [hrest, List.range'_succ, List.map_cons, draw, Pen.cells, cell_penAfter,
      if_congr (penAfter_at_end hk) rfl rfl]
    split
    · rename_i hend
      rw [hend, Nat.sub_self]
      rfl
    · rename_i hend
      have hlt : k < longer a b := lt_of_le_of_ne hk hend
      have hcount : longer a b - k = longer a b + 1 - (k + 1) := by omega
      rw [step_penAfter (by omega), hcount, ← ih hlt (by omega), draw]

/-- Any number of steps that is at least the length of the line is enough. -/
theorem draw_start {fuel : Nat} (hfuel : longer a b ≤ fuel) :
    draw a b fuel ⟨a.1, a.2, columns a b + -rows a b⟩ =
      (List.range (longer a b + 1)).map (cellAfter a b) := by
  have hstart : penAfter a b 0 = ⟨a.1, a.2, columns a b + -rows a b⟩ := by
    simp [penAfter, sub_eq_add_neg]
  rw [← hstart, draw_penAfter (Nat.zero_le _) (by omega), List.range_eq_range', Nat.sub_zero]

theorem lineBetween_eq_map (a b : Cell) :
    lineBetween a b = (List.range (longer a b + 1)).map (cellAfter a b) := by
  have hfuel : longer a b ≤ ((columns a b : Int) - -rows a b).toNat := by
    unfold longer
    omega
  exact draw_start hfuel

theorem mem_lineBetween : c ∈ lineBetween a b ↔ ∃ k ≤ longer a b, cellAfter a b k = c := by
  simp only [lineBetween_eq_map, List.mem_map, List.mem_range, Nat.lt_succ_iff]

@[simp] theorem cellAfter_zero (a b : Cell) : cellAfter a b 0 = a := by
  simp [cellAfter, towards]

@[simp] theorem cellAfter_longer (a b : Cell) : cellAfter a b (longer a b) = b := by
  obtain ⟨hx, hy⟩ := (penAfter_at_end (le_refl (longer a b))).2 rfl
  rw [← cell_penAfter, hx, hy]
  rfl

theorem nodup_lineBetween (a b : Cell) : (lineBetween a b).Nodup := by
  rw [lineBetween_eq_map]
  refine List.Nodup.map_on (fun k hk k' hk' h => ?_) List.nodup_range
  rw [← natAbs_along_cellAfter (Nat.lt_succ_iff.1 (List.mem_range.1 hk)), h,
    natAbs_along_cellAfter (Nat.lt_succ_iff.1 (List.mem_range.1 hk'))]

theorem mem_uIcc_of_mem_lineBetween (h : c ∈ lineBetween a b) :
    c.1 ∈ Set.uIcc a.1 b.1 ∧ c.2 ∈ Set.uIcc a.2 b.2 := by
  obtain ⟨k, hk, rfl⟩ := mem_lineBetween.1 h
  obtain ⟨hcolumns, hrows⟩ := moved_le hk
  exact ⟨(towards_spec hcolumns).1, (towards_spec hrows).1⟩

/-- No step moves by more than one column or row. -/
lemma cellAfter_succ (a b : Cell) (k : Nat) :
    columns (cellAfter a b k) (cellAfter a b (k + 1)) ≤ 1 ∧
      rows (cellAfter a b k) (cellAfter a b (k + 1)) ≤ 1 := by
  have hdrift := drift_le_succ a b k
  have hstep : k ≤ k + 1 ∧ k + 1 ≤ k + 1 := ⟨k.le_succ, le_rfl⟩
  unfold cellAfter moved
  split
  · exact ⟨towards_le_succ _ _ hstep, towards_le_succ _ _ hdrift⟩
  · exact ⟨towards_le_succ _ _ hdrift, towards_le_succ _ _ hstep⟩

/-- Drawing ends, however many steps are allowed. Along its longer axis the line moves by one cell
in each step, along the shorter one it is the ideal line rounded to the nearest cell, halves going
towards the end. So it leads from the one end to the other within the box between them, from each
cell to one that touches it, and comes to no cell twice. -/
theorem lineBetween_closedForm (a b : Cell) :
    (∀ extra, draw a b (longer a b + extra) ⟨a.1, a.2, columns a b + -rows a b⟩ =
      lineBetween a b) ∧
    lineBetween a b = (List.range (longer a b + 1)).map (cellAfter a b) ∧
    (lineBetween a b).length = longer a b + 1 ∧
    (lineBetween a b).head? = some a ∧ (lineBetween a b).getLast? = some b ∧
    (∀ c ∈ lineBetween a b, c.1 ∈ Set.uIcc a.1 b.1 ∧ c.2 ∈ Set.uIcc a.2 b.2) ∧
    (lineBetween a b).Nodup ∧
    (lineBetween a b).IsChain fun c n => columns c n ≤ 1 ∧ rows c n ≤ 1 := by
  have hmap := lineBetween_eq_map a b
  refine ⟨fun extra => hmap ▸ draw_start (Nat.le_add_right _ _), hmap, ?_, ?_, ?_,
    fun c => mem_uIcc_of_mem_lineBetween, nodup_lineBetween a b, ?_⟩
  · rw [hmap, List.length_map, List.length_range]
  · simp [hmap, List.head?_range]
  · simp [hmap, List.getLast?_range]
  · rw [hmap, List.isChain_map, List.isChain_range]
    exact fun k _ => cellAfter_succ a b k

/-- A falling line that passes exactly between two cells in every other column. -/
theorem lineBetween_closedForm_falling :
    lineBetween (1, 5) (7, 2) = [(1, 5), (2, 4), (3, 4), (4, 3), (5, 3), (6, 2), (7, 2)] ∧
    (4, 3) ∈ lineBetween (1, 5) (7, 2) ∧ 4 ∈ Set.uIcc 1 7 ∧ 3 ∈ Set.uIcc 5 2 := by
  obtain ⟨-, hmap, -, -, -, hbox, -⟩ := lineBetween_closedForm (1, 5) (7, 2)
  have hcells : lineBetween (1, 5) (7, 2) =
      [(1, 5), (2, 4), (3, 4), (4, 3), (5, 3), (6, 2), (7, 2)] := by
    rw [hmap]
    decide
  have hmem : (4, 3) ∈ lineBetween (1, 5) (7, 2) := by
    rw [hcells]
    decide
  exact ⟨hcells, hmem, hbox (4, 3) hmem⟩

end Egress.Trace
