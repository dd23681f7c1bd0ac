import Egress.Proofs.Field.Reach
import Egress.Proofs.Grid.Trace

/-!
# Lines as barriers

Within its strip a line has one cell at each place along its longer axis, and from one place to the
next the line moves across by at most one cell. So the height of a cell over the line changes by at
most one in a step to a neighbour, and a path within the strip cannot get from one side of the line
to the other without a cell at height zero, which is a cell of the line. A front has to leave the
strip to come behind a line of walls.
-/
namespace Egress
open Exact

namespace Trace

variable {a b c n : Cell}

/-- True of the cells whose place along the longer axis lies between the ends of the line: columns
for a line that is at least as wide as high, and rows for any other. -/
def InStrip (a b c : Cell) : Prop := along a b c ∈ Set.uIcc (along a b a) (along a b b)

/-- True of the cells that lie beyond the cell of the line in their column, or row. -/
def Above (a b c : Cell) : Prop :=
  ∃ m ∈ lineBetween a b, along a b m = along a b c ∧ across a b m < across a b c

/-- True of the cells that lie short of the cell of the line in their column, or row. -/
def Below (a b c : Cell) : Prop :=
  ∃ m ∈ lineBetween a b, along a b m = along a b c ∧ across a b c < across a b m

/-- True of two cells on different sides of the line. -/
def Parted (a b c n : Cell) : Prop :=
  Above a b c ∧ Below a b n ∨ Below a b c ∧ Above a b n

/-- Where the line is across, at a place along it. -/
def level (a b : Cell) (i : Nat) : Nat :=
  towards (across a b a) (across a b b) (drift a b (i - along a b a : Int).natAbs)

/-- How far a cell lies above the line, negative below it. -/
def height (a b c : Cell) : Int := across a b c - level a b (along a b c)

/-- At each place of the strip, and nowhere else, the line has a cell, which lies at its level. -/
lemma exists_mem_iff (P : Nat → Prop) :
    (∃ m ∈ lineBetween a b, along a b m = along a b c ∧ P (across a b m)) ↔
      InStrip a b c ∧ P (level a b (along a b c)) := by
  constructor
  · rintro ⟨m, hm, halong, hP⟩
    obtain ⟨k, hk, rfl⟩ := mem_lineBetween.1 hm
    rw [InStrip, level, ← halong, natAbs_along_cellAfter hk, along_cellAfter]
    rw [across_cellAfter] at hP
    exact ⟨(towards_spec (natAbs_along a b ▸ hk)).1, hP⟩
  · rintro ⟨hstrip, hP⟩
    obtain ⟨halong, hle⟩ := towards_natAbs hstrip
    refine ⟨_, mem_lineBetween.2 ⟨_, natAbs_along a b ▸ hle, rfl⟩, ?_, ?_⟩
    · rw [along_cellAfter, halong]
    · rwa [across_cellAfter]

theorem mem_lineBetween_iff_height :
    c ∈ lineBetween a b ↔ InStrip a b c ∧ height a b c = 0 := by
  have hmem : c ∈ lineBetween a b ↔
      ∃ m ∈ lineBetween a b, along a b m = along a b c ∧ across a b m = across a b c := by
    constructor
    · exact fun hc => ⟨c, hc, rfl, rfl⟩
    · rintro ⟨m, hm, halong, hacross⟩
      exact ext_axes halong hacross ▸ hm
  rw [hmem, exists_mem_iff (· = across a b c), height, sub_eq_zero, Nat.cast_inj, eq_comm]

theorem above_iff_height : Above a b c ↔ InStrip a b c ∧ 0 < height a b c := by
  rw [Above, exists_mem_iff (· < across a b c), height, sub_pos, Nat.cast_lt]

theorem below_iff_height : Below a b c ↔ InStrip a b c ∧ height a b c < 0 := by
  rw [Below, exists_mem_iff (across a b c < ·), height, sub_neg, Nat.cast_lt]

theorem existsUnique_mem_lineBetween {i : Nat}
    (hi : i ∈ Set.uIcc (along a b a) (along a b b)) :
    ∃! m, m ∈ lineBetween a b ∧ along a b m = i := by
  obtain ⟨halong, hle⟩ := towards_natAbs hi
  refine ⟨cellAfter a b (i - along a b a : Int).natAbs,
    ⟨mem_lineBetween.2 ⟨_, natAbs_along a b ▸ hle, rfl⟩, (along_cellAfter _ _ _).trans halong⟩, ?_⟩
  rintro m ⟨hm, rfl⟩
  obtain ⟨k, hk, rfl⟩ := mem_lineBetween.1 hm
  rw [natAbs_along_cellAfter hk]

/-- From one place to the next the line moves across by at most one cell. -/
lemma level_succ (a b : Cell) (i : Nat) :
    (level a b (i + 1) - level a b i : Int).natAbs ≤ 1 := by
  have hstep (k : Nat) := towards_le_succ (across a b a) (across a b b) (drift_le_succ a b k)
  unfold level
  rcases le_or_gt (along a b a) i with hi | hi
  · have hnext : ((i + 1 : Nat) - along a b a : Int).natAbs =
        (i - along a b a : Int).natAbs + 1 := by omega
    rw [hnext]
    exact hstep _
  · have hnext : (i - along a b a : Int).natAbs =
        ((i + 1 : Nat) - along a b a : Int).natAbs + 1 := by omega
    have hback := hstep ((i + 1 : Nat) - along a b a : Int).natAbs
    rw [hnext]
    omega

theorem height_neighbour {α : Type} {g : RectGrid α} (h : n ∈ g.neighbours c) :
    (height a b n - height a b c).natAbs ≤ 1 := by
  obtain ⟨-, hstep⟩ := RectGrid.mem_neighbours_iff.1 h
  have hplaces : along a b n = along a b c ∧
        (across a b n = across a b c + 1 ∨ across a b c = across a b n + 1) ∨
      across a b n = across a b c ∧
        (along a b n = along a b c + 1 ∨ along a b c = along a b n + 1) := by
    unfold along across
    split <;> omega
  unfold height
  rcases hplaces with ⟨halong, hacross⟩ | ⟨hacross, halong | halong⟩
  · rw [halong]
    omega
  · have hlevel := level_succ a b (along a b c)
    rw [halong, hacross]
    omega
  · have hlevel := level_succ a b (along a b n)
    rw [halong, hacross]
    omega

/-- True of the cells of the strip that are not of the line and lie on the same side of it as
`c`. -/
structure SameSide (a b c n : Cell) : Prop where
  inStrip : InStrip a b n
  off : height a b n ≠ 0
  side : 0 < height a b n ↔ 0 < height a b c

lemma sameSide_of_side (h : Above a b c ∨ Below a b c) : SameSide a b c c := by
  rw [above_iff_height, below_iff_height] at h
  rcases h with ⟨hstrip, hpos⟩ | ⟨hstrip, hneg⟩
  · exact ⟨hstrip, hpos.ne', Iff.rfl⟩
  · exact ⟨hstrip, hneg.ne, Iff.rfl⟩

lemma Parted.inStrip (h : Parted a b c n) : InStrip a b n := by
  rw [Parted, above_iff_height, below_iff_height, above_iff_height, below_iff_height] at h
  exact h.elim (fun h => h.2.1) fun h => h.2.1

lemma Parted.not_sameSide (h : Parted a b c n) : ¬SameSide a b c n := by
  intro hsame
  have hside := hsame.side
  rw [Parted, above_iff_height, below_iff_height, above_iff_height, below_iff_height] at h
  omega

/-- A step within the strip that does not enter the line stays on its side. -/
theorem SameSide.neighbour {α : Type} {g : RectGrid α} {m : Cell} (h : SameSide a b c m)
    (hn : n ∈ g.neighbours m) (hstrip : InStrip a b n) (hline : n ∉ lineBetween a b) :
    SameSide a b c n := by
  have hoff : height a b n ≠ 0 := fun hzero =>
    hline (mem_lineBetween_iff_height.2 ⟨hstrip, hzero⟩)
  have hstep := height_neighbour (a := a) (b := b) hn
  have hside := h.side
  have hoff' := h.off
  exact ⟨hstrip, hoff, by omega⟩

/-- A path within the strip from one side of the line to the other has a cell of the line. -/
theorem exists_mem_lineBetween_of_path {α : Type} {g : RectGrid α} {path : List Cell}
    (hpath : path.IsChain fun m m' => m' ∈ g.neighbours m) (hhead : path.head? = some c)
    (hlast : path.getLast? = some n) (hstrip : ∀ m ∈ path, InStrip a b m)
    (hsides : Parted a b c n) : ∃ m ∈ path, m ∈ lineBetween a b := by
  by_contra hnone
  push Not at hnone
  have hsame : ∀ m ∈ path, SameSide a b c m := by
    refine List.IsChain.induction (SameSide a b c) path (List.IsChain.iff_mem.1 hpath) ?_ ?_
    · rintro m m' ⟨-, hm', hn⟩ h
      exact h.neighbour hn (hstrip m' hm') (hnone m' hm')
    · intro hne
      rw [List.head?_eq_some_head hne] at hhead
      rw [Option.some.inj hhead]
      exact sameSide_of_side (hsides.imp And.left And.left)
  exact hsides.not_sameSide (hsame n (List.mem_of_getLast? hlast))

end Trace

namespace ZoneGrid
open Trace

variable {g : ZoneGrid Exact} {speed : Lattice Exact} {seeds : List Cell} {a b c : Cell}
  {cs : List Cell}

/-- A path within the strip that goes round a line of walls stays on the side of its seed. -/
lemma IsPath.exists_sameSide (h : g.IsPath speed seeds c cs)
    (hwall : ∀ m ∈ lineBetween a b, g.isPassable m = false)
    (hseeds : ∀ s ∈ seeds, Above a b s ∨ Below a b s) (hstrip : ∀ n ∈ cs, InStrip a b n) :
    ∃ s ∈ seeds, SameSide a b s c := by
  induction h with
  | @seed c hc => exact ⟨c, hc, sameSide_of_side (hseeds c hc)⟩
  | @step c n cs _ hn hent ih =>
    obtain ⟨s, hs, hside⟩ := ih fun m hm => hstrip m (List.mem_cons_of_mem n hm)
    have hline : n ∉ lineBetween a b := by
      intro hmem
      have hfree := hent.2.1
      rw [hwall n hmem] at hfree
      cases hfree
    exact ⟨s, hs, hside.neighbour hn (hstrip n List.mem_cons_self) hline⟩

/-- All paths from one side of a line of walls to the other leave the strip. -/
theorem IsPath.exists_outside (h : g.IsPath speed seeds c cs)
    (hwall : ∀ m ∈ lineBetween a b, g.isPassable m = false)
    (hseeds : ∀ s ∈ seeds, Parted a b s c) : ∃ n ∈ cs, ¬InStrip a b n := by
  by_contra hnone
  push Not at hnone
  obtain ⟨s, hs, hside⟩ :=
    h.exists_sameSide hwall (fun s hs => (hseeds s hs).imp And.left And.left) hnone
  exact (hseeds s hs).not_sameSide hside

/-- A line separates its strip. It has one cell at each place along its longer axis, and no path
from side to side leads past it within the strip. So a front that starts on one side of a line of
walls comes to the other only by paths that leave the strip, and after it has been outside. -/
theorem lineBetween_separates (a b : Cell) :
    (∀ i ∈ Set.uIcc (along a b a) (along a b b), ∃! m, m ∈ lineBetween a b ∧ along a b m = i) ∧
    (∀ (g : RectGrid Exact) (path : List Cell) (c n : Cell),
      path.IsChain (fun m m' => m' ∈ g.neighbours m) → path.head? = some c →
      path.getLast? = some n → (∀ m ∈ path, InStrip a b m) → Parted a b c n →
      ∃ m ∈ path, m ∈ lineBetween a b) ∧
    ∀ (g : ZoneGrid Exact) (speed : Lattice Exact) (seeds : List Cell) (c : Cell),
      (∀ m ∈ lineBetween a b, g.isPassable m = false) → (∀ s ∈ seeds, Parted a b s c) →
      (∀ cs, g.IsPath speed seeds c cs → ∃ n ∈ cs, ¬InStrip a b n) ∧
      (g.Measured speed → (∀ s ∈ seeds, g.grid.contains s = true) →
        Scalar.isFinite ((g.solve speed seeds).getD c Scalar.infinity) = true →
        ∃ n, ¬InStrip a b n ∧ (g.solve speed seeds).getD n Scalar.infinity <
          (g.solve speed seeds).getD c Scalar.infinity) := by
  refine ⟨fun i hi => existsUnique_mem_lineBetween hi, ?_, ?_⟩
  · intro g path c n hpath hhead hlast hstrip hsides
    exact exists_mem_lineBetween_of_path hpath hhead hlast hstrip hsides
  · intro g speed seeds c hwall hseeds
    refine ⟨fun cs hcs => hcs.exists_outside hwall hseeds, fun hm hgrid hfin => ?_⟩
    have hT := isArrival_solve hm hgrid
    obtain ⟨cs, hcs, hcheaper⟩ := hT.exists_isPath hm (hT.isFinite_iff.1 hfin)
    obtain ⟨n, hn, hout⟩ := hcs.exists_outside hwall hseeds
    refine ⟨n, hout, ?_⟩
    rw [hT.ofCost_costs, hT.ofCost_costs, ofCost_lt_ofCost]
    refine (hcheaper n hn).resolve_left ?_
    rintro rfl
    obtain ⟨s, hs⟩ := hcs.exists_seed
    exact hout (hseeds s hs).inStrip

/-- Five by five cells with a sloping line of walls from the left to the right. -/
noncomputable def sloping : ZoneGrid Exact where
  zone := .room 0
  grid := ⟨⟨0, 0⟩, 1, 5, 5⟩
  cells := .ofFn 5 5 fun c => if c ∈ lineBetween (0, 1) (4, 3) then .wall else .inside
  targets := .empty

/-- From the upper left the front does not come to the lower right, though the cell there is free:
the grid has no cell outside the strip of the walls. -/
theorem lineBetween_separates_sloping :
    (∀ m ∈ lineBetween (0, 1) (4, 3), sloping.isPassable m = false) ∧
    (∀ s ∈ [((0, 4) : Cell)], Parted (0, 1) (4, 3) s (4, 0)) ∧
    sloping.Measured sloping.evenSpeed ∧
    (∀ s ∈ [((0, 4) : Cell)], sloping.grid.contains s = true) ∧
    sloping.isPassable (4, 0) = true ∧
    Scalar.isFinite ((sloping.solve sloping.evenSpeed [(0, 4)]).getD (4, 0) Scalar.infinity) =
      false := by
  have hwall : ∀ m ∈ lineBetween (0, 1) (4, 3), sloping.isPassable m = false := by decide
  have hparted : ∀ s ∈ [((0, 4) : Cell)], Parted (0, 1) (4, 3) s (4, 0) := by
    intro s hs
    rw [List.mem_singleton.1 hs]
    exact .inl ⟨⟨(0, 1), by decide, by decide, by decide⟩,
      ⟨(4, 3), by decide, by decide, by decide⟩⟩
  have hm := measured_evenSpeed (g := sloping) Exact.zero_lt_one (isFinite_iff.2 ⟨1, one_eq⟩)
  have hgrid : ∀ s ∈ [((0, 4) : Cell)], sloping.grid.contains s = true := by decide
  have hstrip {n : Cell} (hn : sloping.grid.contains n = true) : InStrip (0, 1) (4, 3) n := by
    have hcolumn : n.1 < 5 := (RectGrid.contains_iff.1 hn).1
    show n.1 ∈ Set.uIcc 0 4
    exact Set.mem_uIcc.2 (.inl ⟨Nat.zero_le _, Nat.le_of_lt_succ hcolumn⟩)
  obtain ⟨-, -, hfronts⟩ := lineBetween_separates (0, 1) (4, 3)
  obtain ⟨hpaths, -⟩ := hfronts sloping sloping.evenSpeed [(0, 4)] (4, 0) hwall hparted
  refine ⟨hwall, hparted, hm, hgrid, by decide, Bool.eq_false_iff.2 fun hfin => ?_⟩
  obtain ⟨cs, hcs⟩ := ((isArrival_solve hm hgrid).isFinite_iff_exists_isPath hm hgrid).1 hfin
  obtain ⟨n, hn, hout⟩ := hpaths cs hcs
  exact hout (hstrip (hcs.enterable_of_mem hn).1)

end ZoneGrid

end Egress
