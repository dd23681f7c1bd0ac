import Egress.Proofs.Lattice
import Egress.Proofs.Grid.Addressing
import Egress.Proofs.Hazard.Reading

/-!
# Knots of hazard meshes

The knots of a mesh are the centres of a grid with one cell for each of them. A position is rounded
to a knot along both axes and held among the knots there are, as positions are held at the cells of
a grid, so it reads a knot that no other knot is nearer than. In a mesh that has been read, the
knots along x are the fields of a record, and those along y are the records after the header.
-/
namespace Egress.HazardMesh

section
variable {α : Type} [Scalar α] {m : HazardMesh α}

/-- Where a knot lies, given by row and column. -/
def knotPosition (m : HazardMesh α) (k : ℕ × ℕ) : Point α :=
  ⟨m.origin.x + (k.2 : α) * m.cellSize, m.origin.y + (k.1 : α) * m.cellSize⟩

/-- The row and the column that a position reads. -/
def knotNear (m : HazardMesh α) (p : Point α) : ℕ × ℕ :=
  (m.knotAt (p.y - m.origin.y) m.values.width, m.knotAt (p.x - m.origin.x) m.values.height)

lemma knotAt_lt (m : HazardMesh α) (v : α) {n : ℕ} (hn : 0 < n) : m.knotAt v n < n := by
  unfold knotAt
  dsimp only
  split
  · exact hn
  · exact lt_of_le_of_lt (min_le_right _ _) (Nat.sub_lt hn one_pos)

lemma Accepted.has_knotNear (hm : m.Accepted) (p : Point α) : m.values.Has (m.knotNear p) :=
  ⟨m.knotAt_lt _ hm.rows_pos, m.knotAt_lt _ hm.columns_pos⟩

end

section
open Exact

variable {m : HazardMesh Exact}

/-- The grid with the knots of a mesh as centres, its columns along x. -/
def grid (m : HazardMesh Exact) : RectGrid Exact :=
  ⟨m.origin, m.cellSize, m.values.height, m.values.width⟩

/-- Rounded to a knot is held among the cells. -/
lemma knotAt_real {s : ℝ} (hs : 0 < s) (hm : m.cellSize = real s) (u : ℝ) (n : ℕ) :
    m.knotAt (real u) n = RectGrid.nearestBelow (real (u / s)) n := by
  obtain ⟨r, hr⟩ : ∃ r : ℝ, Scalar.round (real (u / s)) = real r := ⟨_, rfl⟩
  have hcount : ⌊r⌋₊ = ⌊u / s + 1 / 2⌋₊ := by
    rw [← toCount_round, hr]
    rfl
  have hnumber : Scalar.isNaN (real r) = false := rfl
  rw [RectGrid.nearestBelow_eq_min, ← hcount, knotAt, hm, real_div_real _ hs.ne', hr]
  simp only [hnumber, Bool.false_or, decide_eq_true_eq, zero_eq, real_le_real]
  split
  · rename_i hle
    rw [Nat.floor_of_nonpos hle, Nat.zero_min]
  · rfl

lemma Accepted.nearestCell_grid (hm : m.Accepted) {p : Point Exact} (hp : p.IsFinite)
    (horigin : m.origin.IsFinite) :
    m.grid.nearestCell p = ((m.knotNear p).2, (m.knotNear p).1) := by
  obtain ⟨s, hs⟩ := isFinite_iff.1 hm.finite
  have hpos : 0 < s := by
    have := hm.pos
    rwa [hs, zero_eq, real_lt_real] at this
  obtain ⟨px, py, rfl⟩ := hp.exists_real
  obtain ⟨x, y, hxy⟩ := horigin.exists_real
  simp only [RectGrid.nearestCell, grid, knotNear, hxy, hs, real_sub_real,
    real_div_real _ hpos.ne', knotAt_real hpos hs]

/-- No knot is nearer to a position of the plane than the one that is read. -/
lemma Accepted.dist_knotNear_le (hm : m.Accepted) {p : Point Exact} (hp : p.IsFinite)
    (horigin : m.origin.IsFinite) {k : ℕ × ℕ} (hk : m.values.Has k) :
    p.dist (m.knotPosition (m.knotNear p)) ≤ p.dist (m.knotPosition k) := by
  have hgrid : m.grid.IsReal := ⟨hm.pos, hm.finite, horigin⟩
  have hcell : m.grid.contains (k.2, k.1) = true := RectGrid.contains_iff.2 ⟨hk.2, hk.1⟩
  have hle := RectGrid.dist_nearestCell_le hgrid hp hcell
  rwa [hm.nearestCell_grid hp horigin] at hle

/-- Wherever a position and the mesh lie, no knot is nearer than the one that is read. -/
lemma Accepted.not_nearer (hm : m.Accepted) (p : Point Exact) {k : ℕ × ℕ} (hk : m.values.Has k) :
    ¬p.dist (m.knotPosition k) < p.dist (m.knotPosition (m.knotNear p)) := by
  by_cases hreal : p.IsFinite ∧ m.origin.IsFinite
  · exact Exact.not_lt_of_le (hm.dist_knotNear_le hreal.1 hreal.2 hk)
  · refine Point.not_dist_lt (fun hfin => hreal ⟨hfin.1, ?_⟩) _
    obtain ⟨x, y, hxy⟩ := hfin.2.exists_real
    obtain ⟨hx, hy⟩ := Point.mk.inj hxy
    exact ⟨isFinite_iff.2 (real_of_add hx).1, isFinite_iff.2 (real_of_add hy).1⟩

end

section
variable {α : Type} [Scalar α] {number : String → Option α} {m : HazardMesh α}
  {records : List (Option (List String))}

/-- The mesh is the one that a header and the records after it tell of. -/
structure IsWritten (m : HazardMesh α) (number : String → Option α) (d : Header α)
    (records : List (Option (List String))) : Prop where
  origin : m.origin = ⟨d.xLow, d.yLow⟩
  cellSize : m.cellSize = d.cellSize
  rows : m.values.width = d.rows
  columns : m.values.height = d.columns
  length : records.length = d.rows
  /-- The value in a row and a column is the number in that field of that record. -/
  field : ∀ r c, r < d.rows → c < d.columns → ∃ fields field, records[r]? = some (some fields) ∧
    fields.length = d.columns ∧ fields[c]? = some field ∧
    number field = some (m.values.getD (r, c) 0)

lemma exists_field_of_readRows {rows : List (List α)} {columns : ℕ}
    (h : readRows number columns 0 records = .ok rows) {r c : ℕ} (hr : r < rows.length)
    (hc : c < columns) : ∃ fields field, records[r]? = some (some fields) ∧
      fields.length = columns ∧ fields[c]? = some field ∧
      number field = some ((Lattice.ofLists columns 0 rows).getD (r, c) 0) := by
  obtain ⟨hlength, hrows⟩ := List.forall₂_iff_get.1 (readRows_eq_ok_iff.1 h)
  obtain ⟨hrow, hcolumns⟩ := hrows r (hlength ▸ hr) hr
  obtain ⟨fields, hfields, hvalues⟩ := numbers_eq_ok_iff.1 hrow
  obtain ⟨hwidth, hvalue⟩ := List.forall₂_iff_get.1 hvalues
  have hvalueLt : c < rows[r].length := hcolumns ▸ hc
  have hfieldLt : c < fields.length := hwidth ▸ hvalueLt
  refine ⟨fields, fields[c], ?_, hwidth.trans hcolumns, List.getElem?_eq_getElem hfieldLt, ?_⟩
  · rw [List.getElem?_eq_getElem (hlength ▸ hr)]
    exact congrArg some hfields
  · rw [Lattice.getD_ofLists ⟨hr, hc⟩, List.getD_eq_getElem _ _ hvalueLt]
    exact hvalue c hfieldLt hvalueLt

/-- A mesh that has been read is accepted, and is the one that the records tell of. -/
theorem ofRecords_spec (h : ofRecords number records = .ok m) : ∃ first rest d,
    records = first :: rest ∧ readHeader number first = .ok d ∧ m.IsWritten number d rest ∧
      new m.origin m.cellSize m.values = .ok m := by
  obtain ⟨first, rest, d, rfl, hd, -, hrows⟩ := ofRecords_eq_ok_iff.1 h
  obtain ⟨rows, hread, hlength, hnew⟩ := ofRows_eq_ok_iff.1 hrows
  obtain ⟨rfl, -⟩ := new_eq_ok_iff.1 hnew
  refine ⟨first, rest, d, rfl, hd, ⟨rfl, rfl, hlength, rfl, ?_, fun r c hr hc => ?_⟩, hnew⟩
  · rw [(readRows_eq_ok_iff.1 hread).length_eq, hlength]
  · exact exists_field_of_readRows hread (hlength ▸ hr) hc

end

section
open Exact

def Header.IsFinite (d : Header Exact) : Prop :=
  ∀ x ∈ [d.cellSize, d.xLow, d.xHigh, d.yLow, d.yHigh], Scalar.isFinite x = true

/-- Between two ends there are as many knots as cells, to the nearest number, and one more. -/
lemma natCast_knotCount {s low high : Exact} (hs : 0 < s) (h : ¬high < low)
    (hfin : Scalar.isFinite s = true) (hlow : Scalar.isFinite low = true)
    (hhigh : Scalar.isFinite high = true) :
    (knotCount low high s : Exact) = Scalar.round ((high - low) / s) + 1 := by
  obtain ⟨s, rfl⟩ := isFinite_iff.1 hfin
  obtain ⟨low, rfl⟩ := isFinite_iff.1 hlow
  obtain ⟨high, rfl⟩ := isFinite_iff.1 hhigh
  rw [zero_eq, real_lt_real] at hs
  have hplace : 0 ≤ (high - low) / s := div_nonneg (sub_nonneg.2 (not_lt.1 h)) hs.le
  rw [knotCount_real hs, real_sub_real, real_div_real _ hs.ne', round_of_nonneg hplace, one_eq,
    natCast_eq, real_add_real, Nat.cast_succ]

/-- Every mesh that is accepted reads any position at one of its knots, and no knot is nearer: in
the plane it is one at the least distance. A mesh that has been read is accepted, and is the one
that the records tell of. Where the header is finite, each row has as many knots as there are cells
between its ends, to the nearest number, and one more, and so has each column. -/
theorem valueAt_nearest :
    (∀ {α : Type} [Scalar α] {origin : Point α} {cellSize : α} {values : Lattice α}
      {m : HazardMesh α}, new origin cellSize values = .ok m → ∀ p,
        m.values.Has (m.knotNear p) ∧
          m.values.data[m.values.index (m.knotNear p)]? = some (m.valueAt p)) ∧
    (∀ {origin : Point Exact} {cellSize : Exact} {values : Lattice Exact} {m : HazardMesh Exact},
      new origin cellSize values = .ok m → ∀ (p : Point Exact) (k : ℕ × ℕ), m.values.Has k →
        ¬p.dist (m.knotPosition k) < p.dist (m.knotPosition (m.knotNear p)) ∧
        (p.IsFinite → m.origin.IsFinite →
          p.dist (m.knotPosition (m.knotNear p)) ≤ p.dist (m.knotPosition k))) ∧
    (∀ {α : Type} [Scalar α] {number : String → Option α} {records : List (Option (List String))}
      {m : HazardMesh α}, ofRecords number records = .ok m →
        ∃ first rest d, records = first :: rest ∧ readHeader number first = .ok d ∧
          m.IsWritten number d rest ∧ new m.origin m.cellSize m.values = .ok m) ∧
    ∀ {number : String → Option Exact} {record : Option (List String)} {d : Header Exact},
      readHeader number record = .ok d → d.IsFinite →
        (d.columns : Exact) = Scalar.round ((d.xHigh - d.xLow) / d.cellSize) + 1 ∧
        (d.rows : Exact) = Scalar.round ((d.yHigh - d.yLow) / d.cellSize) + 1 := by
  refine ⟨fun hnew p => ?_, fun hnew p k hk => ?_, ofRecords_spec, fun hd hfin => ?_⟩
  · have hhas := (new_eq_ok_iff.1 hnew).2.has_knotNear p
    exact ⟨hhas, Lattice.getElem?_index hhas 0⟩
  · have hm := (new_eq_ok_iff.1 hnew).2
    exact ⟨hm.not_nearer p hk, fun hp horigin => hm.dist_knotNear_le hp horigin hk⟩
  · obtain ⟨-, hpos, hx, hy⟩ := readHeader_eq_ok_iff.1 hd
    simp only [Header.IsFinite, List.forall_mem_cons] at hfin
    obtain ⟨hsize, hxLow, hxHigh, hyLow, hyHigh, -⟩ := hfin
    exact ⟨natCast_knotCount hpos hx hsize hxLow hxHigh,
      natCast_knotCount hpos hy hsize hyLow hyHigh⟩

/-- The row is read. What lies to its right, at any height, reads one of its knots, to which it is
not further than to the other one. -/
theorem valueAt_nearest_pair : ∃ m : HazardMesh Exact, ofRecords wholeNumber? pair = .ok m ∧
    new m.origin m.cellSize m.values = .ok m ∧
    (∀ y, m.values.Has (m.knotNear ⟨real 50, y⟩)) ∧
    (∀ y k, m.values.Has k →
      ¬(⟨real 50, y⟩ : Point Exact).dist (m.knotPosition k) <
        (⟨real 50, y⟩ : Point Exact).dist (m.knotPosition (m.knotNear ⟨real 50, y⟩))) ∧
    ∃ first rest d, pair = first :: rest ∧ readHeader wholeNumber? first = .ok d ∧
      m.IsWritten wholeNumber? d rest := by
  obtain ⟨m, hread⟩ := ofRecords_pair
  obtain ⟨hhas, hnear, hwritten, -⟩ := valueAt_nearest
  obtain ⟨first, rest, d, hpair, hd, hm, hnew⟩ := hwritten hread
  exact ⟨m, hread, hnew, fun y => (hhas hnew ⟨real 50, y⟩).1,
    fun y k hk => (hnear hnew ⟨real 50, y⟩ k hk).1, first, rest, d, hpair, hd, hm⟩

end

end Egress.HazardMesh
