import Egress.Grid.Rect
import Mathlib.Tactic

/-!
# Neighbouring cells

Cells that share a side. Being neighbours is symmetric among the cells of a grid, and a cell that is
not on the border has all four neighbours.
-/
namespace Egress.RectGrid

variable {α : Type} {g : RectGrid α} {c n : Cell}

theorem contains_iff : g.contains c = true ↔ c.1 < g.width ∧ c.2 < g.height := by
  simp [contains]

theorem offset?_eq_some_iff {di dj : Int} :
    g.offset? c di dj = some n ↔
      (n.1 : Int) = c.1 + di ∧ (n.2 : Int) = c.2 + dj ∧ g.contains n = true := by
  obtain ⟨i, j⟩ := n
  simp only [offset?, contains_iff]
  split
  · simp only [Option.some.injEq, Prod.mk.injEq]
    omega
  · simp only [reduceCtorEq, false_iff]
    omega

theorem mem_neighbours_iff : n ∈ g.neighbours c ↔ g.contains n = true ∧
    ((n.1 : Int) = c.1 + 1 ∧ n.2 = c.2 ∨ (n.1 : Int) = c.1 - 1 ∧ n.2 = c.2 ∨
      n.1 = c.1 ∧ (n.2 : Int) = c.2 + 1 ∨ n.1 = c.1 ∧ (n.2 : Int) = c.2 - 1) := by
  simp only [neighbours, List.mem_filterMap, List.mem_cons, List.not_mem_nil, or_false,
    Prod.exists, Prod.mk.injEq, offset?_eq_some_iff]
  constructor
  · rintro ⟨di, dj, hd, h⟩
    refine ⟨h.2.2, ?_⟩
    omega
  · rintro ⟨hn, h | h | h | h⟩
    · exact ⟨1, 0, by simp, by omega, by omega, hn⟩
    · exact ⟨-1, 0, by simp, by omega, by omega, hn⟩
    · exact ⟨0, 1, by simp, by omega, by omega, hn⟩
    · exact ⟨0, -1, by simp, by omega, by omega, hn⟩

theorem contains_of_mem_neighbours (h : n ∈ g.neighbours c) : g.contains n = true :=
  (mem_neighbours_iff.1 h).1

theorem mem_neighbours_comm (hc : g.contains c = true) (h : n ∈ g.neighbours c) :
    c ∈ g.neighbours n := by
  rw [mem_neighbours_iff] at h ⊢
  exact ⟨hc, by omega⟩

/-- The four places at which a neighbour can be. -/
def sides : List (Int × Int) := [(-1, 0), (1, 0), (0, -1), (0, 1)]

theorem mem_neighbours_of_offset? {d : Int × Int} (hd : d ∈ sides)
    (h : g.offset? c d.1 d.2 = some n) : n ∈ g.neighbours c := by
  obtain ⟨h₁, h₂, hn⟩ := offset?_eq_some_iff.1 h
  refine mem_neighbours_iff.2 ⟨hn, ?_⟩
  simp only [sides, List.mem_cons, List.not_mem_nil, or_false] at hd
  rcases hd with rfl | rfl | rfl | rfl <;> omega

theorem exists_offset?_of_mem_neighbours (h : n ∈ g.neighbours c) :
    ∃ d ∈ sides, g.offset? c d.1 d.2 = some n := by
  obtain ⟨hn, h | h | h | h⟩ := mem_neighbours_iff.1 h
  · exact ⟨(1, 0), by simp [sides], offset?_eq_some_iff.2 ⟨by omega, by omega, hn⟩⟩
  · exact ⟨(-1, 0), by simp [sides], offset?_eq_some_iff.2 ⟨by omega, by omega, hn⟩⟩
  · exact ⟨(0, 1), by simp [sides], offset?_eq_some_iff.2 ⟨by omega, by omega, hn⟩⟩
  · exact ⟨(0, -1), by simp [sides], offset?_eq_some_iff.2 ⟨by omega, by omega, hn⟩⟩

theorem length_neighbours_le (g : RectGrid α) (c : Cell) : (g.neighbours c).length ≤ 4 :=
  List.length_filterMap_le _ _

/-- The cells that are not on the outermost ring of a grid. -/
def Inner (g : RectGrid α) (c : Cell) : Prop :=
  (0 < c.1 ∧ c.1 + 1 < g.width) ∧ 0 < c.2 ∧ c.2 + 1 < g.height

/-- Off the border all four neighbours are cells of the grid. -/
theorem neighbours_of_inner (hc : g.Inner c) :
    g.neighbours c = [(c.1 + 1, c.2), (c.1, c.2 + 1), (c.1 - 1, c.2), (c.1, c.2 - 1)] := by
  obtain ⟨⟨hi, hi'⟩, hj, hj'⟩ := hc
  have hright : g.offset? c 1 0 = some (c.1 + 1, c.2) :=
    offset?_eq_some_iff.2 ⟨by simp, by simp, contains_iff.2 ⟨by simpa, by simp; omega⟩⟩
  have hup : g.offset? c 0 1 = some (c.1, c.2 + 1) :=
    offset?_eq_some_iff.2 ⟨by simp, by simp, contains_iff.2 ⟨by simp; omega, by simpa⟩⟩
  have hleft : g.offset? c (-1) 0 = some (c.1 - 1, c.2) :=
    offset?_eq_some_iff.2 ⟨by simp; omega, by simp, contains_iff.2 ⟨by simp; omega, by simp; omega⟩⟩
  have hdown : g.offset? c 0 (-1) = some (c.1, c.2 - 1) :=
    offset?_eq_some_iff.2 ⟨by simp, by simp; omega, contains_iff.2 ⟨by simp; omega, by simp; omega⟩⟩
  simp [neighbours, hright, hup, hleft, hdown]

end Egress.RectGrid
