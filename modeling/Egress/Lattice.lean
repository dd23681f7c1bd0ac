/-!
# Lattices

Values at the places of a rectangle, each known by two numbers. Reading outside the rectangle
gives a value that the reader names, and writing there changes nothing.
-/
namespace Egress

/-- A value for each pair of a first number below `width` and a second below `height`. -/
structure Lattice (β : Type) where
  width : Nat
  height : Nat
  /-- The values by ascending first number, and by ascending second for each of them. -/
  data : Array β
  size_eq : data.size = width * height

namespace Lattice

variable {β γ : Type}

/-- Where the value of a place stands in `data`. -/
def index (l : Lattice β) (c : Nat × Nat) : Nat := c.1 * l.height + c.2

/-- True of the places in the rectangle. -/
def inside (l : Lattice β) (c : Nat × Nat) : Bool := decide (c.1 < l.width ∧ c.2 < l.height)

/-- The value at a place, or `default` outside the rectangle. -/
@[specialize] def getD (l : Lattice β) (c : Nat × Nat) (default : β) : β :=
  if c.1 < l.width ∧ c.2 < l.height then l.data.getD (c.1 * l.height + c.2) default else default

def set (l : Lattice β) (c : Nat × Nat) (v : β) : Lattice β :=
  if c.1 < l.width ∧ c.2 < l.height then
    { l with
      data := l.data.setIfInBounds (c.1 * l.height + c.2) v
      size_eq := by rw [Array.size_setIfInBounds]; exact l.size_eq }
  else l

def constant (width height : Nat) (v : β) : Lattice β :=
  ⟨width, height, .replicate (width * height) v, Array.size_replicate⟩

@[specialize] def ofFn (width height : Nat) (f : Nat × Nat → β) : Lattice β :=
  ⟨width, height, .ofFn fun k : Fin (width * height) => f (k.val / height, k.val % height),
    Array.size_ofFn⟩

@[specialize] def map (f : β → γ) (l : Lattice β) : Lattice γ :=
  ⟨l.width, l.height, l.data.map f, by rw [Array.size_map]; exact l.size_eq⟩

/-- The places of a rectangle by ascending first number, then by ascending second. -/
def places (width height : Nat) : List (Nat × Nat) :=
  (List.range width).flatMap fun i => (List.range height).map fun j => (i, j)

def entries (l : Lattice β) : List ((Nat × Nat) × β) :=
  (places l.width l.height).zip l.data.toList

/-- How many places hold a value with the property. -/
def count (p : β → Bool) (l : Lattice β) : Nat := l.data.toList.countP p

/-- The values by ascending second number, for each of them a list by ascending first. -/
def rows (l : Lattice β) : List (List β) :=
  (List.range l.height).map fun j =>
    (List.range l.width).filterMap fun i => l.data[i * l.height + j]?

/-- The values by ascending first number, for each of them a list by ascending second. -/
def lists (l : Lattice β) : List (List β) :=
  (List.range l.width).map fun i =>
    (List.range l.height).filterMap fun j => l.data[i * l.height + j]?

/-- Puts together the lists of values for each first number. Only their first `height` values are
taken, and `default` for those that a list lacks. -/
def ofLists (height : Nat) (default : β) (vs : List (List β)) : Lattice β :=
  let table := (vs.map List.toArray).toArray
  .ofFn vs.length height fun c => (table.getD c.1 #[]).getD c.2 default

/-- Puts together the lists of values for each second number. Each has as many values as the first
list, `default` taking the place of those that it lacks. -/
def ofRows (default : β) (rows : List (List β)) : Lattice β :=
  let table := (rows.map List.toArray).toArray
  .ofFn (rows.headD []).length rows.length fun c => (table.getD c.2 #[]).getD c.1 default

theorem getD_set_of_ne (l : Lattice β) {c c' : Nat × Nat} (h : c' ≠ c) (v d : β) :
    (l.set c v).getD c' d = l.getD c' d := by
  unfold set
  split
  · rename_i hc
    simp only [getD]
    split
    · rename_i hc'
      have hne : c.1 * l.height + c.2 ≠ c'.1 * l.height + c'.2 := by
        intro he
        apply h
        have h₂ : c.2 = c'.2 := by
          have := congrArg (· % l.height) he
          simpa [Nat.add_mod, Nat.mul_mod_left, Nat.mod_eq_of_lt hc.2,
            Nat.mod_eq_of_lt hc'.2] using this
        have h₁ : c.1 * l.height = c'.1 * l.height := by omega
        have : c.1 = c'.1 := Nat.eq_of_mul_eq_mul_right (by omega) h₁
        exact Prod.ext this.symm h₂.symm
      simp [Array.getD_eq_getD_getElem?, Array.getElem?_setIfInBounds_ne hne]
    · rfl
  · rfl

theorem getD_set_self (l : Lattice β) {c : Nat × Nat} (h : c.1 < l.width ∧ c.2 < l.height)
    (v d : β) : (l.set c v).getD c d = v := by
  have hlt : c.1 * l.height + c.2 < l.data.size := by
    rw [l.size_eq]
    calc c.1 * l.height + c.2 < c.1 * l.height + l.height := by omega
      _ = (c.1 + 1) * l.height := by rw [Nat.succ_mul]
      _ ≤ l.width * l.height := Nat.mul_le_mul_right _ h.1
  simp [set, getD, h, Array.getD_eq_getD_getElem?, hlt]

end Lattice

end Egress
