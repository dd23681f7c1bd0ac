import Egress.Proofs.Geometry.Polygon

/-!
# Areas cut in two

Whether an area holds a point is the parity of the edges of its boundary that the ray from the point
crosses. An edge is crossed in both directions alike, so it matters neither where the boundary
starts nor which way round it is listed. A chord between two vertices is an edge of both parts that
it cuts the area into, and counts twice or not at all: each point of the area belongs to one of the
parts, those on the chord too.
-/
namespace Egress.Polygon

section
variable {α : Type} [Scalar α] {p u v : Point α} {vs ws : List (Point α)}

/-- Parity of the crossings with a closed line. -/
def oddAround (p : Point α) (vs : List (Point α)) : Bool :=
  match vs.getLast? with
  | none => false
  | some u => oddCrossings p u vs

lemma contains_eq (vs : List (Point α)) (p : Point α) :
    contains ⟨vs⟩ p = (decide (3 ≤ vs.length) && oddAround p vs) := by
  unfold contains oddAround
  cases vs.getLast? with
  | none => simp
  | some u => rfl

lemma oddCrossings_append : oddCrossings p u (vs ++ ws) =
    (oddCrossings p u vs ^^ oddCrossings p (vs.getLast?.getD u) ws) := by
  induction vs generalizing u with
  | nil => simp [oddCrossings]
  | cons v vs ih =>
    rw [List.cons_append, oddCrossings, oddCrossings, ih, List.getLast?_cons, Option.getD_some,
      Bool.xor_assoc]

lemma oddCrossings_concat : oddCrossings p u (vs ++ [v]) =
    (oddCrossings p u vs ^^ crosses p (vs.getLast?.getD u) v) := by
  rw [oddCrossings_append, oddCrossings, oddCrossings, Bool.xor_false]

/-- A line through a point is crossed as often as the way to the point and the way from it. -/
lemma oddCrossings_through : oddCrossings p u (vs ++ v :: ws) =
    (oddCrossings p u (vs ++ [v]) ^^ oddCrossings p v ws) := by
  rw [oddCrossings_append, oddCrossings, oddCrossings_concat, Bool.xor_assoc]

/-- A closed line leaves its first vertex and comes back to it. -/
lemma oddAround_cons : oddAround p (v :: vs) = oddCrossings p v (vs ++ [v]) := by
  simp only [oddAround, List.getLast?_cons]
  rw [oddCrossings_concat, oddCrossings, Bool.xor_comm]

lemma oddAround_concat : oddAround p (vs ++ [v]) = oddAround p (v :: vs) := by
  rw [oddAround_cons, oddAround, List.getLast?_concat]

lemma oddAround_rotate (p : Point α) (vs : List (Point α)) (n : ℕ) :
    oddAround p (vs.rotate n) = oddAround p vs := by
  induction n generalizing vs with
  | zero => rw [List.rotate_zero]
  | succ n ih =>
    cases vs with
    | nil => rw [List.rotate_nil]
    | cons v vs => rw [List.rotate_cons_succ, ih, oddAround_concat]

lemma oddAround_append_comm (p : Point α) (vs ws : List (Point α)) :
    oddAround p (vs ++ ws) = oddAround p (ws ++ vs) := by
  rw [← oddAround_rotate p (vs ++ ws) vs.length, List.rotate_append_length_eq]

/-- If no edge is crossed in one direction only, neither is a line. -/
lemma oddCrossings_reverse {w : Point α}
    (h : ∀ a ∈ u :: vs ++ [w], ∀ b ∈ u :: vs ++ [w], crosses p a b = crosses p b a) :
    oddCrossings p u (vs ++ [w]) = oddCrossings p w (vs.reverse ++ [u]) := by
  induction vs generalizing u with
  | nil => simpa [oddCrossings] using h u (by simp) w (by simp)
  | cons v vs ih =>
    rw [List.cons_append, oddCrossings, ih, List.reverse_cons, oddCrossings_concat (v := u),
      List.getLast?_concat, Option.getD_some, h u (by simp) v (by simp), Bool.xor_comm]
    intro a ha b hb
    exact h a (List.mem_cons_of_mem u ha) b (List.mem_cons_of_mem u hb)

lemma oddAround_reverse (h : ∀ a ∈ vs, ∀ b ∈ vs, crosses p a b = crosses p b a) :
    oddAround p vs.reverse = oddAround p vs := by
  cases vs with
  | nil => rfl
  | cons v vs =>
    rw [List.reverse_cons, oddAround_concat, oddAround_cons, oddAround_cons]
    have hmem {a : Point α} (ha : a ∈ v :: vs ++ [v]) : a ∈ v :: vs := by
      rcases List.mem_append.1 ha with ha | ha
      · exact ha
      · exact List.mem_singleton.1 ha ▸ List.mem_cons_self
    exact (oddCrossings_reverse fun a ha b hb => h a (hmem ha) b (hmem hb)).symm

/-- A chord is an edge of both parts that it cuts a closed line into. -/
lemma oddAround_chord (h : crosses p u v = crosses p v u) :
    oddAround p (u :: vs ++ v :: ws) =
      (oddAround p (u :: vs ++ [v]) ^^ oddAround p (v :: ws ++ [u])) := by
  have hwhole : oddAround p (u :: vs ++ v :: ws) =
      (oddCrossings p u (vs ++ [v]) ^^ oddCrossings p v (ws ++ [u])) := by
    rw [List.cons_append, oddAround_cons, List.append_assoc, List.cons_append,
      oddCrossings_through]
  have hpart (a b : Point α) (us : List (Point α)) : oddAround p (a :: us ++ [b]) =
      (oddCrossings p a (us ++ [b]) ^^ crosses p b a) := by
    rw [List.cons_append, oddAround_cons, oddCrossings_concat, List.getLast?_concat,
      Option.getD_some]
  rw [hwhole, hpart, hpart, h]
  cases crosses p v u <;> simp

end

section
variable {α : Type} [Scalar α]

/-- The quotient of two values, `none` where the divisor is zero. -/
def divide? (a b : α) : Option α := if b == 0 then none else some (a / b)

/-- What `crosses` computes, `none` if that takes a division by zero. -/
def crosses? (p u v : Point α) : Option Bool :=
  if decide (p.y < v.y) != decide (p.y < u.y) then
    (divide? ((u.x - v.x) * (p.y - v.y)) (u.y - v.y)).map fun w => decide (p.x < w + v.x)
  else some false

/-- What `oddCrossings` computes, `none` if that takes a division by zero. -/
def oddCrossings? (p : Point α) : Point α → List (Point α) → Option Bool
  | _, [] => some false
  | u, v :: vs => do return (← crosses? p u v) ^^ (← oddCrossings? p v vs)

/-- What `contains` computes, `none` if that takes a division by zero. -/
def contains? (a : Polygon α) (p : Point α) : Option Bool :=
  match a.vertices.getLast? with
  | none => some false
  | some u => if 3 ≤ a.vertices.length then oddCrossings? p u a.vertices else some false

end

section
open Exact

variable {p u v : Point Exact} {vs : List (Point Exact)}

/-- An edge that ends on the other side of a height is not level. -/
lemma crosses?_eq (hu : u.IsFinite) (hv : v.IsFinite) : crosses? p u v = some (crosses p u v) := by
  unfold crosses? crosses
  cases hside : decide (p.y < v.y) != decide (p.y < u.y) with
  | false => simp
  | true =>
    have hlevel : (u.y - v.y == 0) = false := by
      obtain ⟨ux, uy, rfl⟩ := hu.exists_real
      obtain ⟨vx, vy, rfl⟩ := hv.exists_real
      rw [real_sub_real, ← Bool.not_eq_true, real_beq_zero, sub_eq_zero]
      rintro rfl
      simp at hside
    simp [divide?, hlevel]

lemma oddCrossings?_eq (hu : u.IsFinite) (hvs : ∀ v ∈ vs, v.IsFinite) :
    oddCrossings? p u vs = some (oddCrossings p u vs) := by
  induction vs generalizing u with
  | nil => rfl
  | cons v vs ih =>
    have hv := hvs v List.mem_cons_self
    rw [oddCrossings?, crosses?_eq hu hv, ih hv fun w hw => hvs w (List.mem_cons_of_mem v hw)]
    rfl

/-- No division by zero decides whether an area holds a point. -/
lemma contains?_eq (hvs : ∀ v ∈ vs, v.IsFinite) : contains? ⟨vs⟩ p = some (contains ⟨vs⟩ p) := by
  unfold contains? contains
  cases hlast : vs.getLast? with
  | none => rfl
  | some u =>
    by_cases hlength : 3 ≤ vs.length
    · simp [hlength, oddCrossings?_eq (hvs u (List.mem_of_getLast? hlast)) hvs]
    · simp [hlength]

lemma crosses_comm (hp : p.IsFinite) (hu : u.IsFinite) (hv : v.IsFinite) :
    crosses p u v = crosses p v u := by
  obtain ⟨px, py, rfl⟩ := hp.exists_real
  obtain ⟨ux, uy, rfl⟩ := hu.exists_real
  obtain ⟨vx, vy, rfl⟩ := hv.exists_real
  unfold crosses
  by_cases hlevel : uy = vy
  · subst hlevel
    simp
  · have hintercept : (ux - vx) * (py - vy) / (uy - vy) + vx =
        (vx - ux) * (py - uy) / (vy - uy) + ux := by
      have hne : uy - vy ≠ 0 := sub_ne_zero.2 hlevel
      have hne' : vy - uy ≠ 0 := sub_ne_zero.2 (Ne.symm hlevel)
      field_simp
      ring
    simp only [real_sub_real, real_mul_real, real_div_real _ (sub_ne_zero.2 hlevel),
      real_div_real _ (sub_ne_zero.2 (Ne.symm hlevel)), real_add_real, hintercept, bne_comm]

/-- The whole is crossed as often as both parts together, wherever its boundary starts. -/
lemma contains_chord {A B C : List (Point Exact)} (h : crosses p u v = crosses p v u)
    (hfirst : 3 ≤ (u :: B ++ [v]).length) (hsecond : 3 ≤ (v :: C ++ A ++ [u]).length) :
    contains ⟨A ++ u :: B ++ v :: C⟩ p =
      (contains ⟨u :: B ++ [v]⟩ p ^^ contains ⟨v :: C ++ A ++ [u]⟩ p) := by
  have hwhole : 3 ≤ (A ++ u :: B ++ v :: C).length := by
    simp only [List.cons_append, List.append_assoc, List.length_cons, List.length_append,
      List.length_nil] at hfirst ⊢
    omega
  have hparity : oddAround p (A ++ u :: B ++ v :: C) =
      (oddAround p (u :: B ++ [v]) ^^ oddAround p (v :: C ++ A ++ [u])) := by
    rw [List.append_assoc, oddAround_append_comm, List.append_assoc, List.cons_append (a := v),
      oddAround_chord h]
  simp only [contains_eq, hfirst, hsecond, hwhole, decide_true, Bool.true_and, hparity]

/-- No division by zero decides whether an area holds a point, and it does not matter where its
boundary starts or which way round it is listed. Of two parts that a chord cuts the area into,
exactly one holds the point if the area does, and both or neither if it does not: so no point of
the chord that lies in the area is held by both parts or missed by both. -/
theorem contains_parity (hvs : ∀ v ∈ vs, v.IsFinite) (hp : p.IsFinite) :
    contains? ⟨vs⟩ p = some (contains ⟨vs⟩ p) ∧
      (∀ n, contains ⟨vs.rotate n⟩ p = contains ⟨vs⟩ p) ∧
      contains ⟨vs.reverse⟩ p = contains ⟨vs⟩ p ∧
      ∀ A u B v C, vs = A ++ u :: B ++ v :: C →
        3 ≤ (u :: B ++ [v]).length → 3 ≤ (v :: C ++ A ++ [u]).length →
        contains ⟨vs⟩ p = (contains ⟨u :: B ++ [v]⟩ p ^^ contains ⟨v :: C ++ A ++ [u]⟩ p) ∧
          (contains ⟨vs⟩ p = true →
            (contains ⟨u :: B ++ [v]⟩ p = true ↔ contains ⟨v :: C ++ A ++ [u]⟩ p = false)) := by
  have hcomm : ∀ a ∈ vs, ∀ b ∈ vs, crosses p a b = crosses p b a :=
    fun a ha b hb => crosses_comm hp (hvs a ha) (hvs b hb)
  refine ⟨contains?_eq hvs, fun n => ?_, ?_, ?_⟩
  · rw [contains_eq, contains_eq, List.length_rotate, oddAround_rotate]
  · rw [contains_eq, contains_eq, List.length_reverse, oddAround_reverse hcomm]
  · rintro A u B v C rfl hfirst hsecond
    have hwhole := contains_chord (hcomm u (by simp) v (by simp)) hfirst hsecond
    refine ⟨hwhole, fun htrue => ?_⟩
    rw [hwhole] at htrue
    exact (by decide : ∀ a b : Bool, (a ^^ b) = true → (a = true ↔ b = false)) _ _ htrue

/-- The middle of a square lies on the diagonal that cuts it in two, and belongs to the lower half
only. -/
theorem contains_parity_diagonal :
    contains (⟨[⟨real 0, real 0⟩, ⟨real 2, real 0⟩, ⟨real 2, real 2⟩, ⟨real 0, real 2⟩]⟩)
        (⟨real 1, real 1⟩ : Point Exact) = true ∧
      contains (⟨[⟨real 0, real 0⟩, ⟨real 2, real 0⟩, ⟨real 2, real 2⟩]⟩)
        (⟨real 1, real 1⟩ : Point Exact) = true ∧
      contains (⟨[⟨real 2, real 2⟩, ⟨real 0, real 2⟩, ⟨real 0, real 0⟩]⟩)
        (⟨real 1, real 1⟩ : Point Exact) = false := by
  have hcorners : ∀ v ∈ ([⟨real 0, real 0⟩, ⟨real 2, real 0⟩, ⟨real 2, real 2⟩,
      ⟨real 0, real 2⟩] : List (Point Exact)), v.IsFinite := by simp [Point.IsFinite]
  have hmiddle : (⟨real 1, real 1⟩ : Point Exact).IsFinite := ⟨rfl, rfl⟩
  obtain ⟨-, -, -, hparts⟩ := contains_parity hcorners hmiddle
  have hcut := hparts [] ⟨real 0, real 0⟩ [⟨real 2, real 0⟩] ⟨real 2, real 2⟩ [⟨real 0, real 2⟩]
    rfl (by simp) (by simp)
  have hwhole : contains
      (⟨[⟨real 0, real 0⟩, ⟨real 2, real 0⟩, ⟨real 2, real 2⟩, ⟨real 0, real 2⟩]⟩)
      (⟨real 1, real 1⟩ : Point Exact) = true := by
    norm_num [contains, oddCrossings, crosses, real_div_real]
  have hlower : contains (⟨[⟨real 0, real 0⟩, ⟨real 2, real 0⟩, ⟨real 2, real 2⟩]⟩)
      (⟨real 1, real 1⟩ : Point Exact) = true := by
    norm_num [contains, oddCrossings, crosses, real_div_real]
  exact ⟨hwhole, hlower, (hcut.2 hwhole).1 hlower⟩

end

end Egress.Polygon
