import Egress.Proofs.Geometry
import Egress.Geometry.Polygon

/-!
# Areas and their vertices

Going round the boundary of an area, one comes back to the side of a line where one started. So an
upright ray that has all vertices on one side crosses the boundary an even number of times, and an
area holds no point beyond the box around its vertices, whatever the order of the vertices is.
-/
namespace Egress.Polygon
open Exact

section
variable {α : Type} [Scalar α] {p u : Point α}

/-- If an edge is crossed exactly where `side` changes, the parity of the crossings tells whether
the last vertex is on the same side as the first. -/
lemma oddCrossings_eq_xor (side : Point α → Bool) {vs : List (Point α)}
    (h : ∀ u' ∈ u :: vs, ∀ v ∈ vs, crosses p u' v = (side v ^^ side u')) :
    oddCrossings p u vs = (side u ^^ side (vs.getLast?.getD u)) := by
  induction vs generalizing u with
  | nil => simp [oddCrossings]
  | cons v vs ih =>
    have hrest : oddCrossings p v vs = (side v ^^ side (vs.getLast?.getD v)) :=
      ih fun u' hu' v' hv' => h u' (List.mem_cons_of_mem u hu') v' (List.mem_cons_of_mem v hv')
    rw [oddCrossings, hrest, h u List.mem_cons_self v List.mem_cons_self, List.getLast?_cons,
      Option.getD_some]
    cases side v <;> simp

/-- Going round the boundary of an area, one comes back to the side where one started. So whatever
the sides are, the ray from a point of the area does not cross the edges between them and no
others. -/
theorem exists_crosses_ne {a : Polygon α} (h : a.contains p = true) (side : Point α → Bool) :
    ∃ u ∈ a.vertices, ∃ v ∈ a.vertices, crosses p u v ≠ (side v ^^ side u) := by
  by_contra! hside
  unfold contains at h
  cases hlast : a.vertices.getLast? with
  | none => simp [hlast] at h
  | some u =>
    have hu : u ∈ a.vertices := List.mem_of_getLast? hlast
    have hodd : oddCrossings p u a.vertices = (side u ^^ side u) := by
      rw [oddCrossings_eq_xor side, hlast, Option.getD_some]
      intro u' hu' v hv
      rcases List.mem_cons.1 hu' with rfl | hu'
      · exact hside u' hu v hv
      · exact hside u' hu' v hv
    simp [hlast, hodd] at h

end

variable {p u v : Point Exact}

/-- The edge between two points at different sides of a height reaches that height between them. -/
lemma exists_intercept (hp : p.IsFinite) (hu : u.IsFinite) (hv : v.IsFinite)
    (h : decide (p.y < v.y) ≠ decide (p.y < u.y)) :
    ∃ w ∈ Set.uIcc v.x.toReal u.x.toReal,
      (u.x - v.x) * (p.y - v.y) / (u.y - v.y) + v.x = real w := by
  obtain ⟨px, py, rfl⟩ := hp.exists_real
  obtain ⟨ux, uy, rfl⟩ := hu.exists_real
  obtain ⟨vx, vy, rfl⟩ := hv.exists_real
  simp only [real_lt_real, ne_eq, decide_eq_decide] at h
  have hne : uy - vy ≠ 0 := fun heq => h (by rw [sub_eq_zero.1 heq])
  have hfraction : 0 ≤ (py - vy) / (uy - vy) ∧ (py - vy) / (uy - vy) ≤ 1 := by
    rcases lt_or_ge py vy with hlt | hge
    · have huy : uy ≤ py := not_lt.1 fun huy => h (iff_of_true hlt huy)
      rw [div_le_one_of_neg (by linarith)]
      exact ⟨div_nonneg_of_nonpos (by linarith) (by linarith), by linarith⟩
    · have huy : py < uy := not_le.1 fun huy => h (iff_of_false (not_lt.2 hge) (not_lt.2 huy))
      rw [div_le_one (by linarith)]
      exact ⟨div_nonneg (by linarith) (by linarith), by linarith⟩
  refine ⟨vx + (py - vy) / (uy - vy) * (ux - vx), ?_, ?_⟩
  · obtain ⟨hlow, hhigh⟩ := hfraction
    simp only [toReal_real, Set.mem_uIcc]
    rcases le_total vx ux with hle | hle
    · have hstart := mul_nonneg hlow (sub_nonneg.2 hle)
      have hstop := mul_le_of_le_one_left (sub_nonneg.2 hle) hhigh
      exact .inl ⟨by linarith, by linarith⟩
    · have hstart := mul_nonneg hlow (sub_nonneg.2 hle)
      have hstop := mul_le_of_le_one_left (sub_nonneg.2 hle) hhigh
      exact .inr ⟨by linarith, by linarith⟩
  · simp only [real_sub_real, real_mul_real, real_div_real _ hne, real_add_real, real_inj]
    ring

/-- A ray that starts to the left of both ends of an edge crosses it if it starts at a height
between them. -/
lemma crosses_of_left (hp : p.IsFinite) (hu : u.IsFinite) (hv : v.IsFinite) (hpu : p.x < u.x)
    (hpv : p.x < v.x) : crosses p u v = (decide (p.y < v.y) ^^ decide (p.y < u.y)) := by
  unfold crosses
  by_cases h : decide (p.y < v.y) = decide (p.y < u.y)
  · simp [h]
  · obtain ⟨w, hw, hmeet⟩ := exists_intercept hp hu hv h
    have hlt : p.x < real w := by
      obtain ⟨px, py, rfl⟩ := hp.exists_real
      obtain ⟨ux, uy, rfl⟩ := hu.exists_real
      obtain ⟨vx, vy, rfl⟩ := hv.exists_real
      exact (lt_min hpv hpu).trans_le hw.1
    rw [hmeet, decide_eq_true hlt, Bool.and_true]

/-- A ray that starts to the left of neither end of an edge does not cross it. -/
lemma crosses_of_right (hp : p.IsFinite) (hu : u.IsFinite) (hv : v.IsFinite) (hup : u.x ≤ p.x)
    (hvp : v.x ≤ p.x) : crosses p u v = false := by
  unfold crosses
  by_cases h : decide (p.y < v.y) = decide (p.y < u.y)
  · simp [h]
  · obtain ⟨w, hw, hmeet⟩ := exists_intercept hp hu hv h
    have hge : ¬p.x < real w := by
      obtain ⟨px, py, rfl⟩ := hp.exists_real
      obtain ⟨ux, uy, rfl⟩ := hu.exists_real
      obtain ⟨vx, vy, rfl⟩ := hv.exists_real
      exact not_lt.2 (hw.2.trans (max_le hvp hup))
    rw [hmeet, decide_eq_false hge, Bool.and_false]

/-- An area holds no point that is beyond all its vertices on one side. -/
theorem exists_vertices_of_contains {a : Polygon Exact} (hv : ∀ v ∈ a.vertices, v.IsFinite)
    (hp : p.IsFinite) (h : a.contains p = true) :
    ((∃ v ∈ a.vertices, v.x ≤ p.x) ∧ ∃ v ∈ a.vertices, p.x < v.x) ∧
      (∃ v ∈ a.vertices, v.y ≤ p.y) ∧ ∃ v ∈ a.vertices, p.y < v.y := by
  -- Were all vertices on one side, the ray would cross the edges that pass its height, or none.
  refine ⟨⟨?_, ?_⟩, ?_, ?_⟩
  · by_contra hnone
    have hleft : ∀ v ∈ a.vertices, p.x < v.x := fun v hmem =>
      (le_or_lt_of_isFinite (hv v hmem).1 hp.1).resolve_left fun hle => hnone ⟨v, hmem, hle⟩
    obtain ⟨u, hu, v, hv', hne⟩ := exists_crosses_ne h fun v => decide (p.y < v.y)
    exact hne (crosses_of_left hp (hv u hu) (hv v hv') (hleft u hu) (hleft v hv'))
  · by_contra hnone
    have hright : ∀ v ∈ a.vertices, v.x ≤ p.x := fun v hmem =>
      (le_or_lt_of_isFinite (hv v hmem).1 hp.1).resolve_right fun hlt => hnone ⟨v, hmem, hlt⟩
    obtain ⟨u, hu, v, hv', hne⟩ := exists_crosses_ne h fun _ => false
    exact hne (crosses_of_right hp (hv u hu) (hv v hv') (hright u hu) (hright v hv'))
  · by_contra hnone
    have hbelow : ∀ v ∈ a.vertices, p.y < v.y := fun v hmem =>
      (le_or_lt_of_isFinite (hv v hmem).2 hp.2).resolve_left fun hle => hnone ⟨v, hmem, hle⟩
    obtain ⟨u, hu, v, hv', hne⟩ := exists_crosses_ne h fun _ => false
    exact hne (by simp [crosses, hbelow u hu, hbelow v hv'])
  · by_contra hnone
    have habove : ∀ v ∈ a.vertices, ¬p.y < v.y := fun v hmem hlt => hnone ⟨v, hmem, hlt⟩
    obtain ⟨u, hu, v, hv', hne⟩ := exists_crosses_ne h fun _ => false
    exact hne (by simp [crosses, habove u hu, habove v hv'])

/-- An area with its vertices in a box lies in the box. -/
theorem inBox_of_contains {a : Polygon Exact} {lo hi : Point Exact} (hlo : lo.IsFinite)
    (hhi : hi.IsFinite) (hbox : ∀ v ∈ a.vertices, v.InBox lo hi) (hp : p.IsFinite)
    (h : a.contains p = true) : p.InBox lo hi := by
  obtain ⟨⟨⟨l, hl, hleft⟩, r, hr, hright⟩, ⟨b, hb, hbelow⟩, t, ht, habove⟩ :=
    exists_vertices_of_contains (fun v hv => (hbox v hv).isFinite hlo hhi) hp h
  refine ⟨⟨?_, ?_⟩, ?_, ?_⟩
  · exact Exact.le_trans (hbox l hl).1.1 hleft
  · exact Exact.le_trans (Exact.le_of_lt hright) (hbox r hr).1.2
  · exact Exact.le_trans (hbox b hb).2.1 hbelow
  · exact Exact.le_trans (Exact.le_of_lt habove) (hbox t ht).2.2

section
variable {α : Type} {a : Polygon α} {s : Segment α}

/-- The edges lead from each vertex to the next, and from the last to the first. -/
def IsEdge (a : Polygon α) (s : Segment α) : Prop :=
  2 ≤ a.vertices.length ∧ ∃ i, a.vertices[i]? = some s.start ∧
    a.vertices[(i + 1) % a.vertices.length]? = some s.stop

lemma edges_eq_zipWith (h : 2 ≤ a.vertices.length) :
    a.edges = List.zipWith Segment.mk a.vertices (a.vertices.rotate 1) := by
  obtain ⟨vs⟩ := a
  match vs, h with
  | u :: v :: vs, _ => rfl

theorem mem_edges_iff : s ∈ a.edges ↔ a.IsEdge s := by
  rcases Nat.lt_or_ge a.vertices.length 2 with hlt | hle
  · refine iff_of_false ?_ fun h => hlt.not_ge h.1
    obtain ⟨vs⟩ := a
    match vs, hlt with
    | [], _ => exact List.not_mem_nil
    | [v], _ => exact List.not_mem_nil
  · rw [edges_eq_zipWith hle, List.mem_iff_getElem?, IsEdge, and_iff_right hle]
    refine exists_congr fun i => ?_
    rw [List.getElem?_zipWith_eq_some]
    constructor
    · rintro ⟨u, v, hu, hv, rfl⟩
      rw [List.getElem?_rotate (List.getElem?_eq_some_iff.1 hu).1] at hv
      exact ⟨hu, hv⟩
    · rintro ⟨hu, hv⟩
      rw [← List.getElem?_rotate (List.getElem?_eq_some_iff.1 hu).1] at hv
      exact ⟨_, _, hu, hv, rfl⟩

end

end Egress.Polygon
