import Egress.Network.Basic
import Egress.Proofs.OrderedMap

/-!
# How networks grow

Vertices and edges are only ever appended, so a network keeps what it had. In every network that
has grown from the empty one, subrooms and vertices stand for each other, edges are known by their
place, and each vertex lists the edges that leave it.
-/
namespace Egress

/-- The edge with other factors. -/
def Edge.withFactors {α : Type} (edge : Edge α) (bag : FactorBag α) : Edge α :=
  { edge with factors := bag }

namespace Network

variable {α : Type} {g g' : Network α}

/-- What holds in every network that has grown from the empty one. -/
structure WellFormed (g : Network α) : Prop where
  /-- Each subroom of the network has one vertex, and each vertex one subroom. -/
  vertexOf_iff : ∀ s v, g.vertexOf.find? s = some v ↔ g.subroomAt? v = some s
  id_eq : ∀ e edge, g.edge? e = some edge → edge.id = e
  source_lt : ∀ e edge, g.edge? e = some edge → edge.source < g.vertices.size
  dest_lt : ∀ e edge w, g.edge? e = some edge → edge.dest = some w → w < g.vertices.size
  mem_outOf : ∀ v e, e ∈ g.outOf v ↔ ∃ edge, g.edge? e = some edge ∧ edge.source = v
  ascending : ∀ v, (g.outOf v).Pairwise (· < ·)
  /-- There is one edge through a door out of a subroom. -/
  unique : ∀ e e' edge edge', g.edge? e = some edge → g.edge? e' = some edge' →
    edge.source = edge'.source → edge.door = edge'.door → e = e'

/-- A network that has what another has, but for the factors of its edges. -/
structure Extends (g g' : Network α) : Prop where
  subroomAt : ∀ v s, g.subroomAt? v = some s → g'.subroomAt? v = some s
  edge : ∀ e edge, g.edge? e = some edge → ∃ bag, g'.edge? e = some (edge.withFactors bag)

theorem Extends.refl (g : Network α) : g.Extends g :=
  ⟨fun _ _ h => h, fun _ edge h => ⟨edge.factors, h⟩⟩

theorem Extends.trans {g'' : Network α} (h : g.Extends g') (h' : g'.Extends g'') :
    g.Extends g'' := by
  refine ⟨fun v s hv => h'.subroomAt v s (h.subroomAt v s hv), fun e edge he => ?_⟩
  obtain ⟨bag, hbag⟩ := h.edge e edge he
  obtain ⟨bag', hbag'⟩ := h'.edge e _ hbag
  exact ⟨bag', hbag'⟩

lemma subroomAt?_isSome_iff {v : VertexId} :
    (g.subroomAt? v).isSome = true ↔ v < g.vertices.size := by
  simp [subroomAt?, vertex?]

lemma lt_of_subroomAt? {v : VertexId} {s : SubRoomId} (h : g.subroomAt? v = some s) :
    v < g.vertices.size :=
  subroomAt?_isSome_iff.1 (by rw [h]; rfl)

lemma exists_subroomAt? {v : VertexId} (h : v < g.vertices.size) : ∃ s, g.subroomAt? v = some s :=
  Option.isSome_iff_exists.1 (subroomAt?_isSome_iff.2 h)

lemma lt_of_edge? {e : EdgeId} {edge : Edge α} (h : g.edge? e = some edge) :
    e < g.edges.size := by
  obtain ⟨hlt, -⟩ := Array.getElem?_eq_some_iff.1 h
  exact hlt

lemma exists_edge? {e : EdgeId} (h : e < g.edges.size) : ∃ edge, g.edge? e = some edge :=
  ⟨g.edges[e], Array.getElem?_eq_getElem h⟩

lemma WellFormed.lt_of_mem_outOf (hg : g.WellFormed) {v : VertexId} {e : EdgeId}
    (h : e ∈ g.outOf v) : e < g.edges.size := by
  obtain ⟨edge, hedge, -⟩ := (hg.mem_outOf v e).1 h
  exact lt_of_edge? hedge

/-- Each subroom has one vertex. -/
lemma WellFormed.eq_of_subroomAt? (hg : g.WellFormed) {v w : VertexId} {s : SubRoomId}
    (hv : g.subroomAt? v = some s) (hw : g.subroomAt? w = some s) : v = w :=
  Option.some.inj (((hg.vertexOf_iff s v).2 hv).symm.trans ((hg.vertexOf_iff s w).2 hw))

lemma WellFormed.exists_subroomAt?_source (hg : g.WellFormed) {e : EdgeId} {edge : Edge α}
    (hedge : g.edge? e = some edge) : ∃ s, g.subroomAt? edge.source = some s :=
  exists_subroomAt? (hg.source_lt e edge hedge)

/-- An edge that does not lead out leads to a vertex of the network. -/
lemma WellFormed.map_dest (hg : g.WellFormed) {e : EdgeId} {edge : Edge α}
    (hedge : g.edge? e = some edge) :
    edge.dest.map g.subroomAt? = (edge.dest.bind g.subroomAt?).map some := by
  cases hw : edge.dest with
  | none => rfl
  | some w =>
    obtain ⟨t, ht⟩ := exists_subroomAt? (hg.dest_lt e edge w hedge hw)
    rw [Option.map_some, Option.bind_some, ht, Option.map_some]

theorem WellFormed.length_outOf_le (hg : g.WellFormed) (v : VertexId) :
    (g.outOf v).length ≤ g.edges.size := by
  have hnodup : (g.outOf v).Nodup := (hg.ascending v).imp fun h => h.ne
  have hsub : (g.outOf v) ⊆ List.range g.edges.size := fun e he =>
    List.mem_range.2 (hg.lt_of_mem_outOf he)
  have hle := (List.subperm_of_subset hnodup hsub).length_le
  rwa [List.length_range] at hle

theorem wellFormed_empty : (empty : Network α).WellFormed := by
  have hnone (e : EdgeId) : (empty : Network α).edge? e = none := by simp [edge?, empty]
  constructor
  case vertexOf_iff =>
    intro s v
    simp [empty, subroomAt?, vertex?]
  case id_eq =>
    intro e edge h
    simp [hnone] at h
  case source_lt =>
    intro e edge h
    simp [hnone] at h
  case dest_lt =>
    intro e edge w h
    simp [hnone] at h
  case mem_outOf =>
    intro v e
    simp only [hnone]
    simp [outOf, vertex?, empty]
  case ascending =>
    intro v
    simp [outOf, vertex?, empty]
  case unique =>
    intro e e' edge edge' h
    simp [hnone] at h

section
variable (g) (s : SubRoomId)

@[simp] theorem edges_addVertex : (g.addVertex s).1.edges = g.edges := by
  unfold addVertex
  split <;> rfl

@[simp] theorem edge?_addVertex (e : EdgeId) : (g.addVertex s).1.edge? e = g.edge? e := by
  rw [edge?, edges_addVertex, edge?]

@[simp] theorem outOf_addVertex (v : VertexId) : (g.addVertex s).1.outOf v = g.outOf v := by
  unfold addVertex
  split
  · rfl
  · simp only [outOf, vertex?, Array.getElem?_push]
    split
    · rename_i hv
      simp [hv]
    · rfl

theorem find?_addVertex_self : (g.addVertex s).1.vertexOf.find? s = some (g.addVertex s).2 := by
  unfold addVertex
  split
  · assumption
  · exact OrderedMap.find?_insert_self _ _ _

lemma size_addVertex_le : g.vertices.size ≤ (g.addVertex s).1.vertices.size := by
  unfold addVertex
  split
  · exact le_rfl
  · simp

theorem extends_addVertex : g.Extends (g.addVertex s).1 := by
  refine ⟨fun v t hv => ?_, fun e edge he => ⟨edge.factors, by rwa [edge?_addVertex]⟩⟩
  have hlt := lt_of_subroomAt? hv
  unfold addVertex
  split
  · exact hv
  · simpa [subroomAt?, vertex?, Array.getElem?_push, hlt.ne] using hv

lemma subroomAt?_addVertex (hnew : g.vertexOf.find? s = none) (v : VertexId) :
    (g.addVertex s).1.subroomAt? v =
      if v = g.vertices.size then some s else g.subroomAt? v := by
  simp only [Network.addVertex, hnew, subroomAt?, vertex?, Array.getElem?_push]
  split <;> rfl

lemma subroomAt?_addVertex_cases {v : VertexId} {t : SubRoomId}
    (h : (g.addVertex s).1.subroomAt? v = some t) : g.subroomAt? v = some t ∨ t = s := by
  cases hnew : g.vertexOf.find? s with
  | some w =>
    simp only [Network.addVertex, hnew] at h
    exact .inl h
  | none =>
    rw [subroomAt?_addVertex g s hnew] at h
    split at h
    · exact .inr (Option.some.inj h).symm
    · exact .inl h

end

theorem WellFormed.addVertex (hg : g.WellFormed) (s : SubRoomId) :
    (g.addVertex s).1.WellFormed := by
  constructor
  case vertexOf_iff =>
    intro t v
    cases hnew : g.vertexOf.find? s with
    | some w =>
      simp only [Network.addVertex, hnew]
      exact hg.vertexOf_iff t v
    | none =>
      have hfind : (g.addVertex s).1.vertexOf = g.vertexOf.insert s g.vertices.size := by
        simp only [Network.addVertex, hnew]
      rw [hfind, subroomAt?_addVertex g s hnew, OrderedMap.find?_insert]
      by_cases ht : t = s
      · subst ht
        rw [if_pos rfl]
        by_cases hv : v = g.vertices.size
        · simp [hv]
        · rw [if_neg hv, ← hg.vertexOf_iff t v, hnew]
          simpa using Ne.symm hv
      · rw [if_neg ht, hg.vertexOf_iff]
        by_cases hv : v = g.vertices.size
        · rw [if_pos hv, hv]
          refine ⟨fun h => absurd (lt_of_subroomAt? h) (lt_irrefl _), fun h => ?_⟩
          exact absurd (Option.some.inj h).symm ht
        · rw [if_neg hv]
  case id_eq =>
    intro e edge h
    rw [edge?_addVertex] at h
    exact hg.id_eq e edge h
  case source_lt =>
    intro e edge h
    rw [edge?_addVertex] at h
    exact (hg.source_lt e edge h).trans_le (size_addVertex_le g s)
  case dest_lt =>
    intro e edge w h hw
    rw [edge?_addVertex] at h
    exact (hg.dest_lt e edge w h hw).trans_le (size_addVertex_le g s)
  case mem_outOf =>
    intro v e
    simp only [outOf_addVertex, edge?_addVertex]
    exact hg.mem_outOf v e
  case ascending =>
    intro v
    rw [outOf_addVertex]
    exact hg.ascending v
  case unique =>
    intro e e' edge edge' h h'
    rw [edge?_addVertex] at h h'
    exact hg.unique e e' edge edge' h h'

section
variable (g) (v : VertexId) (dest : Option VertexId) (uid : DoorId) (line : Segment α)
  (distance : α)

/-- The edge that `pushEdge` appends. -/
def newEdge : Edge α := ⟨g.edges.size, v, dest, uid, line, distance, .empty⟩

theorem edge?_pushEdge (e : EdgeId) : (g.pushEdge v dest uid line distance).1.edge? e =
    if e = g.edges.size then some (newEdge g v dest uid line distance) else g.edge? e :=
  Array.getElem?_push

theorem subroomAt?_pushEdge (u : VertexId) :
    (g.pushEdge v dest uid line distance).1.subroomAt? u = g.subroomAt? u := by
  simp only [pushEdge, subroomAt?, vertex?, Array.getElem?_modify]
  split
  · rw [Option.map_map]
    rfl
  · rfl

theorem size_vertices_pushEdge :
    (g.pushEdge v dest uid line distance).1.vertices.size = g.vertices.size :=
  Array.size_modify

theorem size_edges_pushEdge :
    (g.pushEdge v dest uid line distance).1.edges.size = g.edges.size + 1 :=
  Array.size_push _

theorem outOf_pushEdge (hv : v < g.vertices.size) (u : VertexId) :
    (g.pushEdge v dest uid line distance).1.outOf u =
      if u = v then g.outOf u ++ [g.edges.size] else g.outOf u := by
  simp only [pushEdge, outOf, vertex?, Array.getElem?_modify]
  by_cases hu : u = v
  · subst hu
    simp [hv]
  · rw [if_neg (Ne.symm hu), if_neg hu]

theorem extends_pushEdge : g.Extends (g.pushEdge v dest uid line distance).1 := by
  refine ⟨fun u s hu => by rwa [subroomAt?_pushEdge], fun e edge he => ⟨edge.factors, ?_⟩⟩
  rw [edge?_pushEdge, if_neg (lt_of_edge? he).ne]
  exact he

end

theorem WellFormed.pushEdge (hg : g.WellFormed) {v : VertexId} {dest : Option VertexId}
    {uid : DoorId} (line : Segment α) (distance : α) (hv : v < g.vertices.size)
    (hdest : ∀ w, dest = some w → w < g.vertices.size)
    (hnew : ∀ e edge, g.edge? e = some edge → edge.source = v → edge.door ≠ uid) :
    (g.pushEdge v dest uid line distance).1.WellFormed := by
  have hcases {e : EdgeId} {edge : Edge α}
      (h : (g.pushEdge v dest uid line distance).1.edge? e = some edge) :
      e = g.edges.size ∧ edge = newEdge g v dest uid line distance ∨ g.edge? e = some edge := by
    rw [edge?_pushEdge] at h
    split at h
    · exact .inl ⟨‹_›, (Option.some.inj h).symm⟩
    · exact .inr h
  constructor
  case vertexOf_iff =>
    intro s u
    rw [subroomAt?_pushEdge]
    exact hg.vertexOf_iff s u
  case id_eq =>
    intro e edge h
    rcases hcases h with ⟨rfl, rfl⟩ | h
    · rfl
    · exact hg.id_eq e edge h
  case source_lt =>
    intro e edge h
    rw [size_vertices_pushEdge]
    rcases hcases h with ⟨rfl, rfl⟩ | h
    · exact hv
    · exact hg.source_lt e edge h
  case dest_lt =>
    intro e edge w h hw
    rw [size_vertices_pushEdge]
    rcases hcases h with ⟨rfl, rfl⟩ | h
    · exact hdest w hw
    · exact hg.dest_lt e edge w h hw
  case mem_outOf =>
    intro u e
    rw [outOf_pushEdge _ _ _ _ _ _ hv, edge?_pushEdge]
    by_cases he : e = g.edges.size
    · have hout : e ∉ g.outOf u := fun h => (hg.lt_of_mem_outOf h).ne he
      have hsource : (newEdge g v dest uid line distance).source = v := rfl
      by_cases hu : u = v
      · simp [he, hu, hsource]
      · simp [← he, hu, hout, hsource, Ne.symm hu]
    · have hmem := hg.mem_outOf u e
      by_cases hu : u = v
      · rw [if_pos hu, if_neg he, ← hmem, List.mem_append, List.mem_singleton]
        exact or_iff_left he
      · rw [if_neg hu, if_neg he, hmem]
  case ascending =>
    intro u
    rw [outOf_pushEdge _ _ _ _ _ _ hv]
    split
    · refine List.pairwise_append.2 ⟨hg.ascending u, List.pairwise_singleton _ _, ?_⟩
      intro e he e' he'
      rw [List.mem_singleton.1 he']
      exact hg.lt_of_mem_outOf he
    · exact hg.ascending u
  case unique =>
    intro e e' edge edge' h h' hsource hdoor
    rcases hcases h with ⟨rfl, rfl⟩ | h <;> rcases hcases h' with ⟨rfl, rfl⟩ | h'
    · rfl
    · exact absurd hdoor.symm (hnew e' edge' h' hsource.symm)
    · exact absurd hdoor (hnew e edge h hsource)
    · exact hg.unique e e' edge edge' h h' hsource hdoor

theorem WellFormed.mem_outEdges (hg : g.WellFormed) {s : SubRoomId} {e : EdgeId} :
    e ∈ g.outEdges s ↔
      ∃ edge, g.edge? e = some edge ∧ g.subroomAt? edge.source = some s := by
  unfold outEdges
  cases hv : g.vertexOf.find? s with
  | none =>
    refine iff_of_false List.not_mem_nil ?_
    intro hex
    obtain ⟨edge, -, hs⟩ := hex
    rw [← hg.vertexOf_iff, hv] at hs
    cases hs
  | some v =>
    refine (hg.mem_outOf v e).trans (exists_congr fun edge => and_congr_right fun _ => ?_)
    rw [← hg.vertexOf_iff, hv, Option.some.injEq, eq_comm]

/-- A door out of a subroom has no edge if and only if no edge out of the subroom has that door. -/
theorem WellFormed.edgeThrough?_eq_none_iff (hg : g.WellFormed) {s : SubRoomId} {uid : DoorId} :
    g.edgeThrough? s uid = none ↔ ∀ e edge, g.edge? e = some edge →
      g.subroomAt? edge.source = some s → edge.door ≠ uid := by
  unfold edgeThrough?
  rw [List.find?_eq_none]
  constructor
  · intro h e edge hedge hs
    have hne := h e (hg.mem_outEdges.2 ⟨edge, hedge, hs⟩)
    simpa [hedge] using hne
  · intro h e he
    obtain ⟨edge, hedge, hs⟩ := hg.mem_outEdges.1 he
    simpa [hedge] using h e edge hedge hs

theorem WellFormed.edge?_of_edgeThrough? (hg : g.WellFormed) {s : SubRoomId} {uid : DoorId}
    {e : EdgeId} (h : g.edgeThrough? s uid = some e) : ∃ edge, g.edge? e = some edge ∧
      g.subroomAt? edge.source = some s ∧ edge.door = uid := by
  unfold edgeThrough? at h
  obtain ⟨edge, hedge, hs⟩ := hg.mem_outEdges.1 (List.mem_of_find?_eq_some h)
  have hdoor := List.find?_some h
  simp only [hedge, Option.map_some, beq_iff_eq, Option.some.injEq] at hdoor
  exact ⟨edge, hedge, hs, hdoor⟩

/-- The network with vertices at both ends of an edge, and the vertex that the edge leads to. -/
def withEnds (g : Network α) (s : SubRoomId) : Option SubRoomId → Network α × Option VertexId
  | none => ((g.addVertex s).1, none)
  | some t => (((g.addVertex s).1.addVertex t).1, some ((g.addVertex s).1.addVertex t).2)

theorem WellFormed.withEnds (hg : g.WellFormed) (s : SubRoomId) (side : Option SubRoomId) :
    (withEnds g s side).1.WellFormed ∧ g.Extends (withEnds g s side).1 ∧
      (∀ e, (withEnds g s side).1.edge? e = g.edge? e) ∧
      (withEnds g s side).1.subroomAt? (g.addVertex s).2 = some s ∧
      (∀ w, (withEnds g s side).2 = some w → w < (withEnds g s side).1.vertices.size) ∧
      (withEnds g s side).2.bind (withEnds g s side).1.subroomAt? = side := by
  have hg₁ := hg.addVertex s
  have hsource := (hg₁.vertexOf_iff _ _).1 (find?_addVertex_self g s)
  cases side with
  | none =>
    refine ⟨hg₁, extends_addVertex g s, edge?_addVertex g s, hsource, ?_, rfl⟩
    intro w hw
    cases hw
  | some t =>
    have hg₂ := hg₁.addVertex t
    have hext := extends_addVertex (g.addVertex s).1 t
    have hdest := (hg₂.vertexOf_iff _ _).1 (find?_addVertex_self (g.addVertex s).1 t)
    refine ⟨hg₂, (extends_addVertex g s).trans hext, fun e => ?_, hext.subroomAt _ _ hsource, ?_,
      hdest⟩
    · exact (edge?_addVertex _ t e).trans (edge?_addVertex g s e)
    · intro w hw
      rw [← Option.some.inj hw]
      exact lt_of_subroomAt? hdest

lemma subroomAt?_withEnds_cases {s t : SubRoomId} {side : Option SubRoomId} {v : VertexId}
    (h : (withEnds g s side).1.subroomAt? v = some t) :
    g.subroomAt? v = some t ∨ t = s ∨ side = some t := by
  cases side with
  | none => exact (subroomAt?_addVertex_cases g s h).imp_right .inl
  | some u =>
    rcases subroomAt?_addVertex_cases _ u h with h | rfl
    · exact (subroomAt?_addVertex_cases g s h).imp_right .inl
    · exact .inr (.inr rfl)

section
variable [Scalar α] {b : Building α} {s : SubRoomId} {uid : DoorId} {e : EdgeId}

/-- An edge that is not there yet is appended for an open door on the boundary of the subroom. -/
theorem addEdge_cases (h : g.addEdge b s uid = .ok (g', e)) :
    (g.edgeThrough? s uid = some e ∧ g' = g) ∨
    (g.edgeThrough? s uid = none ∧ ∃ door side, b.door uid = .ok door ∧ door.isOpen = true ∧
      door.otherSide s = some side ∧
      (g', e) = (withEnds g s side).1.pushEdge (g.addVertex s).2 (withEnds g s side).2 uid
        door.line (approximateDistance b s uid door side)) := by
  unfold addEdge at h
  cases hknown : g.edgeThrough? s uid with
  | some e' =>
    simp only [hknown, Except.ok.injEq, Prod.mk.injEq] at h
    exact .inl ⟨by rw [h.2], h.1.symm⟩
  | none =>
    simp only [hknown] at h
    refine .inr ⟨rfl, ?_⟩
    cases hdoor : b.door uid with
    | error err => simp [hdoor] at h
    | ok door =>
      simp only [hdoor] at h
      cases hopen : door.isOpen with
      | false => simp [hopen] at h
      | true =>
        cases hside : door.otherSide s with
        | none => simp [hopen, hside] at h
        | some side =>
          refine ⟨door, side, rfl, hopen, hside, ?_⟩
          cases side with
          | none => simpa [hopen, hside, withEnds] using h.symm
          | some t => simpa [hopen, hside, withEnds] using h.symm

theorem WellFormed.addEdge (hg : g.WellFormed) (h : g.addEdge b s uid = .ok (g', e)) :
    g'.WellFormed ∧ g.Extends g' := by
  rcases addEdge_cases h with ⟨-, rfl⟩ | ⟨hnone, door, side, -, -, -, hpush⟩
  · exact ⟨hg, .refl g'⟩
  · obtain ⟨hends, hext, hedges, hsource, hdest, -⟩ := hg.withEnds s side
    obtain rfl : g' = _ := congrArg Prod.fst hpush
    refine ⟨hends.pushEdge _ _ (lt_of_subroomAt? hsource) hdest ?_, hext.trans
      (extends_pushEdge _ _ _ _ _ _)⟩
    intro e' edge hedge hv
    rw [hedges] at hedge
    apply hg.edgeThrough?_eq_none_iff.1 hnone e' edge hedge
    obtain ⟨t, ht⟩ := hg.exists_subroomAt?_source hedge
    have ht' := hext.subroomAt _ _ ht
    rw [hv, hsource] at ht'
    rw [ht, ← Option.some.inj ht']

/-- What an edge that can be added preserves, adding several edges preserves too. -/
theorem addEdges_induction {P : Network α → Prop}
    (hP : ∀ g g' uid e, P g → g.addEdge b s uid = .ok (g', e) → P g') (ds : List DoorId)
    (h : P g) : P (g.addEdges b s ds).1 := by
  induction ds generalizing g with
  | nil => exact h
  | cons uid ds ih =>
    unfold addEdges
    split
    · exact ih (hP _ _ _ _ h ‹_›)
    · exact h

/-- Adding the doors of a subroom adds its vertex and some edges, or nothing. -/
theorem addSubRoomDoors_induction {P : Network α → Prop}
    (hvertex : ∀ sub, b.subroom s = .ok sub → P g → P (g.addVertex s).1)
    (hedge : ∀ g g' uid e, P g → g.addEdge b s uid = .ok (g', e) → P g') (h : P g) :
    P (g.addSubRoomDoors b s).1 := by
  unfold addSubRoomDoors
  split
  · exact h
  · exact addEdges_induction hedge _ (hvertex _ ‹_› h)

theorem WellFormed.addSubRoomDoors (hg : g.WellFormed) :
    (g.addSubRoomDoors b s).1.WellFormed ∧ g.Extends (g.addSubRoomDoors b s).1 := by
  refine addSubRoomDoors_induction (P := fun g' => g'.WellFormed ∧ g.Extends g') ?_ ?_
    ⟨hg, .refl g⟩
  · intro sub _ h
    exact ⟨hg.addVertex s, extends_addVertex g s⟩
  · intro g₁ g₂ uid e h h'
    obtain ⟨hg₂, hext⟩ := h.1.addEdge h'
    exact ⟨hg₂, h.2.trans hext⟩

end

/-- The second network differs from the first in factors only. -/
structure Reweighs (g g' : Network α) : Prop where
  vertices_eq : g'.vertices = g.vertices
  vertexOf_eq : g'.vertexOf = g.vertexOf
  edge : ∀ e, ∃ bag, g'.edge? e = (g.edge? e).map (·.withFactors bag)

theorem Reweighs.refl (g : Network α) : g.Reweighs g := by
  refine ⟨rfl, rfl, fun e => ?_⟩
  cases h : g.edge? e with
  | none => exact ⟨.empty, rfl⟩
  | some edge => exact ⟨edge.factors, rfl⟩

theorem Reweighs.trans {g'' : Network α} (h : g.Reweighs g') (h' : g'.Reweighs g'') :
    g.Reweighs g'' := by
  refine ⟨h'.vertices_eq.trans h.vertices_eq, h'.vertexOf_eq.trans h.vertexOf_eq, fun e => ?_⟩
  obtain ⟨bag, hbag⟩ := h.edge e
  obtain ⟨bag', hbag'⟩ := h'.edge e
  refine ⟨bag', ?_⟩
  rw [hbag', hbag, Option.map_map]
  rfl

theorem Reweighs.symm (h : g.Reweighs g') : g'.Reweighs g := by
  refine ⟨h.vertices_eq.symm, h.vertexOf_eq.symm, fun e => ?_⟩
  obtain ⟨bag, hbag⟩ := h.edge e
  cases hedge : g.edge? e with
  | none => exact ⟨.empty, by rw [hbag, hedge]; rfl⟩
  | some edge => exact ⟨edge.factors, by rw [hbag, hedge]; rfl⟩

lemma Reweighs.exists_edge? (h : g.Reweighs g') {e : EdgeId} {edge : Edge α}
    (he : g'.edge? e = some edge) :
    ∃ old bag, g.edge? e = some old ∧ edge = old.withFactors bag := by
  obtain ⟨bag, hbag⟩ := h.edge e
  rw [he] at hbag
  obtain ⟨old, hold, rfl⟩ := Option.map_eq_some_iff.1 hbag.symm
  exact ⟨old, bag, hold, rfl⟩

lemma Reweighs.subroomAt?_eq (h : g.Reweighs g') (v : VertexId) :
    g'.subroomAt? v = g.subroomAt? v := by
  rw [subroomAt?, vertex?, h.vertices_eq, subroomAt?, vertex?]

theorem Reweighs.extends (h : g.Reweighs g') : g.Extends g' := by
  refine ⟨fun v s hv => by rwa [h.subroomAt?_eq], fun e edge he => ?_⟩
  obtain ⟨bag, hbag⟩ := h.edge e
  exact ⟨bag, by rw [hbag, he, Option.map_some]⟩

theorem WellFormed.reweigh (hg : g.WellFormed) (h : g.Reweighs g') : g'.WellFormed := by
  have hout (v : VertexId) : g'.outOf v = g.outOf v := by
    rw [outOf, vertex?, h.vertices_eq, outOf, vertex?]
  constructor
  case vertexOf_iff =>
    intro s v
    rw [h.vertexOf_eq, h.subroomAt?_eq]
    exact hg.vertexOf_iff s v
  case id_eq =>
    intro e edge he
    obtain ⟨old, bag, hold, rfl⟩ := h.exists_edge? he
    exact hg.id_eq e old hold
  case source_lt =>
    intro e edge he
    obtain ⟨old, bag, hold, rfl⟩ := h.exists_edge? he
    exact h.vertices_eq ▸ hg.source_lt e old hold
  case dest_lt =>
    intro e edge w he hw
    obtain ⟨old, bag, hold, rfl⟩ := h.exists_edge? he
    exact h.vertices_eq ▸ hg.dest_lt e old w hold hw
  case mem_outOf =>
    intro v e
    rw [hout, hg.mem_outOf v e]
    constructor
    · intro hex
      obtain ⟨edge, hedge, hsource⟩ := hex
      obtain ⟨bag, hbag⟩ := h.extends.edge e edge hedge
      exact ⟨_, hbag, hsource⟩
    · intro hex
      obtain ⟨edge, hedge, hsource⟩ := hex
      obtain ⟨old, bag, hold, rfl⟩ := h.exists_edge? hedge
      exact ⟨old, hold, hsource⟩
  case ascending =>
    intro v
    rw [hout]
    exact hg.ascending v
  case unique =>
    intro e e' edge edge' he he'
    obtain ⟨old, bag, hold, rfl⟩ := h.exists_edge? he
    obtain ⟨old', bag', hold', rfl⟩ := h.exists_edge? he'
    exact hg.unique e e' old old' hold hold'

/-- The network with the factors of an edge replaced by their image. -/
def writeFactors (g : Network α) (e : EdgeId) (f : FactorBag α → FactorBag α) : Network α :=
  g.modifyEdge e fun edge => edge.withFactors (f edge.factors)

theorem reweighs_writeFactors (g : Network α) (e : EdgeId) (f : FactorBag α → FactorBag α) :
    g.Reweighs (g.writeFactors e f) := by
  refine ⟨rfl, rfl, fun e' => ?_⟩
  have hget : (g.writeFactors e f).edge? e' = if e = e' then
      (g.edge? e').map fun edge => edge.withFactors (f edge.factors) else g.edge? e' :=
    Array.getElem?_modify
  rw [hget]
  split
  · cases h : g.edge? e' with
    | none => exact ⟨.empty, rfl⟩
    | some edge => exact ⟨f edge.factors, rfl⟩
  · exact (Reweighs.refl g).edge e'

theorem reweighs_mapEdges (g : Network α) {f : Edge α → Edge α}
    (hf : ∀ edge, ∃ bag, f edge = edge.withFactors bag) :
    g.Reweighs { g with edges := g.edges.map f } := by
  refine ⟨rfl, rfl, fun e => ?_⟩
  have hget : (⟨g.vertices, g.edges.map f, g.vertexOf⟩ : Network α).edge? e =
      (g.edge? e).map f := Array.getElem?_map
  rw [hget]
  cases g.edge? e with
  | none => exact ⟨.empty, rfl⟩
  | some edge =>
    obtain ⟨bag, hbag⟩ := hf edge
    exact ⟨bag, congrArg some hbag⟩

theorem reweighs_setFactor [Scalar α] (g : Network α) (name : String) (time : α) (e : EdgeId)
    (value : α) : g.Reweighs (g.setFactor name time e value) :=
  reweighs_writeFactors g e (·.insert name ⟨value, time⟩)

theorem reweighs_setFactors [Scalar α] (name : String) (time : α) (values : List (EdgeId × α))
    (g : Network α) : g.Reweighs (g.setFactors name time values) := by
  unfold setFactors
  induction values generalizing g with
  | nil => exact .refl g
  | cons v values ih => exact (reweighs_setFactor g name time v.1 v.2).trans (ih _)

/-- The networks that are made from the empty one by adding vertices, edges and the doors of
subrooms of any buildings, and by writing factors. -/
inductive Grown [Scalar α] : Network α → Prop
  | empty : Grown empty
  | addVertex {g : Network α} (s : SubRoomId) : Grown g → Grown (g.addVertex s).1
  | addEdge {g g' : Network α} (b : Building α) (s : SubRoomId) (uid : DoorId) (e : EdgeId) :
    Grown g → g.addEdge b s uid = .ok (g', e) → Grown g'
  | addSubRoomDoors {g : Network α} (b : Building α) (s : SubRoomId) :
    Grown g → Grown (g.addSubRoomDoors b s).1
  | writeFactors {g : Network α} (e : EdgeId) (f : FactorBag α → FactorBag α) :
    Grown g → Grown (g.writeFactors e f)

theorem Grown.wellFormed [Scalar α] (hg : g.Grown) : g.WellFormed := by
  induction hg with
  | empty => exact wellFormed_empty
  | addVertex s _ ih => exact ih.addVertex s
  | addEdge b s uid e _ h ih => exact (ih.addEdge h).1
  | addSubRoomDoors b s _ ih => exact ih.addSubRoomDoors.1
  | writeFactors e f _ ih => exact ih.reweigh (reweighs_writeFactors _ e f)

end Network

end Egress
