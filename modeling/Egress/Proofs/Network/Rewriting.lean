import Egress.Network.Search
import Egress.Proofs.Network.Growth

/-!
# Rewriting all factors of a network

Factors are data of edges that growing a network does not look at. Rewriting each bag of factors
therefore commutes with whatever adds to a network, and a rewriting that keeps multipliers changes
no choice of a way out.
-/
namespace Egress.Network

variable {α : Type}

/-- The network with each bag of factors replaced by its image. -/
def mapFactors (f : FactorBag α → FactorBag α) (g : Network α) : Network α :=
  { g with edges := g.edges.map fun edge => edge.withFactors (f edge.factors) }

variable {f : FactorBag α → FactorBag α} {g : Network α}

@[simp] lemma vertexOf_mapFactors : (g.mapFactors f).vertexOf = g.vertexOf := rfl

@[simp] lemma size_edges_mapFactors : (g.mapFactors f).edges.size = g.edges.size :=
  Array.size_map

@[simp] lemma toList_edges_mapFactors : (g.mapFactors f).edges.toList =
    g.edges.toList.map fun edge => edge.withFactors (f edge.factors) := Array.toList_map

@[simp] lemma edge?_mapFactors (e : EdgeId) : (g.mapFactors f).edge? e =
    (g.edge? e).map fun edge => edge.withFactors (f edge.factors) := Array.getElem?_map

@[simp] lemma outOf_mapFactors (v : VertexId) : (g.mapFactors f).outOf v = g.outOf v := rfl

@[simp] lemma outEdges_mapFactors (s : SubRoomId) :
    (g.mapFactors f).outEdges s = g.outEdges s := rfl

@[simp] lemma subroomAt?_mapFactors (v : VertexId) :
    (g.mapFactors f).subroomAt? v = g.subroomAt? v := rfl

@[simp] lemma destSubRoom?_mapFactors (e : EdgeId) :
    (g.mapFactors f).destSubRoom? e = g.destSubRoom? e := by
  rw [destSubRoom?, edge?_mapFactors, Option.bind_map]
  rfl

@[simp] lemma edgeThrough?_mapFactors (s : SubRoomId) (door : DoorId) :
    (g.mapFactors f).edgeThrough? s door = g.edgeThrough? s door := by
  simp only [edgeThrough?, outEdges_mapFactors, edge?_mapFactors, Option.map_map]
  rfl

lemma ext_mapFactors {g' : Network α} (hvertices : g.vertices = g'.vertices)
    (hvertexOf : g.vertexOf = g'.vertexOf)
    (hedge : ∀ e, (g.mapFactors f).edge? e = (g'.mapFactors f).edge? e) :
    g.mapFactors f = g'.mapFactors f := by
  have hedges : (g.mapFactors f).edges = (g'.mapFactors f).edges := Array.ext_getElem? hedge
  simp only [mapFactors, Network.mk.injEq]
  exact ⟨hvertices, hedges, hvertexOf⟩

/-- Without their factors, networks that differ in nothing else are the same. -/
lemma Reweighs.mapFactors_const {g' : Network α} (h : g.Reweighs g') (bag : FactorBag α) :
    g'.mapFactors (fun _ => bag) = g.mapFactors fun _ => bag := by
  apply ext_mapFactors h.vertices_eq h.vertexOf_eq
  intro e
  obtain ⟨bag', hbag'⟩ := h.edge e
  rw [edge?_mapFactors, edge?_mapFactors, hbag', Option.map_map]
  rfl

lemma addVertex_mapFactors (s : SubRoomId) : (g.mapFactors f).addVertex s =
    ((g.addVertex s).1.mapFactors f, (g.addVertex s).2) := by
  unfold addVertex
  rw [vertexOf_mapFactors]
  split <;> rfl

lemma pushEdge_mapFactors (hf : f .empty = .empty) (v : VertexId) (dest : Option VertexId)
    (uid : DoorId) (line : Segment α) (distance : α) :
    (g.mapFactors f).pushEdge v dest uid line distance =
      ((g.pushEdge v dest uid line distance).1.mapFactors f,
        (g.pushEdge v dest uid line distance).2) := by
  simp [pushEdge, mapFactors, Edge.withFactors, hf]

section
variable [Scalar α] {b : Building α} {s : SubRoomId}

lemma addEdge_mapFactors (hf : f .empty = .empty) (uid : DoorId) :
    (g.mapFactors f).addEdge b s uid =
      (g.addEdge b s uid).map fun (g', e) => (g'.mapFactors f, e) := by
  unfold addEdge
  rw [edgeThrough?_mapFactors]
  cases g.edgeThrough? s uid with
  | some e => rfl
  | none =>
    cases b.door uid with
    | error e => rfl
    | ok door =>
      simp only
      split
      · rfl
      · cases door.otherSide s with
        | none => rfl
        | some side =>
          simp only [addVertex_mapFactors]
          cases side with
          | none => simp only [pushEdge_mapFactors hf, Except.map]
          | some t => simp only [pushEdge_mapFactors hf, Except.map]

lemma addEdges_mapFactors (hf : f .empty = .empty) (doors : List DoorId) :
    (g.mapFactors f).addEdges b s doors =
      ((g.addEdges b s doors).1.mapFactors f, (g.addEdges b s doors).2) := by
  induction doors generalizing g with
  | nil => rfl
  | cons uid doors ih =>
    simp only [addEdges, addEdge_mapFactors hf]
    cases g.addEdge b s uid with
    | error e => rfl
    | ok ge => exact ih

/-- What is added does not depend on the factors, and has none. -/
theorem addSubRoomDoors_mapFactors (hf : f .empty = .empty) :
    (g.mapFactors f).addSubRoomDoors b s =
      ((g.addSubRoomDoors b s).1.mapFactors f, (g.addSubRoomDoors b s).2) := by
  unfold addSubRoomDoors
  cases b.subroom s with
  | error e => rfl
  | ok sub => simp only [addVertex_mapFactors, addEdges_mapFactors hf, size_edges_mapFactors]

lemma setFactor_mapFactors {name : String}
    (hf : ∀ bag v, f (bag.insert name v) = (f bag).insert name v) (time : α) (e : EdgeId)
    (value : α) : (g.mapFactors f).setFactor name time e value =
      (g.setFactor name time e value).mapFactors f := by
  simp only [setFactor, modifyEdge, mapFactors, Network.mk.injEq, true_and, and_true]
  apply Array.ext_getElem?
  intro e'
  simp only [Array.getElem?_modify, Array.getElem?_map]
  split
  · simp [Function.comp_def, Edge.setFactor, Edge.withFactors, hf]
  · rfl

/-- Factors of a name that the rewriting passes by may be written before or after. -/
theorem setFactors_mapFactors {name : String}
    (hf : ∀ bag v, f (bag.insert name v) = (f bag).insert name v) (time : α)
    (values : List (EdgeId × α)) : (g.mapFactors f).setFactors name time values =
      (g.setFactors name time values).mapFactors f := by
  induction values generalizing g with
  | nil => rfl
  | cons v values ih =>
    simp only [setFactors, List.foldl_cons, setFactor_mapFactors hf] at ih ⊢
    exact ih

variable (hf : ∀ bag, (f bag).multiplier = bag.multiplier)

include hf

lemma weight_mapFactors (edge : Edge α) (p : Point α) :
    (edge.withFactors (f edge.factors)).weight p = edge.weight p := by
  simp only [Edge.weight, Edge.withFactors, hf]

lemma start_mapFactors (v : VertexId) (p : Point α) :
    Search.start (g.mapFactors f) v p = Search.start g v p := by
  unfold Search.start
  simp only [size_edges_mapFactors, outOf_mapFactors, edge?_mapFactors]
  congr 1
  funext s e
  cases g.edge? e with
  | none => rfl
  | some edge => simp only [Option.map_some, weight_mapFactors hf]

lemma expand_mapFactors (s : Search α) (edge : Edge α) (dest : VertexId) (cost : α) :
    Search.expand (g.mapFactors f) s (edge.withFactors (f edge.factors)) dest cost =
      Search.expand g s edge dest cost := by
  unfold Search.expand
  simp only [outOf_mapFactors, edge?_mapFactors]
  congr 1
  funext s e
  cases g.edge? e with
  | none => rfl
  | some next =>
    simp only [Option.map_some, weight_mapFactors hf]
    rfl

lemma step_mapFactors (s : Search α) : s.step (g.mapFactors f) = s.step g := by
  unfold Search.step
  simp only [edge?_mapFactors]
  split
  · rfl
  · split
    · rfl
    · cases g.edge? _ with
      | none => rfl
      | some edge =>
        simp only [Option.map_some, Edge.withFactors]
        cases edge.dest with
        | none => rfl
        | some dest => exact congrArg _ (expand_mapFactors hf _ edge dest _)

lemma run_mapFactors (fuel : ℕ) (s : Search α) :
    Search.run (g.mapFactors f) fuel s = Search.run g fuel s := by
  induction fuel generalizing s with
  | zero => rfl
  | succ fuel ih => simp only [Search.run, step_mapFactors hf, ih]

omit hf [Scalar α] in
lemma destinationAlong_mapFactors (path : List EdgeId) (cost : α) :
    (g.mapFactors f).destinationAlong path cost = g.destinationAlong path cost := by
  simp only [destinationAlong, edge?_mapFactors, Option.map_map]
  rfl

/-- The cheapest way out is the same for all factors with the same multipliers. -/
theorem cheapestDestination_mapFactors (s : SubRoomId) (p : Point α) :
    (g.mapFactors f).cheapestDestination s p = g.cheapestDestination s p := by
  simp only [cheapestDestination, vertexOf_mapFactors, size_edges_mapFactors,
    start_mapFactors hf, run_mapFactors hf, destinationAlong_mapFactors]

theorem localDestination_mapFactors (s : SubRoomId) (p : Point α) :
    (g.mapFactors f).localDestination s p = g.localDestination s p := by
  have hweighted (e : EdgeId) : ((g.mapFactors f).edge? e).map (fun edge => (e, edge.weight p)) =
      (g.edge? e).map fun edge => (e, edge.weight p) := by
    rw [edge?_mapFactors, Option.map_map]
    exact congrArg (Option.map · _) (funext fun edge => by
      simp only [Function.comp_apply, weight_mapFactors hf])
  simp only [localDestination, vertexOf_mapFactors, outOf_mapFactors, hweighted,
    destinationAlong_mapFactors]

end

end Egress.Network
