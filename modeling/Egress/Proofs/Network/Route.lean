import Egress.Proofs.Network.Growth

/-!
# Routes out of the building

A route is a way out that never leads straight back. Where an exit can be reached at all it can be
reached by a route: a step that is undone by the next one can be left out together with it.
-/
namespace Egress.Network

variable {α : Type}

def Leaves (g : Network α) (v : VertexId) (e : EdgeId) : Prop :=
  ∃ edge, g.edge? e = some edge ∧ edge.source = v

def IsExit (g : Network α) (e : EdgeId) : Prop :=
  ∃ edge, g.edge? e = some edge ∧ edge.dest = none

/-- The second edge leaves the vertex that the first leads to, and does not lead back to where the
first comes from. -/
def Follows (g : Network α) (e e' : EdgeId) : Prop :=
  ∃ edge next, g.edge? e = some edge ∧ g.edge? e' = some next ∧
    edge.dest = some next.source ∧ next.dest ≠ some edge.source

/-- The ways out of the building from a vertex that never lead straight back. Edges that are
followed by others are no exits. -/
structure IsRoute (g : Network α) (v : VertexId) (es : List EdgeId) : Prop where
  first : ∃ e, es.head? = some e ∧ g.Leaves v e
  follows : es.IsChain g.Follows
  exit : ∃ e, es.getLast? = some e ∧ g.IsExit e

def Joins (g : Network α) (v w : VertexId) : Prop :=
  ∃ e edge, g.edge? e = some edge ∧ edge.source = v ∧ edge.dest = some w

def HasExit (g : Network α) (v : VertexId) : Prop :=
  ∃ w e, Relation.ReflTransGen g.Joins v w ∧ g.Leaves w e ∧ g.IsExit e

def weightOf [Scalar α] (g : Network α) (q : Point α) (e : EdgeId) : α :=
  match g.edge? e with
  | some edge => edge.weight q
  | none => 0

def doorCentre [Scalar α] (g : Network α) (e : EdgeId) : Point α :=
  match g.edge? e with
  | some edge => edge.line.centre
  | none => ⟨0, 0⟩

/-- Sum of the weights of the edges of a way, the first entered from `q` and each later one from the
centre of the door before it. -/
def wayCost [Scalar α] (g : Network α) : Point α → List EdgeId → α
  | _, [] => 0
  | q, e :: es => g.weightOf q e + wayCost g (g.doorCentre e) es

variable {g : Network α} {v w : VertexId} {e e' : EdgeId} {es : List EdgeId}

lemma IsRoute.leaves (h : g.IsRoute v (e :: es)) : g.Leaves v e := by
  obtain ⟨e', he', hv⟩ := h.first
  obtain rfl : e = e' := Option.some.inj he'
  exact hv

lemma IsRoute.isExit (h : g.IsRoute v [e]) : g.IsExit e := by
  obtain ⟨e', he', hexit⟩ := h.exit
  obtain rfl : e = e' := Option.some.inj he'
  exact hexit

lemma IsRoute.ne_nil (h : g.IsRoute v es) : es ≠ [] := by
  rintro rfl
  obtain ⟨e, he, -⟩ := h.first
  cases he

lemma isRoute_singleton (hv : g.Leaves v e) (he : g.IsExit e) : g.IsRoute v [e] :=
  ⟨⟨e, rfl, hv⟩, .singleton e, ⟨e, rfl, he⟩⟩

lemma IsRoute.cons (h : g.IsRoute w (e' :: es)) (hv : g.Leaves v e) (he : g.Follows e e') :
    g.IsRoute v (e :: e' :: es) :=
  ⟨⟨e, rfl, hv⟩, h.follows.cons_cons he, h.exit⟩

lemma IsRoute.tail (h : g.IsRoute v (e :: e' :: es)) :
    ∃ edge w, g.edge? e = some edge ∧ edge.source = v ∧ edge.dest = some w ∧
      g.IsRoute w (e' :: es) := by
  obtain ⟨hfollows, hchain⟩ := List.isChain_cons_cons.1 h.follows
  obtain ⟨edge, next, hedge, hnext, hdest, -⟩ := hfollows
  obtain ⟨edge', hedge', hv⟩ := h.leaves
  rw [hedge, Option.some.injEq] at hedge'
  subst hedge'
  exact ⟨edge, next.source, hedge, hv, hdest, ⟨⟨e', rfl, next, hnext, rfl⟩, hchain, h.exit⟩⟩

lemma IsRoute.eq_nil_of_isExit (h : g.IsRoute v (e :: es)) (he : g.IsExit e) : es = [] := by
  cases es with
  | nil => rfl
  | cons e' es =>
    obtain ⟨edge, w, hedge, -, hw, -⟩ := h.tail
    obtain ⟨edge', hedge', hnone⟩ := he
    rw [hedge, Option.some.injEq] at hedge'
    rw [← hedge', hw] at hnone
    cases hnone

lemma IsRoute.isRoute_dest {edge : Edge α} (h : g.IsRoute v (e :: es))
    (hedge : g.edge? e = some edge) (hdest : edge.dest = some w) : g.IsRoute w es := by
  cases es with
  | nil =>
    obtain ⟨edge', hedge', hnone⟩ := h.isExit
    rw [hedge, Option.some.injEq] at hedge'
    rw [← hedge', hdest] at hnone
    cases hnone
  | cons e' es =>
    obtain ⟨edge', w', hedge', -, hw', htail⟩ := h.tail
    rw [hedge, Option.some.injEq] at hedge'
    rw [← hedge', hdest, Option.some.injEq] at hw'
    exact hw' ▸ htail

lemma IsRoute.hasExit (h : g.IsRoute v es) : g.HasExit v := by
  induction es generalizing v with
  | nil => exact absurd rfl h.ne_nil
  | cons e es ih =>
    cases es with
    | nil => exact ⟨v, e, .refl, h.leaves, h.isExit⟩
    | cons e' es =>
      obtain ⟨edge, w, hedge, hv, hw, htail⟩ := h.tail
      obtain ⟨u, f, hreach, hf⟩ := ih htail
      exact ⟨u, f, .head ⟨e, edge, hedge, hv, hw⟩ hreach, hf⟩

/-- A route from where an edge leads either goes on behind it, or begins with the edge's way back,
after which there is a route from where the edge comes from. -/
lemma IsRoute.cons_or_back {edge : Edge α} (hedge : g.edge? e = some edge)
    (hdest : edge.dest = some w) (h : g.IsRoute w es) :
    g.IsRoute edge.source (e :: es) ∨
      ∃ f f' rest, es = f :: f' :: rest ∧ (∃ back, g.edge? f = some back) ∧
        g.IsRoute edge.source (f' :: rest) := by
  cases es with
  | nil => exact absurd rfl h.ne_nil
  | cons f es =>
    obtain ⟨next, hnext, hsource⟩ := h.leaves
    by_cases hback : next.dest = some edge.source
    · cases es with
      | nil =>
        obtain ⟨next', hnext', hexit⟩ := h.isExit
        rw [hnext, Option.some.injEq] at hnext'
        rw [← hnext', hback] at hexit
        cases hexit
      | cons f' rest =>
        obtain ⟨next', u, hnext', -, hu, htail⟩ := h.tail
        rw [hnext, Option.some.injEq] at hnext'
        rw [← hnext', hback, Option.some.injEq] at hu
        exact .inr ⟨f, f', rest, rfl, ⟨next, hnext⟩, hu ▸ htail⟩
    · refine .inl (h.cons ⟨edge, hedge, rfl⟩ ⟨edge, next, hedge, hnext, ?_, hback⟩)
      rw [hdest, hsource]

/-- A step to where a route starts makes a longer route, or is undone by its first edge. -/
lemma IsRoute.prepend (h : g.IsRoute w es) (hvw : g.Joins v w) : ∃ es, g.IsRoute v es := by
  obtain ⟨e, edge, hedge, rfl, hw⟩ := hvw
  rcases h.cons_or_back hedge hw with hlonger | ⟨f, f', rest, -, -, hshort⟩
  · exact ⟨_, hlonger⟩
  · exact ⟨_, hshort⟩

/-- An exit can be reached if and only if there is a route. -/
theorem exists_isRoute_iff : (∃ es, g.IsRoute v es) ↔ g.HasExit v := by
  constructor
  · intro hex
    obtain ⟨es, h⟩ := hex
    exact h.hasExit
  · intro hex
    obtain ⟨w, e, hreach, hw, hexit⟩ := hex
    induction hreach using Relation.ReflTransGen.head_induction_on with
    | refl => exact ⟨[e], isRoute_singleton hw hexit⟩
    | head hjoins _ ih =>
      obtain ⟨es, h⟩ := ih
      exact h.prepend hjoins

end Egress.Network
