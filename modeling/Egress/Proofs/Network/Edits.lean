import Egress.Proofs.Network.Building

/-!
# Edits of a network

Whatever is done to a network, in whatever order and whether it succeeds or not, keeps subrooms and
vertices in step and edges at their places, and adds to the end only: what is there stays as it
is, up to the factors that are written. An edit that is refused changes nothing.
-/
namespace Egress.Network

variable {α : Type}

/-- A network that has what another has, factors included. -/
structure Appends (g g' : Network α) : Prop where
  subroomAt : ∀ v s, g.subroomAt? v = some s → g'.subroomAt? v = some s
  edge : ∀ e edge, g.edge? e = some edge → g'.edge? e = some edge

theorem Appends.refl (g : Network α) : g.Appends g :=
  ⟨fun _ _ h => h, fun _ _ h => h⟩

theorem Appends.trans {g g' g'' : Network α} (h : g.Appends g') (h' : g'.Appends g'') :
    g.Appends g'' := by
  constructor
  · intro v s hv
    exact h'.subroomAt v s (h.subroomAt v s hv)
  · intro e edge he
    exact h'.edge e edge (h.edge e edge he)

theorem appends_addVertex (g : Network α) (s : SubRoomId) : g.Appends (g.addVertex s).1 := by
  refine ⟨(extends_addVertex g s).subroomAt, fun e edge he => ?_⟩
  rwa [edge?_addVertex]

lemma appends_pushEdge (g : Network α) (v : VertexId) (dest : Option VertexId) (uid : DoorId)
    (line : Segment α) (distance : α) : g.Appends (g.pushEdge v dest uid line distance).1 := by
  refine ⟨(extends_pushEdge g v dest uid line distance).subroomAt, fun e edge he => ?_⟩
  rwa [edge?_pushEdge, if_neg (lt_of_edge? he).ne]

variable [Scalar α] {g g' : Network α} {b : Building α} {s : SubRoomId} {uid : DoorId} {e : EdgeId}

theorem WellFormed.appends_addEdge (hg : g.WellFormed) (h : g.addEdge b s uid = .ok (g', e)) :
    g.Appends g' := by
  rcases addEdge_cases h with ⟨-, rfl⟩ | ⟨-, door, side, -, -, -, hpush⟩
  · exact .refl g'
  · obtain ⟨-, hext, hedges, -⟩ := hg.withEnds s side
    obtain rfl : g' = _ := congrArg Prod.fst hpush
    have hends : g.Appends (Network.withEnds g s side).1 := by
      refine ⟨hext.subroomAt, fun e' edge he => ?_⟩
      rwa [hedges]
    exact hends.trans (appends_pushEdge _ _ _ _ _ _)

/-- What can be done to a network. Each time a building of its own may be looked at. -/
inductive Edit (α : Type) where
  | addVertex (s : SubRoomId)
  | addEdge (b : Building α) (s : SubRoomId) (uid : DoorId)
  | addSubRoomDoors (b : Building α) (s : SubRoomId)
  | writeFactors (e : EdgeId) (f : FactorBag α → FactorBag α)

/-- What an edit makes of a network, and how it ends. -/
def edit (g : Network α) : Edit α → Network α × Except NetworkError Unit
  | .addVertex s => ((g.addVertex s).1, .ok ())
  | .addEdge b s uid => g.addEdges b s [uid]
  | .addSubRoomDoors b s =>
    ((g.addSubRoomDoors b s).1, (g.addSubRoomDoors b s).2.map fun _ => ())
  | .writeFactors e f => (g.writeFactors e f, .ok ())

/-- The network that several edits make of the empty one. -/
def afterEdits (edits : List (Edit α)) : Network α :=
  edits.foldl (fun g edit => (g.edit edit).1) empty

/-- The network that several edits make of another one. -/
def editAll (g : Network α) (edits : List (Edit α)) : Network α :=
  edits.foldl (fun g edit => (g.edit edit).1) g

/-- The edit writes no factors. -/
def Edit.IsAddition : Edit α → Prop
  | .writeFactors _ _ => False
  | _ => True

theorem Grown.edit (hg : g.Grown) (edit : Edit α) : (g.edit edit).1.Grown := by
  cases edit with
  | addVertex s => exact hg.addVertex s
  | addEdge b s uid =>
    refine addEdges_induction ?_ [uid] hg
    intro g g' uid e hg h
    exact hg.addEdge b s uid e h
  | addSubRoomDoors b s => exact hg.addSubRoomDoors b s
  | writeFactors e f => exact hg.writeFactors e f

theorem WellFormed.edit (hg : g.WellFormed) (edit : Edit α) : (g.edit edit).1.WellFormed := by
  cases edit with
  | addVertex s => exact hg.addVertex s
  | addEdge b s uid =>
    refine addEdges_induction ?_ [uid] hg
    intro g g' uid e hg h
    exact (hg.addEdge h).1
  | addSubRoomDoors b s => exact hg.addSubRoomDoors.1
  | writeFactors e f => exact hg.reweigh (reweighs_writeFactors g e f)

theorem grown_afterEdits (edits : List (Edit α)) : (afterEdits edits).Grown := by
  unfold afterEdits
  refine List.foldlRecOn (motive := fun g : Network α => g.Grown) edits _ .empty ?_
  intro g hg edit _
  exact hg.edit edit

theorem WellFormed.appends_edit (hg : g.WellFormed) {edit : Edit α} (h : edit.IsAddition) :
    g.Appends (g.edit edit).1 := by
  have hstep (b : Building α) (s : SubRoomId) (g₁ g₂ : Network α) (uid : DoorId) (e : EdgeId)
      (h₁ : g₁.WellFormed ∧ g.Appends g₁) (hadd : g₁.addEdge b s uid = .ok (g₂, e)) :
      g₂.WellFormed ∧ g.Appends g₂ :=
    ⟨(h₁.1.addEdge hadd).1, h₁.2.trans (h₁.1.appends_addEdge hadd)⟩
  cases edit with
  | addVertex s => exact appends_addVertex g s
  | addEdge b s uid =>
    exact (addEdges_induction (P := fun g' => g'.WellFormed ∧ g.Appends g') (hstep b s) [uid]
      ⟨hg, .refl g⟩).2
  | addSubRoomDoors b s =>
    refine (addSubRoomDoors_induction (P := fun g' => g'.WellFormed ∧ g.Appends g') ?_
      (hstep b s) ⟨hg, .refl g⟩).2
    intro sub _ _
    exact ⟨hg.addVertex s, appends_addVertex g s⟩
  | writeFactors e f => exact absurd h id

theorem WellFormed.extends_edit (hg : g.WellFormed) (edit : Edit α) :
    g.Extends (g.edit edit).1 := by
  by_cases h : edit.IsAddition
  · obtain ⟨hsubroom, hedge⟩ := hg.appends_edit h
    exact ⟨hsubroom, fun e edge he => ⟨edge.factors, hedge e edge he⟩⟩
  · cases edit with
    | writeFactors e f => exact (reweighs_writeFactors g e f).extends
    | _ => exact absurd trivial h

/-- Whatever is done to a network, what it had is still there. -/
theorem WellFormed.editAll (hg : g.WellFormed) (edits : List (Edit α)) :
    (g.editAll edits).WellFormed ∧ g.Extends (g.editAll edits) := by
  induction edits generalizing g with
  | nil => exact ⟨hg, .refl g⟩
  | cons edit edits ih =>
    obtain ⟨hwf, hext⟩ := ih (hg.edit edit)
    exact ⟨hwf, (hg.extends_edit edit).trans hext⟩

/-- An edge that cannot be added changes nothing. -/
lemma edit_addEdge_of_error {err : NetworkError}
    (h : (g.edit (.addEdge b s uid)).2 = .error err) : (g.edit (.addEdge b s uid)).1 = g := by
  simp only [edit, addEdges] at h ⊢
  split at h
  · cases h
  · rfl

lemma edit_addSubRoomDoors_of_unknown (h : b.subroom? s = none) :
    g.edit (.addSubRoomDoors b s) = (g, .error (.building (.unknownSubRoom s))) := by
  have hsub : b.subroom s = .error (.unknownSubRoom s) := by rw [Building.subroom, h]
  simp only [edit, addSubRoomDoors, hsub]
  rfl

/-- However a network has been edited, it is well formed and one edge leads through a door out of a
subroom. Whatever is done next adds to it without changing what is there but for factors that are
written, and nothing at all if an edge or an unknown subroom is refused; the doors of a known
subroom of a building are never refused. -/
theorem afterEdits_appendOnly (edits : List (Edit α)) :
    let g := afterEdits edits
    g.WellFormed ∧
    (∀ s e e' edge edge', g.edge? e = some edge → g.edge? e' = some edge' →
      g.subroomAt? edge.source = some s → g.subroomAt? edge'.source = some s →
      edge.door = edge'.door → e = e') ∧
    (∀ edit : Edit α, g.Extends (g.edit edit).1 ∧
      (edit.IsAddition → g.Appends (g.edit edit).1)) ∧
    (∀ (b : Building α) s uid err, (g.edit (.addEdge b s uid)).2 = .error err →
      (g.edit (.addEdge b s uid)).1 = g) ∧
    (∀ (b : Building α) s, b.subroom? s = none →
      g.edit (.addSubRoomDoors b s) = (g, .error (.building (.unknownSubRoom s)))) ∧
    ∀ (b : Building α) s, b.Made → (∃ sub, b.subroom? s = some sub) →
      (g.edit (.addSubRoomDoors b s)).2 = .ok () := by
  intro g
  have hg : g.WellFormed := (grown_afterEdits edits).wellFormed
  refine ⟨hg, ?_, fun edit => ⟨hg.extends_edit edit, hg.appends_edit⟩,
    fun _ _ _ _ => edit_addEdge_of_error, fun _ _ => edit_addSubRoomDoors_of_unknown, ?_⟩
  · intro s e e' edge edge' he he' hs hs' hdoor
    have hsource : edge.source = edge'.source := by
      rw [← hg.vertexOf_iff] at hs hs'
      exact Option.some.inj (hs.symm.trans hs')
    exact hg.unique e e' edge edge' he he' hsource hdoor
  · intro b s hb hs
    obtain ⟨n, hn, -⟩ := hg.addSubRoomDoors_spec hb.wellFormed hs
    simp only [edit, hn]
    rfl

end Egress.Network
