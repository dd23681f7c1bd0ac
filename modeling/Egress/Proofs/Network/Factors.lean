import Egress.Proofs.Network.Growth

/-!
# The factors of a network

A factor is written under one name and with one time, and leaves the factors of other names as they
are. Edges that are added have none, so neither has the complete network of a building.
-/
namespace Egress.Network

variable {α : Type}

def factor? (g : Network α) (e : EdgeId) (name : String) : Option (Factor α) :=
  (g.edge? e).bind (·.factors.find? name)

/-- An edge is without factors if none of them can be found. -/
lemma factors_eq_empty {g : Network α} {e : EdgeId} {edge : Edge α}
    (he : g.edge? e = some edge) (h : ∀ name, g.factor? e name = none) :
    edge.factors = .empty := by
  refine OrderedMap.ext_find? fun name => ?_
  have hnone := h name
  rw [factor?, he] at hnone
  exact hnone

theorem Reweighs.ext {g g₁ g₂ : Network α} (h₁ : g.Reweighs g₁) (h₂ : g.Reweighs g₂)
    (h : ∀ e name, g₁.factor? e name = g₂.factor? e name) : g₁ = g₂ := by
  have hedges : g₁.edges = g₂.edges := by
    apply Array.ext_getElem?
    intro e
    obtain ⟨bag₁, hbag₁⟩ := h₁.edge e
    obtain ⟨bag₂, hbag₂⟩ := h₂.edge e
    cases he : g.edge? e with
    | none =>
      rw [he, Option.map_none] at hbag₁ hbag₂
      exact hbag₁.trans hbag₂.symm
    | some edge =>
      rw [he, Option.map_some] at hbag₁ hbag₂
      have hbag : bag₁ = bag₂ := by
        apply OrderedMap.ext_find?
        intro name
        have hname := h e name
        rw [factor?, factor?, hbag₁, hbag₂] at hname
        exact hname
      rw [hbag] at hbag₁
      exact hbag₁.trans hbag₂.symm
  have hvertices := h₁.vertices_eq.trans h₂.vertices_eq.symm
  have hvertexOf := h₁.vertexOf_eq.trans h₂.vertexOf_eq.symm
  cases g₁
  cases g₂
  simp only [Network.mk.injEq]
  exact ⟨hvertices, hedges, hvertexOf⟩

/-- The two networks have the same factors, except that in the second some of the given name may
have been written at the given time. -/
def Updates (g g' : Network α) (name : String) (time : α) : Prop :=
  ∀ e other, g'.factor? e other = g.factor? e other ∨
    other = name ∧ ∃ v, g'.factor? e other = some ⟨v, time⟩

theorem Updates.refl (g : Network α) (name : String) (time : α) : g.Updates g name time :=
  fun _ _ => .inl rfl

theorem Updates.trans {g g' g'' : Network α} {name : String} {time : α}
    (h : g.Updates g' name time) (h' : g'.Updates g'' name time) : g.Updates g'' name time := by
  intro e other
  rcases h' e other with heq | hnew
  · rw [heq]
    exact h e other
  · exact .inr hnew

variable (g : Network α) (name : String) (time : α)

/-- Changing edges in nothing but the named factor updates a network. -/
lemma updates_of_edges {g g' : Network α} {f : EdgeId → Edge α → Edge α}
    (hedge : ∀ e, g'.edge? e = (g.edge? e).map (f e))
    (hf : ∀ e edge other, (f e edge).factors.find? other = edge.factors.find? other ∨
      other = name ∧ ∃ v, (f e edge).factors.find? other = some ⟨v, time⟩) :
    g.Updates g' name time := by
  intro e other
  rw [factor?, factor?, hedge]
  cases g.edge? e with
  | none => exact .inl rfl
  | some edge => exact hf e edge other

lemma find?_setFactor (edge : Edge α) (value : α) (other : String) :
    (edge.setFactor name value time).factors.find? other = edge.factors.find? other ∨
      other = name ∧ (edge.setFactor name value time).factors.find? other =
        some ⟨value, time⟩ := by
  unfold Edge.setFactor
  by_cases h : other = name
  · subst h
    exact .inr ⟨rfl, OrderedMap.find?_insert_self _ _ _⟩
  · exact .inl (OrderedMap.find?_insert_of_ne _ h _)

lemma edge?_setFactor [Scalar α] (e e' : EdgeId) (value : α) :
    (g.setFactor name time e value).edge? e' = if e = e' then
      (g.edge? e').map (·.setFactor name value time) else g.edge? e' :=
  Array.getElem?_modify

lemma updates_setFactor [Scalar α] (e : EdgeId) (value : α) :
    g.Updates (g.setFactor name time e value) name time := by
  refine updates_of_edges name time
    (f := fun e' edge => if e = e' then edge.setFactor name value time else edge) ?_ ?_
  · intro e'
    rw [edge?_setFactor]
    split
    · rfl
    · simp
  · intro e' edge other
    split
    · exact (find?_setFactor name time edge value other).imp_right fun h => ⟨h.1, value, h.2⟩
    · exact .inl rfl

theorem updates_setFactors [Scalar α] (values : List (EdgeId × α)) :
    g.Updates (g.setFactors name time values) name time := by
  unfold setFactors
  refine List.foldlRecOn (motive := fun g' => g.Updates g' name time) values _
    (.refl g name time) ?_
  intro g' hg' v _
  exact hg'.trans (updates_setFactor g' name time v.1 v.2)

lemma factor?_setFactor_self [Scalar α] {e : EdgeId} {edge : Edge α} (he : g.edge? e = some edge)
    (value : α) : (g.setFactor name time e value).factor? e name = some ⟨value, time⟩ := by
  rw [factor?, edge?_setFactor, if_pos rfl, he]
  exact OrderedMap.find?_insert_self _ _ _

lemma factor?_setFactor_of_ne [Scalar α] {e e' : EdgeId} (h : e' ≠ e) (value : α)
    (other : String) : (g.setFactor name time e' value).factor? e other = g.factor? e other := by
  rw [factor?, edge?_setFactor, if_neg h, factor?]

theorem exists_factor?_setFactors [Scalar α] {values : List (EdgeId × α)} {e : EdgeId} {v : α}
    {edge : Edge α} (he : g.edge? e = some edge) (hv : (e, v) ∈ values) :
    ∃ v, (e, v) ∈ values ∧
      (g.setFactors name time values).factor? e name = some ⟨v, time⟩ := by
  -- from the end, for what has been written last is what stays
  induction values using List.reverseRecOn with
  | nil => cases hv
  | append_singleton values last ih =>
    obtain ⟨e', v'⟩ := last
    have hlast : g.setFactors name time (values ++ [(e', v')]) =
        (g.setFactors name time values).setFactor name time e' v' := by
      rw [setFactors, List.foldl_concat, setFactors]
    rw [hlast]
    by_cases h : e' = e
    · subst h
      obtain ⟨bag, hbag⟩ := (reweighs_setFactors name time values g).extends.edge e' edge he
      exact ⟨v', List.mem_append_right values List.mem_cons_self,
        factor?_setFactor_self _ name time hbag v'⟩
    · have hbefore : (e, v) ∈ values := by simpa [Ne.symm h] using hv
      obtain ⟨w, hw, hfactor⟩ := ih hbefore
      exact ⟨w, List.mem_append_left _ hw,
        (factor?_setFactor_of_ne _ name time h v' name).trans hfactor⟩

/-- Where each entry of a list has been found for the edge with its number, what is written for an
edge has been found for that edge. -/
theorem exists_found_setFactors [Scalar α] {g : Network α} (hg : g.WellFormed)
    {R : Edge α → α → Prop} {values : List (EdgeId × α)}
    (hfound : ∀ y ∈ values, ∃ edge ∈ g.edges.toList, edge.id = y.1 ∧ R edge y.2)
    {e : EdgeId} {edge : Edge α} (he : g.edge? e = some edge) {v : α} (hv : (e, v) ∈ values)
    (name : String) (time : α) :
    ∃ v, R edge v ∧ (g.setFactors name time values).factor? e name = some ⟨v, time⟩ := by
  obtain ⟨w, hw, hwritten⟩ := exists_factor?_setFactors g name time he hv
  obtain ⟨edge', hmem, hid, hfor⟩ := hfound (e, w) hw
  -- the number tells which edge it is
  obtain ⟨e', he'⟩ := Array.mem_iff_getElem?.1 (Array.mem_toList_iff.1 hmem)
  obtain rfl : e' = e := (hg.id_eq e' edge' he').symm.trans hid
  obtain rfl : edge = edge' := Option.some.inj (he.symm.trans he')
  exact ⟨w, hfor, hwritten⟩

/-- What is written does not depend on the factors of other names that there are. -/
theorem factor?_setFactors_congr [Scalar α] {g g' : Network α} {name : String}
    (h : g.Reweighs g') (hown : ∀ e, g'.factor? e name = g.factor? e name) (time : α)
    (values : List (EdgeId × α)) (e : EdgeId) :
    (g'.setFactors name time values).factor? e name =
      (g.setFactors name time values).factor? e name := by
  induction values using List.reverseRecOn with
  | nil => exact hown e
  | append_singleton values last ih =>
    have hlast (g : Network α) : g.setFactors name time (values ++ [last]) =
        (g.setFactors name time values).setFactor name time last.1 last.2 := by
      rw [setFactors, List.foldl_concat, setFactors]
    rw [hlast, hlast]
    by_cases hmem : last.1 = e
    · have hwritten (g : Network α) : ((g.setFactors name time values).setFactor name time last.1
          last.2).factor? e name = (g.edge? e).map fun _ => ⟨last.2, time⟩ := by
        obtain ⟨bag, hbag⟩ := (reweighs_setFactors name time values g).edge e
        cases he : g.edge? e with
        | none => rw [factor?, edge?_setFactor, if_pos hmem, hbag, he]; rfl
        | some edge =>
          rw [he] at hbag
          exact hmem ▸ factor?_setFactor_self _ name time (hmem ▸ hbag) last.2
      obtain ⟨bag, hbag⟩ := h.edge e
      rw [hwritten, hwritten, hbag, Option.map_map]
      rfl
    · rw [factor?_setFactor_of_ne _ name time hmem, factor?_setFactor_of_ne _ name time hmem, ih]

lemma edge?_setFactors_of_not_mem [Scalar α] {values : List (EdgeId × α)} {e : EdgeId}
    (h : ∀ v ∈ values, v.1 ≠ e) : (g.setFactors name time values).edge? e = g.edge? e := by
  induction values generalizing g with
  | nil => rfl
  | cons v values ih =>
    obtain ⟨hv, hvalues⟩ := List.forall_mem_cons.1 h
    have hhead : g.setFactors name time (v :: values) =
        (g.setFactor name time v.1 v.2).setFactors name time values := rfl
    rw [hhead, ih _ hvalues, edge?_setFactor, if_neg hv]

/-- The two networks differ in factors of one name only, and where they do, in values that are
related by `R`. -/
structure Differs (g g' : Network α) (name : String) (R : α → α → Prop) : Prop where
  reweighs : g.Reweighs g'
  factor : ∀ e, g'.factor? e name = g.factor? e name ∨ ∃ v v' time, R v v' ∧
    g.factor? e name = some ⟨v, time⟩ ∧ g'.factor? e name = some ⟨v', time⟩
  others : ∀ e other, other ≠ name → g'.factor? e other = g.factor? e other

theorem Differs.refl (g : Network α) (name : String) (R : α → α → Prop) : g.Differs g name R :=
  ⟨.refl g, fun _ => .inl rfl, fun _ _ _ => rfl⟩

section
variable [Scalar α] {g g' : Network α} {name : String} {R : α → α → Prop}

lemma Differs.setFactor (h : g.Differs g' name R) (time : α) (e : EdgeId) {v v' : α} (hv : R v v') :
    (g.setFactor name time e v).Differs (g'.setFactor name time e v') name R := by
  have hothers (g : Network α) (v : α) (e' : EdgeId) (other : String) (hother : other ≠ name) :
      (g.setFactor name time e v).factor? e' other = g.factor? e' other :=
    (updates_setFactor g name time e v e' other).resolve_right fun hnew => hother hnew.1
  refine ⟨(reweighs_setFactor g name time e v).symm.trans
    (h.reweighs.trans (reweighs_setFactor g' name time e v')), fun e' => ?_, ?_⟩
  · by_cases he : e = e'
    · subst he
      cases hedge : g.edge? e with
      | none =>
        obtain ⟨bag, hbag⟩ := h.reweighs.edge e
        have hnone (g : Network α) (hedge : g.edge? e = none) (v : α) :
            (g.setFactor name time e v).factor? e name = none := by
          rw [factor?, edge?_setFactor, if_pos rfl, hedge]
          rfl
        rw [hedge, Option.map_none] at hbag
        exact .inl ((hnone g' hbag v').trans (hnone g hedge v).symm)
      | some edge =>
        obtain ⟨bag, hbag⟩ := h.reweighs.extends.edge e edge hedge
        exact .inr ⟨v, v', time, hv, factor?_setFactor_self g name time hedge v,
          factor?_setFactor_self g' name time hbag v'⟩
    · rw [factor?_setFactor_of_ne g name time he, factor?_setFactor_of_ne g' name time he]
      exact h.factor e'
  · intro e' other hother
    rw [hothers g' v' e' other hother, hothers g v e' other hother]
    exact h.others e' other hother

/-- Networks to which related lists are written differ as the lists do. -/
theorem Differs.setFactors (h : g.Differs g' name R) (time : α) {values values' : List (EdgeId × α)}
    (hvalues : List.Forall₂ (fun y y' => y.1 = y'.1 ∧ R y.2 y'.2) values values') :
    (g.setFactors name time values).Differs (g'.setFactors name time values') name R := by
  induction hvalues generalizing g g' with
  | nil => exact h
  | @cons y y' _ _ hy _ ih =>
    obtain ⟨e, v⟩ := y
    obtain ⟨e', v'⟩ := y'
    obtain ⟨rfl, hv⟩ : e = e' ∧ R v v' := hy
    exact ih (h.setFactor time e hv)

end

lemma factor?_addVertex (s : SubRoomId) (e : EdgeId) :
    (g.addVertex s).1.factor? e name = g.factor? e name := by
  rw [factor?, edge?_addVertex, factor?]

lemma factor?_pushEdge (v : VertexId) (dest : Option VertexId) (uid : DoorId)
    (line : Segment α) (distance : α) (e : EdgeId) :
    (g.pushEdge v dest uid line distance).1.factor? e name = g.factor? e name := by
  rw [factor?, factor?, edge?_pushEdge]
  split
  · rename_i h
    have hnone : g.edge? e = none := Array.getElem?_eq_none h.ge
    rw [hnone]
    rfl
  · rfl

variable [Scalar α] {g} {g' : Network α} {b : Building α} {s : SubRoomId}

lemma factor?_addEdge {uid : DoorId} {e : EdgeId} (h : g.addEdge b s uid = .ok (g', e))
    (e' : EdgeId) : g'.factor? e' name = g.factor? e' name := by
  rcases addEdge_cases h with ⟨-, rfl⟩ | ⟨-, door, side, -, -, -, hpush⟩
  · rfl
  · obtain rfl : g' = _ := congrArg Prod.fst hpush
    rw [factor?_pushEdge]
    cases side with
    | none => exact factor?_addVertex g name s e'
    | some t => exact (factor?_addVertex _ name t e').trans (factor?_addVertex g name s e')

theorem factor?_addSubRoomDoors (g : Network α) (b : Building α) (s : SubRoomId) (e : EdgeId) :
    (g.addSubRoomDoors b s).1.factor? e name = g.factor? e name := by
  refine addSubRoomDoors_induction
    (P := fun g' : Network α => g'.factor? e name = g.factor? e name) ?_ ?_ rfl
  · intro _ _ h
    exact (factor?_addVertex g name s e).trans h
  · intro g₁ g₂ uid e' h h'
    exact (factor?_addEdge name h' e).trans h

/-- What additions keep of networks holds of the complete network of a building. -/
theorem ofBuilding_induction {P : Network α → Prop} (hempty : P empty)
    (hvertex : ∀ g s, P g → P (g.addVertex s).1)
    (hdoors : ∀ g s, P g → P (g.addSubRoomDoors b s).1) (h : ofBuilding b = .ok g) : P g := by
  have hall (ss : List SubRoomId) (g₁ : Network α) (h₁ : P g₁)
      (h : g₁.addAllDoors b ss = .ok g) : P g := by
    induction ss generalizing g₁ with
    | nil =>
      obtain rfl := Except.ok.inj h
      exact h₁
    | cons s ss ih =>
      unfold addAllDoors at h
      have hs := hdoors g₁ s h₁
      split at h
      · rename_i hadd
        rw [hadd] at hs
        exact ih _ hs h
      · cases h
  refine hall _ _ ?_ h
  refine List.foldlRecOn (motive := P) _ _ hempty ?_
  intro g₁ h₁ s _
  exact hvertex g₁ s h₁

theorem grown_ofBuilding (h : ofBuilding b = .ok g) : g.Grown :=
  ofBuilding_induction .empty (fun _ s hg => hg.addVertex s)
    (fun _ s hg => hg.addSubRoomDoors b s) h

theorem factors_ofBuilding (h : ofBuilding b = .ok g) {e : EdgeId} {edge : Edge α}
    (he : g.edge? e = some edge) : edge.factors = .empty := by
  refine factors_eq_empty he fun name => ?_
  refine ofBuilding_induction (P := fun g : Network α => g.factor? e name = none) rfl ?_ ?_ h
  · intro g s hg
    rw [factor?_addVertex, hg]
  · intro g s hg
    rw [factor?_addSubRoomDoors, hg]

end Egress.Network
