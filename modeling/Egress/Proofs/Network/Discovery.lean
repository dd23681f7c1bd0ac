import Egress.Proofs.Network.Building

/-!
# Discovering a building

Doors are discovered one subroom after another. A network in which every subroom has been looked
around in once is complete: it has a vertex for each subroom and an edge for each open door out of
it. Looking around again where all is known changes nothing.
-/
namespace Egress.Network

variable {α : Type} {b : Building α} {g g' : Network α} {s : SubRoomId} {ss : List SubRoomId}

/-- All edges leave listed subrooms, of which all open doors are known. -/
structure Explored (g : Network α) (b : Building α) (ss : List SubRoomId) : Prop where
  wellFormed : g.WellFormed
  source : ∀ e edge s, g.edge? e = some edge → g.subroomAt? edge.source = some s →
    s ∈ ss ∧ g.Knows b s

theorem explored_empty (b : Building α) (ss : List SubRoomId) :
    (empty : Network α).Explored b ss :=
  ⟨wellFormed_empty, nofun⟩

lemma Explored.mono {ss' : List SubRoomId} (h : g.Explored b ss) (hsub : ss ⊆ ss') :
    g.Explored b ss' :=
  ⟨h.wellFormed, fun e edge s hedge hs => (h.source e edge s hedge hs).imp_left (@hsub s)⟩

theorem Explored.reweigh (h : g.Explored b ss) (hw : g.Reweighs g') : g'.Explored b ss := by
  refine ⟨h.wellFormed.reweigh hw, fun e edge s hedge hs => ?_⟩
  obtain ⟨old, bag, hold, rfl⟩ := hw.exists_edge? hedge
  rw [hw.subroomAt?_eq] at hs
  exact (h.source e old s hold hs).imp_right (·.extend hw.extends)

variable [Scalar α]

lemma addSubRoomDoors_of_unknown (hs : b.subroom? s = none) (g : Network α) :
    (g.addSubRoomDoors b s).1 = g := by
  unfold addSubRoomDoors Building.subroom
  simp only [hs]

lemma exists_subroomAt?_addSubRoomDoors (hg : g.WellFormed)
    (hs : ∃ sub, b.subroom? s = some sub) :
    ∃ v, (g.addSubRoomDoors b s).1.subroomAt? v = some s := by
  obtain ⟨sub, hsub⟩ := hs
  have hg₁ := hg.addVertex s
  have hfirst := (hg₁.vertexOf_iff s _).1 (find?_addVertex_self g s)
  simp only [addSubRoomDoors, Building.subroom_eq_ok_iff.2 hsub]
  refine (addEdges_induction (P := fun g' => g'.WellFormed ∧ ∃ v, g'.subroomAt? v = some s) ?_ _
    ⟨hg₁, _, hfirst⟩).2
  intro g₁ g₂ uid e h hadd
  obtain ⟨hg₁, v, hv⟩ := h
  obtain ⟨hg₂, hext⟩ := hg₁.addEdge hadd
  exact ⟨hg₂, v, hext.subroomAt v s hv⟩

lemma addEdge_leaves (hg : g.WellFormed) {uid : DoorId} {e e' : EdgeId} {edge : Edge α}
    (hadd : g.addEdge b s uid = .ok (g', e)) (h : g'.edge? e' = some edge) :
    g.edge? e' = some edge ∨ g'.subroomAt? edge.source = some s := by
  rcases addEdge_cases hadd with ⟨-, rfl⟩ | ⟨-, d, side, -, -, -, hpush⟩
  · exact .inl h
  · obtain ⟨-, -, hedges, hsource, -⟩ := hg.withEnds s side
    obtain rfl : g' = _ := congrArg Prod.fst hpush
    rw [edge?_pushEdge] at h
    split at h
    · rw [← Option.some.inj h, subroomAt?_pushEdge]
      exact .inr hsource
    · rw [hedges] at h
      exact .inl h

/-- All that looking around adds leaves the subroom that is looked around in. -/
theorem addSubRoomDoors_leaves (hg : g.WellFormed) {e : EdgeId} {edge : Edge α}
    (h : (g.addSubRoomDoors b s).1.edge? e = some edge) :
    g.edge? e = some edge ∨ (g.addSubRoomDoors b s).1.subroomAt? edge.source = some s := by
  refine (addSubRoomDoors_induction (b := b) (s := s) (P := fun g' => g'.WellFormed ∧
    ∀ e edge, g'.edge? e = some edge → g.edge? e = some edge ∨
      g'.subroomAt? edge.source = some s) ?_ ?_ ⟨hg, fun e edge => .inl⟩).2 e edge h
  · intro sub _ ⟨hg₁, hold⟩
    refine ⟨hg₁.addVertex s, fun e edge hedge => ?_⟩
    rw [edge?_addVertex] at hedge
    exact (hold e edge hedge).imp_right ((extends_addVertex _ s).subroomAt _ s)
  · intro g₁ g₂ uid e' ⟨hg₁, hold⟩ hadd
    obtain ⟨hg₂, hext⟩ := hg₁.addEdge hadd
    refine ⟨hg₂, fun e edge hedge => ?_⟩
    rcases addEdge_leaves hg₁ hadd hedge with hbefore | hnew
    · exact (hold e edge hbefore).imp_right (hext.subroomAt _ s)
    · exact .inr hnew

/-- Nothing is added for doors that are shown. -/
lemma addEdges_of_shows (hg : g.WellFormed) {ds : List DoorId} (hds : ∀ uid ∈ ds, g.Shows s uid) :
    g.addEdges b s ds = (g, .ok ()) := by
  induction ds with
  | nil => rfl
  | cons uid ds ih =>
    obtain ⟨e, he⟩ := (hds uid List.mem_cons_self).exists_edgeThrough? hg
    have hsame : g.addEdge b s uid = .ok (g, e) := by simp only [addEdge, he]
    simp only [addEdges, hsame]
    exact ih fun uid' huid' => hds uid' (List.mem_cons_of_mem uid huid')

theorem addSubRoomDoors_of_knows (hg : g.WellFormed) (hb : b.WellFormed)
    (hs : ∃ sub, b.subroom? s = some sub) (hv : ∃ v, g.subroomAt? v = some s)
    (hknows : g.Knows b s) : g.addSubRoomDoors b s = (g, .ok 0) := by
  obtain ⟨sub, hsub⟩ := hs
  obtain ⟨v, hv⟩ := hv
  have hvertex : (g.addVertex s).1 = g := by
    simp only [addVertex, (hg.vertexOf_iff s v).2 hv]
  have hdoors := addEdges_of_shows (b := b) hg fun uid huid => hknows uid (hb.mem_openDoors.1 huid)
  simp only [addSubRoomDoors, Building.subroom_eq_ok_iff.2 hsub, hvertex, hdoors, Nat.sub_self]
  rfl

/-- Whoever has looked around discovers nothing more in the subroom. -/
theorem addSubRoomDoors_again (hg : g.WellFormed) (hb : b.WellFormed)
    (hs : ∃ sub, b.subroom? s = some sub) :
    (g.addSubRoomDoors b s).1.addSubRoomDoors b s = ((g.addSubRoomDoors b s).1, .ok 0) := by
  obtain ⟨hg', -⟩ := hg.addSubRoomDoors (b := b) (s := s)
  obtain ⟨-, -, hknows⟩ := hg.addSubRoomDoors_spec hb hs
  exact addSubRoomDoors_of_knows hg' hb hs (exists_subroomAt?_addSubRoomDoors hg hs) hknows

/-- Looking around in a subroom explores it. -/
theorem Explored.addSubRoomDoors (h : g.Explored b ss) (hb : b.WellFormed) (s : SubRoomId) :
    (g.addSubRoomDoors b s).1.Explored b (s :: ss) := by
  cases hsub : b.subroom? s with
  | none =>
    rw [addSubRoomDoors_of_unknown hsub]
    exact h.mono (List.subset_cons_self s ss)
  | some sub =>
    obtain ⟨hg', hext⟩ := h.wellFormed.addSubRoomDoors (b := b) (s := s)
    obtain ⟨-, -, hknows⟩ := h.wellFormed.addSubRoomDoors_spec hb ⟨sub, hsub⟩
    refine ⟨hg', fun e edge t hedge ht => ?_⟩
    rcases addSubRoomDoors_leaves h.wellFormed hedge with hold | hnew
    · obtain ⟨t', ht'⟩ := h.wellFormed.exists_subroomAt?_source hold
      obtain rfl : t' = t := Option.some.inj ((hext.subroomAt _ t' ht').symm.trans ht)
      obtain ⟨hmem, hknown⟩ := h.source e edge t' hold ht'
      exact ⟨List.mem_cons_of_mem s hmem, hknown.extend hext⟩
    · obtain rfl : s = t := Option.some.inj (hnew.symm.trans ht)
      exact ⟨List.mem_cons_self, hknows⟩

/-- The open doors of a subroom through which no edge leads out of it. -/
def unseenDoors (g : Network α) (b : Building α) (s : SubRoomId) : Set DoorId :=
  {uid | b.OpensFrom s uid ∧ ¬g.Shows s uid}

omit [Scalar α] in
/-- An edge that was there before leaves the subroom that it left then. -/
lemma WellFormed.shows_of_lt (hg : g.WellFormed) (hext : g.Extends g') {e : EdgeId}
    {edge : Edge α} (he : e < g.edges.size) (hedge : g'.edge? e = some edge)
    (hs : g'.subroomAt? edge.source = some s) : g.Shows s edge.door := by
  obtain ⟨old, hold⟩ := exists_edge? he
  obtain ⟨bag, hbag⟩ := hext.edge e old hold
  obtain rfl : old.withFactors bag = edge := Option.some.inj (hbag.symm.trans hedge)
  obtain ⟨t, ht⟩ := hg.exists_subroomAt?_source hold
  obtain rfl : t = s := Option.some.inj ((hext.subroomAt _ t ht).symm.trans hs)
  exact ⟨e, old, hold, ht, rfl⟩

omit [Scalar α] in
lemma WellFormed.shows_addVertex (hg : g.WellFormed) {t : SubRoomId} {uid : DoorId} :
    (g.addVertex t).1.Shows s uid ↔ g.Shows s uid := by
  have hext := extends_addVertex g t
  refine ⟨fun h => ?_, fun h => h.extend hext⟩
  obtain ⟨e, edge, hedge, hs, rfl⟩ := h
  have hlt := lt_of_edge? hedge
  rw [edges_addVertex] at hlt
  exact hg.shows_of_lt hext hlt hedge hs

/-- A door that is not shown takes one more edge, which shows no other door. -/
lemma WellFormed.addEdge_new (hg : g.WellFormed) {uid : DoorId} {e : EdgeId}
    (hnew : ¬g.Shows s uid) (hadd : g.addEdge b s uid = .ok (g', e)) :
    g'.edges.size = g.edges.size + 1 ∧
      ∀ other, other ≠ uid → (g'.Shows s other ↔ g.Shows s other) := by
  obtain ⟨-, hext⟩ := hg.addEdge hadd
  rcases addEdge_cases hadd with ⟨hold, -⟩ | ⟨-, d, side, -, -, -, hpush⟩
  · obtain ⟨edge, hedge, hs, hdoor⟩ := hg.edge?_of_edgeThrough? hold
    exact absurd ⟨e, edge, hedge, hs, hdoor⟩ hnew
  · have hsize : (Network.withEnds g s side).1.edges.size = g.edges.size := by
      cases side <;> simp [Network.withEnds]
    obtain rfl : g' = _ := congrArg Prod.fst hpush
    rw [size_edges_pushEdge, hsize]
    refine ⟨rfl, fun other hother => ⟨fun h => ?_, fun h => h.extend hext⟩⟩
    obtain ⟨e', edge, hedge, hs, rfl⟩ := h
    rcases Nat.lt_or_ge e' g.edges.size with hlt | hge
    · exact hg.shows_of_lt hext hlt hedge hs
    · have hlast : e' = (Network.withEnds g s side).1.edges.size := by
        have hlt := lt_of_edge? hedge
        rw [size_edges_pushEdge] at hlt
        exact le_antisymm (Nat.le_of_lt_succ hlt) (hsize.trans_le hge)
      rw [edge?_pushEdge, if_pos hlast] at hedge
      rw [← Option.some.inj hedge] at hother
      exact absurd rfl hother

open Classical in
/-- Adding doors takes an edge for each that is not shown yet. -/
lemma WellFormed.size_addEdges (hg : g.WellFormed) {ds : List DoorId} (hnodup : ds.Nodup)
    (hds : ∀ uid ∈ ds, b.OpensFrom s uid) : (g.addEdges b s ds).1.edges.size =
      g.edges.size + (ds.filter fun uid => ¬g.Shows s uid).length := by
  induction ds generalizing g with
  | nil => rfl
  | cons uid ds ih =>
    obtain ⟨hout, hrest⟩ := List.nodup_cons.1 hnodup
    obtain ⟨g', e, hadd⟩ := exists_addEdge (hds uid List.mem_cons_self) g
    have htail := ih (hg.addEdge hadd).1 hrest fun uid' huid' =>
      hds uid' (List.mem_cons_of_mem uid huid')
    rw [addEdges, hadd]
    by_cases hshown : g.Shows s uid
    · obtain ⟨e', he'⟩ := hshown.exists_edgeThrough? hg
      obtain rfl : g = g' := by
        rw [Network.addEdge, he'] at hadd
        exact congrArg Prod.fst (Except.ok.inj hadd)
      rw [List.filter_cons_of_neg (by simpa using hshown)]
      exact htail
    · obtain ⟨hsize, hothers⟩ := hg.addEdge_new hshown hadd
      have hsame : ds.filter (fun uid => ¬g'.Shows s uid) =
          ds.filter fun uid => ¬g.Shows s uid := by
        refine List.filter_congr fun other hother => ?_
        have hne : other ≠ uid := by
          rintro rfl
          exact hout hother
        simp only [hothers other hne]
      rw [hsize, hsame] at htail
      rw [List.filter_cons_of_pos (by simpa using hshown), List.length_cons]
      exact htail.trans (by omega)

/-- The answer of looking around is how many open doors of the subroom had no edge. -/
theorem addSubRoomDoors_snd (hg : g.WellFormed) (hb : b.WellFormed)
    (hs : ∃ sub, b.subroom? s = some sub) :
    (g.addSubRoomDoors b s).2 = .ok (g.unseenDoors b s).ncard := by
  classical
  obtain ⟨sub, hsub⟩ := hs
  let doors := ((b.doorsOf s).filter (·.isOpen)).map (·.uid)
  have hnodup : doors.Nodup := (hb.nodup_doorsOf s).sublist (List.filter_sublist.map _)
  have hopens : ∀ uid ∈ doors, b.OpensFrom s uid := fun uid => hb.mem_openDoors.1
  obtain ⟨g', hadd, -, -⟩ := (hg.addVertex s).addEdges_spec hopens
  have hsize := (hg.addVertex s).size_addEdges hnodup hopens
  simp only [hadd, hg.shows_addVertex] at hsize
  have hunseen : g.unseenDoors b s = (doors.filter fun uid => ¬g.Shows s uid).toFinset := by
    ext uid
    simp only [unseenDoors, Set.mem_ofPred_eq, List.coe_toFinset, List.mem_filter,
      decide_eq_true_eq, doors, hb.mem_openDoors]
  rw [hunseen, Set.ncard_coe_finset, List.toFinset_card_of_nodup (hnodup.filter _)]
  simp only [addSubRoomDoors, Building.subroom_eq_ok_iff.2 hsub]
  rw [hadd]
  simp only [hsize, Nat.add_sub_cancel_left]
  rfl

/-- The network after looking around in the listed subrooms one after another. -/
def discover (g : Network α) (b : Building α) (ss : List SubRoomId) : Network α :=
  ss.foldl (fun g s => (g.addSubRoomDoors b s).1) g

/-- The network has a vertex for each subroom of the building and an edge for each open door out of
it, and nothing that is not in the building. -/
structure Complete (g : Network α) (b : Building α) : Prop where
  wellFormed : g.WellFormed
  faithful : g.Faithful b
  vertex : ∀ s sub, b.subroom? s = some sub → ∃ v, g.subroomAt? v = some s
  knows : ∀ s sub, b.subroom? s = some sub → g.Knows b s

theorem Complete.reweigh (h : g.Complete b) (hw : g.Reweighs g') : g'.Complete b := by
  refine ⟨h.wellFormed.reweigh hw, h.faithful.reweigh h.wellFormed hw, fun s sub hs => ?_,
    fun s sub hs => (h.knows s sub hs).extend hw.extends⟩
  obtain ⟨v, hv⟩ := h.vertex s sub hs
  exact ⟨v, hw.extends.subroomAt v s hv⟩

/-- Nothing is discovered in a complete network. -/
theorem Complete.addSubRoomDoors_eq (h : g.Complete b) (hb : b.WellFormed) (s : SubRoomId) :
    (g.addSubRoomDoors b s).1 = g := by
  cases hs : b.subroom? s with
  | none => exact addSubRoomDoors_of_unknown hs g
  | some sub =>
    rw [addSubRoomDoors_of_knows h.wellFormed hb ⟨sub, hs⟩ (h.vertex s sub hs) (h.knows s sub hs)]

lemma discover_spec (ss : List SubRoomId) (hg : g.WellFormed) (hf : g.Faithful b)
    (hb : b.WellFormed) :
    (g.discover b ss).WellFormed ∧ (g.discover b ss).Faithful b ∧ g.Extends (g.discover b ss) ∧
      ∀ s ∈ ss, (∃ sub, b.subroom? s = some sub) →
        (∃ v, (g.discover b ss).subroomAt? v = some s) ∧ (g.discover b ss).Knows b s := by
  induction ss generalizing g with
  | nil => exact ⟨hg, hf, .refl g, by simp⟩
  | cons s ss ih =>
    obtain ⟨hg₁, hext⟩ := hg.addSubRoomDoors (b := b) (s := s)
    obtain ⟨hg', hf', hext', hall⟩ := ih hg₁ (hf.addSubRoomDoors hb hg)
    refine ⟨hg', hf', hext.trans hext', fun t ht hsub => ?_⟩
    rcases List.mem_cons.1 ht with rfl | ht
    · -- what is known after the first look around stays known, since networks only grow
      obtain ⟨v, hv⟩ := exists_subroomAt?_addSubRoomDoors hg hsub
      obtain ⟨-, -, hknows⟩ := hg.addSubRoomDoors_spec hb hsub
      exact ⟨⟨v, hext'.subroomAt v t hv⟩, hknows.extend hext'⟩
    · exact hall t ht hsub

/-- Whoever has looked around in every subroom knows the whole building. -/
theorem complete_discover (hb : b.WellFormed)
    (hss : ∀ s sub, b.subroom? s = some sub → s ∈ ss) : (empty.discover b ss).Complete b := by
  obtain ⟨hg, hf, -, hall⟩ := discover_spec ss wellFormed_empty faithful_empty hb
  exact ⟨hg, hf, fun s sub hs => (hall s (hss s sub hs) ⟨sub, hs⟩).1,
    fun s sub hs => (hall s (hss s sub hs) ⟨sub, hs⟩).2⟩

lemma addAllDoors_eq_discover (h : g.addAllDoors b ss = .ok g') : g' = g.discover b ss := by
  induction ss generalizing g with
  | nil => exact (Except.ok.inj h).symm
  | cons s ss ih =>
    unfold addAllDoors at h
    split at h
    · rename_i hadd
      have hfirst := congrArg Prod.fst hadd
      rw [ih h, discover, discover, List.foldl_cons, hfirst]
    · cases h

theorem complete_ofBuilding (hb : b.WellFormed) (h : ofBuilding b = .ok g) : g.Complete b := by
  obtain ⟨hg₀, hf₀⟩ := foldl_addVertex_spec (fun s => hb.mem_subrooms.1) wellFormed_empty
    faithful_empty
  obtain ⟨hg, hf, -, hall⟩ := discover_spec (b.subrooms.values.map (·.uid)) hg₀ hf₀ hb
  obtain rfl := addAllDoors_eq_discover h
  exact ⟨hg, hf, fun s sub hs => (hall s (hb.mem_subrooms.2 ⟨sub, hs⟩) ⟨sub, hs⟩).1,
    fun s sub hs => (hall s (hb.mem_subrooms.2 ⟨sub, hs⟩) ⟨sub, hs⟩).2⟩

end Egress.Network
