import Egress.Proofs.Network.Coverage
import Egress.Proofs.Network.Discovery

/-!
# Networks that differ in numbering

In which order a building has been discovered shows in the numbers of vertices and edges, and in
nothing else: a vertex is known by its subroom, and an edge by the subroom that it leaves and its
door. What the cheapest way out costs does not depend on the numbers.
-/
namespace Egress.Network

variable {α : Type}

/-- The number in the second network of the vertex for the same subroom. -/
def vertexIn (g g' : Network α) (v : VertexId) : VertexId :=
  ((g.subroomAt? v).bind g'.vertexOf.find?).getD 0

/-- The number in the second network of the edge out of the same subroom through the same door. -/
def edgeIn (g g' : Network α) (e : EdgeId) : EdgeId :=
  ((g.edge? e).bind fun edge =>
    (g.subroomAt? edge.source).bind fun s => g'.edgeThrough? s edge.door).getD 0

/-- The edge with the numbers that it has in the second network. -/
def renumber (g g' : Network α) (edge : Edge α) : Edge α :=
  { edge with
    id := g.edgeIn g' edge.id
    source := g.vertexIn g' edge.source
    dest := edge.dest.map (g.vertexIn g') }

/-- The networks are the same but for the numbers of vertices and edges, and for factors. -/
structure Renumbers (g g' : Network α) : Prop where
  vertex : Set.BijOn (g.vertexIn g') (Set.Iio g.vertices.size) (Set.Iio g'.vertices.size)
  edge : Set.BijOn (g.edgeIn g') (Set.Iio g.edges.size) (Set.Iio g'.edges.size)
  subroomAt : ∀ v < g.vertices.size, g'.subroomAt? (g.vertexIn g' v) = g.subroomAt? v
  edge? : ∀ e edge, g.edge? e = some edge →
    ∃ bag, g'.edge? (g.edgeIn g' e) = some ((g.renumber g' edge).withFactors bag)

section
variable [Scalar α] {b : Building α} {g g' : Network α} {v : VertexId} {e : EdgeId}
  {edge : Edge α} {s : SubRoomId}

lemma Complete.subroomAt?_vertexIn (hg : g.Complete b) (hg' : g'.Complete b)
    (hs : g.subroomAt? v = some s) : g'.subroomAt? (g.vertexIn g' v) = some s := by
  obtain ⟨sub, hsub⟩ := hg.faithful.subroom v s hs
  obtain ⟨v', hv'⟩ := hg'.vertex s sub hsub
  rw [vertexIn, hs, Option.bind_some, (hg'.wellFormed.vertexOf_iff s v').2 hv', Option.getD_some]
  exact hv'

lemma Complete.vertexIn_vertexIn (hg : g.Complete b) (hg' : g'.Complete b)
    (hv : v < g.vertices.size) : g'.vertexIn g (g.vertexIn g' v) = v := by
  obtain ⟨s, hs⟩ := exists_subroomAt? hv
  exact hg.wellFormed.eq_of_subroomAt?
    (hg'.subroomAt?_vertexIn hg (hg.subroomAt?_vertexIn hg' hs)) hs

/-- The edge with the other number leaves the same subroom through the same door. -/
lemma Complete.edge?_edgeIn (hg : g.Complete b) (hg' : g'.Complete b)
    (hedge : g.edge? e = some edge) (hs : g.subroomAt? edge.source = some s) :
    ∃ edge', g'.edge? (g.edgeIn g' e) = some edge' ∧ g'.subroomAt? edge'.source = some s ∧
      edge'.door = edge.door := by
  obtain ⟨sub, hsub⟩ := hg.faithful.subroom _ s hs
  have hshows := hg'.knows s sub hsub edge.door (hg.faithful.opensFrom hedge hs)
  obtain ⟨e', he'⟩ := hshows.exists_edgeThrough? hg'.wellFormed
  rw [edgeIn, hedge, Option.bind_some, hs, Option.bind_some, he', Option.getD_some]
  exact hg'.wellFormed.edge?_of_edgeThrough? he'

lemma Complete.edgeIn_edgeIn (hg : g.Complete b) (hg' : g'.Complete b)
    (he : e < g.edges.size) : g'.edgeIn g (g.edgeIn g' e) = e := by
  obtain ⟨edge, hedge⟩ := exists_edge? he
  obtain ⟨s, hs⟩ := hg.wellFormed.exists_subroomAt?_source hedge
  obtain ⟨edge', hedge', hs', hdoor'⟩ := hg.edge?_edgeIn hg' hedge hs
  obtain ⟨edge'', hedge'', hs'', hdoor''⟩ := hg'.edge?_edgeIn hg hedge' hs'
  exact hg.wellFormed.unique _ _ edge'' edge hedge'' hedge
    (hg.wellFormed.eq_of_subroomAt? hs'' hs) (hdoor''.trans hdoor')

/-- Edges that lead to the same place lead to vertices that correspond. -/
lemma Complete.dest_eq (hg : g.Complete b) (hg' : g'.Complete b) {dest dest' : Option VertexId}
    (hdest : ∀ w, dest = some w → w < g.vertices.size)
    (hdest' : ∀ w, dest' = some w → w < g'.vertices.size)
    (hsame : dest'.bind g'.subroomAt? = dest.bind g.subroomAt?) :
    dest' = dest.map (g.vertexIn g') := by
  have hsome {w : VertexId} {t : SubRoomId} {g : Network α} (h : g.subroomAt? w = some t) :
      (some w).bind g.subroomAt? = some t := h
  cases dest with
  | none =>
    cases dest' with
    | none => rfl
    | some w' =>
      obtain ⟨t, ht⟩ := exists_subroomAt? (hdest' w' rfl)
      rw [hsome ht] at hsame
      cases hsame
  | some w =>
    obtain ⟨t, ht⟩ := exists_subroomAt? (hdest w rfl)
    rw [hsome ht] at hsame
    obtain ⟨w', rfl, hw'⟩ := Option.bind_eq_some_iff.1 hsame
    exact congrArg some
      (hg'.wellFormed.eq_of_subroomAt? hw' (hg.subroomAt?_vertexIn hg' ht))

lemma Complete.mapsTo_vertexIn (hg : g.Complete b) (hg' : g'.Complete b) :
    Set.MapsTo (g.vertexIn g') (Set.Iio g.vertices.size) (Set.Iio g'.vertices.size) := by
  intro v hv
  obtain ⟨s, hs⟩ := exists_subroomAt? hv
  exact lt_of_subroomAt? (hg.subroomAt?_vertexIn hg' hs)

lemma Complete.mapsTo_edgeIn (hg : g.Complete b) (hg' : g'.Complete b) :
    Set.MapsTo (g.edgeIn g') (Set.Iio g.edges.size) (Set.Iio g'.edges.size) := by
  intro e he
  obtain ⟨edge, hedge⟩ := exists_edge? he
  obtain ⟨s, hs⟩ := hg.wellFormed.exists_subroomAt?_source hedge
  obtain ⟨edge', hedge', -⟩ := hg.edge?_edgeIn hg' hedge hs
  exact lt_of_edge? hedge'

/-- The edge with the other number is the same edge under other numbers. -/
lemma Complete.exists_edge?_edgeIn (hg : g.Complete b) (hg' : g'.Complete b)
    (hedge : g.edge? e = some edge) :
    ∃ bag, g'.edge? (g.edgeIn g' e) = some ((g.renumber g' edge).withFactors bag) := by
  obtain ⟨s, d, hd⟩ := hg.faithful.edge e edge hedge
  obtain ⟨edge', hedge', hs', hdoor'⟩ := hg.edge?_edgeIn hg' hedge hd.source
  obtain ⟨s', d', hd'⟩ := hg'.faithful.edge _ edge' hedge'
  obtain rfl : s = s' := Option.some.inj (hs'.symm.trans hd'.source)
  -- both edges depict one door as seen from one subroom, which leaves them only their numbers
  obtain ⟨hline, hdistance, hside⟩ := hd.agree hd' hdoor'
  refine ⟨edge'.factors, hedge'.trans (congrArg some ?_)⟩
  have hid : edge'.id = g.edgeIn g' edge.id := by
    rw [hg'.wellFormed.id_eq _ edge' hedge', hg.wellFormed.id_eq e edge hedge]
  have hsource : edge'.source = g.vertexIn g' edge.source :=
    hg'.wellFormed.eq_of_subroomAt? hs' (hg.subroomAt?_vertexIn hg' hd.source)
  have hdest : edge'.dest = edge.dest.map (g.vertexIn g') :=
    hg.dest_eq hg' (hg.wellFormed.dest_lt e edge · hedge)
      (hg'.wellFormed.dest_lt _ edge' · hedge') hside
  rw [renumber, ← hid, ← hsource, ← hdest, ← hline, ← hdistance, ← hdoor']
  rfl

/-- Complete networks of a building differ in numbering only. -/
theorem Complete.renumbers (hg : g.Complete b) (hg' : g'.Complete b) : g.Renumbers g' := by
  constructor
  · exact Set.InvOn.bijOn ⟨fun v hv => hg.vertexIn_vertexIn hg' hv,
      fun v hv => hg'.vertexIn_vertexIn hg hv⟩ (hg.mapsTo_vertexIn hg') (hg'.mapsTo_vertexIn hg)
  · exact Set.InvOn.bijOn ⟨fun e he => hg.edgeIn_edgeIn hg' he,
      fun e he => hg'.edgeIn_edgeIn hg he⟩ (hg.mapsTo_edgeIn hg') (hg'.mapsTo_edgeIn hg)
  · intro v hv
    obtain ⟨s, hs⟩ := exists_subroomAt? hv
    rw [hs, hg.subroomAt?_vertexIn hg' hs]
  · exact fun e edge hedge => hg.exists_edge?_edgeIn hg' hedge

end

/-- The factors of corresponding edges have the same multiplier. -/
def SameMultipliers [Scalar α] (g g' : Network α) : Prop :=
  ∀ e edge edge', g.edge? e = some edge → g'.edge? (g.edgeIn g' e) = some edge' →
    edge'.factors.multiplier = edge.factors.multiplier

section
variable {b : Building Exact} {g g' : Network Exact} {s : SubRoomId} {q : Point Exact}

lemma SameMultipliers.symm (h : g.SameMultipliers g') (hg : g.Complete b) (hg' : g'.Complete b) :
    g'.SameMultipliers g := by
  intro e edge edge' hedge hedge'
  refine (h _ edge' edge hedge' ?_).symm
  rwa [hg'.edgeIn_edgeIn hg (lt_of_edge? hedge)]

/-- A complete network covers every other one in which factors weigh the same. -/
lemma Complete.coveredBy (hg : g.Complete b) (hg' : g'.Complete b)
    (hsame : g.SameMultipliers g') : g.CoveredBy g' := by
  intro e edge hedge
  have hrenumbers := hg.renumbers hg'
  obtain ⟨bag, hbag⟩ := hrenumbers.edge? e edge hedge
  have hmultiplier : bag.multiplier = edge.factors.multiplier := hsame e edge _ hedge hbag
  refine ⟨_, _, hbag, ?_, rfl, ?_, rfl, hmultiplier ▸ multiplier_le_refl bag⟩
  · exact hrenumbers.subroomAt _ (hg.wellFormed.source_lt e edge hedge)
  · show (edge.dest.map (g.vertexIn g')).map g'.subroomAt? = edge.dest.map g.subroomAt?
    rw [Option.map_map]
    refine Option.map_congr fun w hw => ?_
    exact hrenumbers.subroomAt w (hg.wellFormed.dest_lt e edge w hedge hw)

/-- Complete networks have the same subrooms. -/
lemma Complete.vertexOf_eq_none (hg : g.Complete b) (hg' : g'.Complete b)
    (hs : g.vertexOf.find? s = none) : g'.vertexOf.find? s = none := by
  by_contra hne
  obtain ⟨v', hv'⟩ := Option.ne_none_iff_exists'.1 hne
  obtain ⟨sub, hsub⟩ := hg'.faithful.subroom v' s ((hg'.wellFormed.vertexOf_iff s v').1 hv')
  obtain ⟨v, hv⟩ := hg.vertex s sub hsub
  rw [(hg.wellFormed.vertexOf_iff s v).2 hv] at hs
  cases hs

/-- The cheapest way out costs as much under other numbers. -/
theorem Complete.cost_eq (hg : g.Complete b) (hg' : g'.Complete b) (hsame : g.SameMultipliers g')
    (s : SubRoomId) (q : Point Exact) :
    (g'.cheapestDestination s q).map (·.cost) = (g.cheapestDestination s q).map (·.cost) := by
  cases hv : g.vertexOf.find? s with
  | none =>
    simp only [cheapestDestination, hv, hg.vertexOf_eq_none hg' hv, Except.map]
  | some v =>
    have hs := (hg.wellFormed.vertexOf_iff s v).1 hv
    have hv' := (hg'.wellFormed.vertexOf_iff s _).2 (hg.subroomAt?_vertexIn hg' hs)
    -- either of the two covers the other
    have hthere := (hg.coveredBy hg' hsame).noDearer hg.wellFormed hg'.wellFormed s q
    have hback := (hg'.coveredBy hg (hsame.symm hg hg')).noDearer hg'.wellFormed hg.wellFormed s q
    rcases cheapestDestination_toll hg.wellFormed hv q with
      ⟨-, herror⟩ | ⟨d, x, hok, hcost, -⟩ <;>
    rcases cheapestDestination_toll hg'.wellFormed hv' q with
      ⟨-, herror'⟩ | ⟨d', x', hok', hcost', -⟩
    · rw [herror, herror']
    · obtain ⟨d, hd, -⟩ := hback d' hok'
      rw [herror] at hd
      cases hd
    · obtain ⟨d', hd', -⟩ := hthere d hok
      rw [herror'] at hd'
      cases hd'
    · obtain ⟨d₁, hd₁, hle⟩ := hthere d hok
      obtain ⟨d₂, hd₂, hle'⟩ := hback d' hok'
      obtain rfl : d₁ = d' := Except.ok.inj (hd₁.symm.trans hok')
      obtain rfl : d₂ = d := Except.ok.inj (hd₂.symm.trans hok)
      rw [hcost, hcost', Exact.real_le_real] at hle hle'
      rw [hok, hok', Except.map, Except.map, hcost, hcost', le_antisymm hle hle']

end

theorem factors_discover [Scalar α] {b : Building α} {ss : List SubRoomId} {e : EdgeId}
    {edge : Edge α} (he : (empty.discover b ss).edge? e = some edge) :
    edge.factors = .empty := by
  refine factors_eq_empty he fun name => ?_
  refine List.foldlRecOn (motive := fun g : Network α => g.factor? e name = none) ss _ rfl ?_
  intro g hg s _
  rw [factor?_addSubRoomDoors, hg]

/-- Every building has a complete network, with one edge for each subroom and open door on its
boundary, which leads to the other side of the door. Whoever looks around in all subrooms, in any
order and however often, comes to know the same network but for its numbering, and as long as
factors weigh the same, the cheapest ways out cost the same. -/
theorem discover_renumbers [Scalar α] :
    (∀ b : Building α, b.Made → ∃ g, ofBuilding b = .ok g ∧
      (∀ s uid d side, b.door? uid = some d → d.isOpen = true → d.otherSide s = some side →
        ∃ e edge, g.edge? e = some edge ∧ g.subroomAt? edge.source = some s ∧ edge.door = uid ∧
          edge.dest.map g.subroomAt? = side.map some ∧
          ∀ e' edge', g.edge? e' = some edge' → g.subroomAt? edge'.source = some s →
            edge'.door = uid → e' = e) ∧
      (∀ e edge, g.edge? e = some edge →
        ∃ s, g.subroomAt? edge.source = some s ∧ b.OpensFrom s edge.door) ∧
      ∀ ss, (∀ s sub, b.subroom? s = some sub → s ∈ ss) → g.Renumbers (empty.discover b ss)) ∧
    ∀ (b : Building Exact) (g : Network Exact) (ss : List SubRoomId), b.Made →
      ofBuilding b = .ok g → (∀ s sub, b.subroom? s = some sub → s ∈ ss) →
      ∀ h h', g.Reweighs h → (empty.discover b ss).Reweighs h' → h.SameMultipliers h' →
        ∀ s q, (h'.cheapestDestination s q).map (·.cost) =
          (h.cheapestDestination s q).map (·.cost) := by
  constructor
  · intro b hmade
    have hb := hmade.wellFormed
    obtain ⟨g, hok, hwf, hfaithful, hknows⟩ := ofBuilding_spec hb
    refine ⟨g, hok, ?_, ?_, fun ss hss =>
      (complete_ofBuilding hb hok).renumbers (complete_discover hb hss)⟩
    · intro s uid d side hd hopen hside
      have hconn := Building.connects_iff_otherSide.2 ⟨side, hside⟩
      obtain ⟨sub, hsub⟩ := hb.exists_side uid d s hd hconn
      obtain ⟨e, edge, hedge, hs, rfl⟩ := hknows s sub hsub uid ⟨d, hd, hopen, hconn⟩
      refine ⟨e, edge, hedge, hs, rfl, ?_, fun e' edge' hedge' hs' hdoor' =>
        hwf.unique e' e edge' edge hedge' hedge (hwf.eq_of_subroomAt? hs' hs) hdoor'⟩
      obtain ⟨s', d', hd'⟩ := hfaithful.edge e edge hedge
      obtain rfl : s = s' := Option.some.inj (hs.symm.trans hd'.source)
      obtain rfl : d = d' := Option.some.inj (hd.symm.trans hd'.door)
      obtain rfl := Option.some.inj (hside.symm.trans hd'.side)
      exact hwf.map_dest hedge
    · intro e edge hedge
      obtain ⟨s, hs⟩ := hwf.exists_subroomAt?_source hedge
      exact ⟨s, hs, hfaithful.opensFrom hedge hs⟩
  · intro b g ss hmade hok hss h h' hw hw' hsame s q
    have hb := hmade.wellFormed
    exact ((complete_ofBuilding hb hok).reweigh hw).cost_eq
      ((complete_discover hb hss).reweigh hw') hsame s q

section
open Exact

/-- A subroom of the lodge. -/
noncomputable def chamber (uid : SubRoomId) : SubRoom Exact :=
  .ofPolygon uid 0 .floor (.rectangle ⟨real 0, real 0⟩ ⟨real 1, real 1⟩)

/-- The line of all doors of the lodge. -/
noncomputable def threshold : Segment Exact := ⟨⟨real 0, real 0⟩, ⟨real 1, real 0⟩⟩

lemma exists_lodge : ∃ (b : Building Exact) (g : Network Exact), b.Made ∧
    ofBuilding b = .ok g ∧ b.subrooms.values.map (·.uid) = [5, 6] ∧
    b.door? 4 = some ⟨4, .crossing, threshold, 5, some 6, true⟩ ∧
    g.vertexIn (empty.discover b [6, 5, 6]) 0 = 1 ∧ (∃ sub, b.subroom? 6 = some sub) ∧
    (empty.addSubRoomDoors b 6).2 = .ok 1 := by
  have hroom : (Building.named "lodge" : Building Exact).addRoom 0 "" = .ok _ := rfl
  have hfirst := Building.Made.addSubRoom (.addRoom (.named "lodge") hroom)
    (show Building.addSubRoom _ (chamber 5) = .ok _ from rfl)
  have hsecond := Building.Made.addSubRoom hfirst
    (show Building.addSubRoom _ (chamber 6) = .ok _ from rfl)
  have hexit := @Building.Made.addDoor Exact _ _ 3 .transition threshold 5 none hsecond rfl
  have hinner := @Building.Made.addDoor Exact _ _ 4 .crossing threshold 5 (some 6) hexit rfl
  exact ⟨_, _, hinner, rfl, rfl, rfl, rfl, ⟨_, rfl⟩, rfl⟩

/-- Whoever looks around in the second chamber of the lodge first numbers the chambers the other
way round, finds the same door between them, and has as far to go. -/
theorem discover_renumbers_lodge : ∃ (b : Building Exact) (g : Network Exact), b.Made ∧
    ofBuilding b = .ok g ∧ g.Renumbers (empty.discover b [6, 5, 6]) ∧
    g.vertexIn (empty.discover b [6, 5, 6]) 0 = 1 ∧
    (∃ e edge, g.edge? e = some edge ∧ g.subroomAt? edge.source = some 6 ∧ edge.door = 4 ∧
      edge.dest.map g.subroomAt? = some (some 5)) ∧
    ∀ q, ((empty.discover b [6, 5, 6]).cheapestDestination 6 q).map (·.cost) =
      (g.cheapestDestination 6 q).map (·.cost) := by
  obtain ⟨b, g, hmade, hok, huids, hdoor, hnumber, -⟩ := exists_lodge
  have hss : ∀ s sub, b.subroom? s = some sub → s ∈ [6, 5, 6] := by
    intro s sub hsub
    have hmem := hmade.wellFormed.mem_subrooms.2 ⟨sub, hsub⟩
    rw [huids] at hmem
    simp only [List.mem_cons, List.not_mem_nil, or_false] at hmem ⊢
    tauto
  obtain ⟨hcomplete, hcosts⟩ := discover_renumbers (α := Exact)
  obtain ⟨g', hok', hways, -, hrenumbers⟩ := hcomplete b hmade
  obtain rfl : g' = g := Except.ok.inj (hok'.symm.trans hok)
  obtain ⟨e, edge, hedge, hs, hthrough, hdest, -⟩ := hways 6 4 _ (some 5) hdoor rfl rfl
  have hsame : g'.SameMultipliers (empty.discover b [6, 5, 6]) := by
    intro e edge edge' hedge hedge'
    rw [factors_discover hedge', factors_ofBuilding hok hedge]
  exact ⟨b, g', hmade, hok, hrenumbers [6, 5, 6] hss, hnumber,
    ⟨e, edge, hedge, hs, hthrough, hdest⟩,
    hcosts b g' [6, 5, 6] hmade hok hss g' _ (.refl g') (.refl _) hsame 6⟩

end

end Egress.Network
