import Egress.Proofs.Building
import Egress.Proofs.Network.Growth

/-!
# Networks of a building

A network is faithful to a building if all that it shows is so: its vertices stand for subrooms
that exist, and its edges for open doors and what lies behind them. It may show less than there is.
What a subroom's own doors add to a faithful network is faithful, and afterwards all open doors of
the subroom are known.
-/
namespace Egress.Network

variable {α : Type} {b : Building α} {g g' : Network α} {s : SubRoomId} {uid : DoorId}

/-- The network has an edge out of the subroom through the door. -/
def Shows (g : Network α) (s : SubRoomId) (uid : DoorId) : Prop :=
  ∃ e edge, g.edge? e = some edge ∧ g.subroomAt? edge.source = some s ∧ edge.door = uid

/-- The network shows all open doors of the subroom. -/
def Knows (g : Network α) (b : Building α) (s : SubRoomId) : Prop :=
  ∀ uid, b.OpensFrom s uid → g.Shows s uid

lemma Shows.exists_edgeThrough? (h : g.Shows s uid) (hg : g.WellFormed) :
    ∃ e, g.edgeThrough? s uid = some e := by
  obtain ⟨e, edge, hedge, hs, hdoor⟩ := h
  refine Option.ne_none_iff_exists'.1 fun hnone => ?_
  exact hg.edgeThrough?_eq_none_iff.1 hnone e edge hedge hs hdoor

lemma Shows.extend (h : g.Shows s uid) (hext : g.Extends g') : g'.Shows s uid := by
  obtain ⟨e, edge, hedge, hs, hdoor⟩ := h
  obtain ⟨bag, hbag⟩ := hext.edge e edge hedge
  exact ⟨e, _, hbag, hext.subroomAt _ s hs, hdoor⟩

theorem Knows.extend (h : g.Knows b s) (hext : g.Extends g') : g'.Knows b s :=
  fun uid huid => (h uid huid).extend hext

/-- A subroom all of whose open doors are known, but without edges, has no open doors. -/
lemma Knows.not_opensFrom (h : g.Knows b s) (hg : g.WellFormed) (hout : g.outEdges s = []) :
    ¬b.OpensFrom s uid := by
  intro huid
  obtain ⟨e, edge, hedge, hs, -⟩ := h uid huid
  have hmem := hg.mem_outEdges.2 ⟨edge, hedge, hs⟩
  rw [hout] at hmem
  exact List.not_mem_nil hmem

variable [Scalar α]

/-- The edge stands for the way out of the subroom through the open door. -/
structure Depicts (g : Network α) (b : Building α) (edge : Edge α) (s : SubRoomId) (d : Door α) :
    Prop where
  door : b.door? edge.door = some d
  isOpen : d.isOpen = true
  source : g.subroomAt? edge.source = some s
  side : d.otherSide s = some (edge.dest.bind g.subroomAt?)
  line : edge.line = d.line
  distance : edge.approximateDistance =
    approximateDistance b s edge.door d (edge.dest.bind g.subroomAt?)

/-- Everything that the network shows is so in the building. -/
structure Faithful (g : Network α) (b : Building α) : Prop where
  subroom : ∀ v s, g.subroomAt? v = some s → ∃ sub, b.subroom? s = some sub
  edge : ∀ e edge, g.edge? e = some edge → ∃ s d, g.Depicts b edge s d

theorem faithful_empty : (empty : Network α).Faithful b :=
  ⟨nofun, nofun⟩

theorem Depicts.extend {edge : Edge α} {d : Door α} (h : g.Depicts b edge s d)
    (hext : g.Extends g') (hdest : ∀ w, edge.dest = some w → w < g.vertices.size)
    (bag : FactorBag α) : g'.Depicts b (edge.withFactors bag) s d := by
  have hside : edge.dest.bind g'.subroomAt? = edge.dest.bind g.subroomAt? := by
    cases hw : edge.dest with
    | none => rfl
    | some w =>
      obtain ⟨t, ht⟩ := exists_subroomAt? (hdest w hw)
      rw [Option.bind_some, Option.bind_some, ht]
      exact hext.subroomAt w t ht
  have hdest' : (edge.withFactors bag).dest.bind g'.subroomAt? = edge.dest.bind g.subroomAt? :=
    hside
  constructor
  case door => exact h.door
  case isOpen => exact h.isOpen
  case source => exact hext.subroomAt _ s h.source
  case side =>
    rw [hdest']
    exact h.side
  case line => exact h.line
  case distance =>
    rw [hdest']
    exact h.distance

/-- What two edges for the same door out of a subroom have in common. -/
lemma Depicts.agree {edge edge' : Edge α} {d d' : Door α} (h : g.Depicts b edge s d)
    (h' : g'.Depicts b edge' s d') (hdoor : edge'.door = edge.door) :
    edge'.line = edge.line ∧ edge'.approximateDistance = edge.approximateDistance ∧
      edge'.dest.bind g'.subroomAt? = edge.dest.bind g.subroomAt? := by
  obtain rfl : d = d' := by
    have hd' := h'.door
    rw [hdoor] at hd'
    exact Option.some.inj (h.door.symm.trans hd')
  have hside := Option.some.inj (h'.side.symm.trans h.side)
  exact ⟨h'.line.trans h.line.symm, by rw [h'.distance, h.distance, hside, hdoor], hside⟩

/-- Edges of two networks that stand for the same way out of a subroom. -/
structure SameWay (g g' : Network α) (edge edge' : Edge α) : Prop where
  source : g'.subroomAt? edge'.source = g.subroomAt? edge.source
  door : edge'.door = edge.door
  line : edge'.line = edge.line
  dest : edge'.dest.map g'.subroomAt? = edge.dest.map g.subroomAt?
  distance : edge'.approximateDistance = edge.approximateDistance

/-- A network that knows the subroom has an edge for each way out of it that another shows. -/
theorem Faithful.exists_sameWay (h : g.Faithful b) (hg : g.WellFormed) (h' : g'.Faithful b)
    (hg' : g'.WellFormed) (hknows : ∀ s sub, b.subroom? s = some sub → g'.Knows b s) {e : EdgeId}
    {edge : Edge α} (hedge : g.edge? e = some edge) :
    ∃ e' edge', g'.edge? e' = some edge' ∧ g.SameWay g' edge edge' := by
  obtain ⟨s, d, hd⟩ := h.edge e edge hedge
  obtain ⟨sub, hsub⟩ := h.subroom _ s hd.source
  have hopens : b.OpensFrom s edge.door :=
    ⟨d, hd.door, hd.isOpen, Building.connects_iff_otherSide.2 ⟨_, hd.side⟩⟩
  obtain ⟨e', edge', hedge', hs', hdoor⟩ := hknows s sub hsub edge.door hopens
  obtain ⟨s', d', hd'⟩ := h'.edge e' edge' hedge'
  obtain rfl : s = s' := Option.some.inj (hs'.symm.trans hd'.source)
  obtain ⟨hline, hdistance, hside⟩ := hd.agree hd' hdoor
  refine ⟨e', edge', hedge', hs'.trans hd.source.symm, hdoor, hline, ?_, hdistance⟩
  rw [hg'.map_dest hedge', hg.map_dest hedge, hside]

theorem Faithful.addVertex (h : g.Faithful b) (hg : g.WellFormed)
    (hs : ∃ sub, b.subroom? s = some sub) : (g.addVertex s).1.Faithful b := by
  constructor
  · intro v t ht
    rcases subroomAt?_addVertex_cases g s ht with ht | rfl
    · exact h.subroom v t ht
    · exact hs
  · intro e edge hedge
    rw [edge?_addVertex] at hedge
    obtain ⟨t, d, hd⟩ := h.edge e edge hedge
    exact ⟨t, d, hd.extend (extends_addVertex g s) (fun w => hg.dest_lt e edge w hedge)
      edge.factors⟩

/-- An edge out of a subroom stands for one of its open doors. -/
theorem Faithful.opensFrom (h : g.Faithful b) {e : EdgeId} {edge : Edge α}
    (hedge : g.edge? e = some edge) (hs : g.subroomAt? edge.source = some s) :
    b.OpensFrom s edge.door := by
  obtain ⟨t, d, hd⟩ := h.edge e edge hedge
  obtain rfl : s = t := Option.some.inj (hs.symm.trans hd.source)
  exact ⟨d, hd.door, hd.isOpen, Building.connects_iff_otherSide.2 ⟨_, hd.side⟩⟩

theorem Faithful.reweigh (h : g.Faithful b) (hg : g.WellFormed) (hw : g.Reweighs g') :
    g'.Faithful b := by
  constructor
  · intro v s hs
    rw [hw.subroomAt?_eq] at hs
    exact h.subroom v s hs
  · intro e edge hedge
    obtain ⟨old, bag, hold, rfl⟩ := hw.exists_edge? hedge
    obtain ⟨s, d, hd⟩ := h.edge e old hold
    exact ⟨s, d, hd.extend hw.extends (fun w => hg.dest_lt e old w hold) bag⟩

/-- What an added edge stands for. -/
theorem Faithful.addEdge (h : g.Faithful b) (hb : b.WellFormed) (hg : g.WellFormed)
    {e : EdgeId} (hadd : g.addEdge b s uid = .ok (g', e)) :
    g'.Faithful b := by
  rcases addEdge_cases hadd with ⟨-, rfl⟩ | ⟨-, d, side, hdoor, hopen, hside, hpush⟩
  · exact h
  · obtain ⟨-, hext, hedges, hsource, -, hdest⟩ := hg.withEnds s side
    have hd := Building.door_eq_ok_iff.1 hdoor
    obtain rfl : g' = _ := congrArg Prod.fst hpush
    constructor
    · intro v t ht
      rw [subroomAt?_pushEdge] at ht
      rcases subroomAt?_withEnds_cases ht with ht | rfl | ht
      · exact h.subroom v t ht
      · exact hb.exists_side uid d t hd (Building.connects_iff_otherSide.2 ⟨side, hside⟩)
      · rw [ht] at hside
        exact hb.exists_side uid d t hd (Building.connects_of_otherSide hside)
    · intro e' edge hedge
      rw [edge?_pushEdge] at hedge
      split at hedge
      · obtain rfl := Option.some.inj hedge
        have hat := funext (subroomAt?_pushEdge (withEnds g s side).1 (g.addVertex s).2
          (withEnds g s side).2 uid d.line (approximateDistance b s uid d side))
        have hend : (newEdge (withEnds g s side).1 (g.addVertex s).2 (withEnds g s side).2 uid
            d.line (approximateDistance b s uid d side)).dest.bind
            (withEnds g s side).1.subroomAt? = side := hdest
        refine ⟨s, d, ?_⟩
        constructor
        case door => exact hd
        case isOpen => exact hopen
        case source =>
          rw [hat]
          exact hsource
        case side =>
          rw [hat, hend]
          exact hside
        case line => rfl
        case distance =>
          rw [hat, hend]
          rfl
      · rw [hedges] at hedge
        obtain ⟨t, d', hd'⟩ := h.edge e' edge hedge
        exact ⟨t, d', hd'.extend (hext.trans (extends_pushEdge _ _ _ _ _ _))
          (fun w => hg.dest_lt e' edge w hedge) edge.factors⟩

theorem Faithful.addSubRoomDoors (h : g.Faithful b) (hb : b.WellFormed) (hg : g.WellFormed) :
    (g.addSubRoomDoors b s).1.Faithful b := by
  have hboth := addSubRoomDoors_induction (b := b) (s := s)
    (P := fun g => g.WellFormed ∧ g.Faithful b) ?_ ?_ ⟨hg, h⟩
  · exact hboth.2
  · intro sub hsub ⟨hg, h⟩
    exact ⟨hg.addVertex s, h.addVertex hg ⟨sub, Building.subroom_eq_ok_iff.1 hsub⟩⟩
  · intro g g' uid e ⟨hg, h⟩ hadd
    exact ⟨(hg.addEdge hadd).1, h.addEdge hb hg hadd⟩

theorem WellFormed.shows_addEdge (hg : g.WellFormed) {e : EdgeId}
    (hadd : g.addEdge b s uid = .ok (g', e)) : g'.Shows s uid := by
  rcases addEdge_cases hadd with ⟨hknown, rfl⟩ | ⟨-, d, side, -, -, -, hpush⟩
  · obtain ⟨edge, hedge, hs, hdoor⟩ := hg.edge?_of_edgeThrough? hknown
    exact ⟨e, edge, hedge, hs, hdoor⟩
  · obtain ⟨-, -, -, hsource, -⟩ := hg.withEnds s side
    obtain rfl : g' = _ := congrArg Prod.fst hpush
    have hedge := edge?_pushEdge (Network.withEnds g s side).1 (g.addVertex s).2
      (Network.withEnds g s side).2 uid d.line (approximateDistance b s uid d side)
      (Network.withEnds g s side).1.edges.size
    rw [if_pos rfl] at hedge
    refine ⟨_, _, hedge, ?_, rfl⟩
    rw [subroomAt?_pushEdge]
    exact hsource

/-- Every open door of a subroom can be added. -/
theorem exists_addEdge (huid : b.OpensFrom s uid) (g : Network α) :
    ∃ g' e, g.addEdge b s uid = .ok (g', e) := by
  obtain ⟨d, hd, hopen, hconn⟩ := huid
  obtain ⟨side, hside⟩ := Building.connects_iff_otherSide.1 hconn
  unfold addEdge
  cases g.edgeThrough? s uid with
  | some e => exact ⟨g, e, rfl⟩
  | none =>
    rw [Building.door_eq_ok_iff.2 hd]
    simp only [hopen, hside, Bool.not_true, Bool.false_eq_true, if_false]
    cases side with
    | none => exact ⟨_, _, rfl⟩
    | some t => exact ⟨_, _, rfl⟩

theorem WellFormed.addEdges_spec (hg : g.WellFormed) {ds : List DoorId}
    (hds : ∀ uid ∈ ds, b.OpensFrom s uid) : ∃ g', g.addEdges b s ds = (g', .ok ()) ∧
      g.Extends g' ∧ ∀ uid ∈ ds, g'.Shows s uid := by
  induction ds generalizing g with
  | nil => exact ⟨g, rfl, .refl g, by simp⟩
  | cons uid ds ih =>
    obtain ⟨g₁, e, hadd⟩ := exists_addEdge (hds uid List.mem_cons_self) g
    obtain ⟨hg₁, hext⟩ := hg.addEdge hadd
    obtain ⟨g₂, hrest, hext', hshows⟩ :=
      ih hg₁ fun uid' huid' => hds uid' (List.mem_cons_of_mem uid huid')
    refine ⟨g₂, ?_, hext.trans hext', ?_⟩
    · rw [addEdges, hadd]
      exact hrest
    · intro uid' huid'
      rcases List.mem_cons.1 huid' with rfl | huid'
      · exact (hg.shows_addEdge hadd).extend hext'
      · exact hshows uid' huid'

/-- The doors of a subroom that exists can be added, and are known then. -/
theorem WellFormed.addSubRoomDoors_spec (hg : g.WellFormed) (hb : b.WellFormed)
    (hs : ∃ sub, b.subroom? s = some sub) :
    ∃ n, (g.addSubRoomDoors b s).2 = .ok n ∧ (g.addSubRoomDoors b s).1.Knows b s := by
  obtain ⟨sub, hsub⟩ := hs
  obtain ⟨g', hadd, -, hshows⟩ :=
    (hg.addVertex s).addEdges_spec (s := s) fun uid huid => hb.mem_openDoors.1 huid
  simp only [Network.addSubRoomDoors, Building.subroom_eq_ok_iff.2 hsub, hadd]
  exact ⟨_, rfl, fun uid huid => hshows uid (hb.mem_openDoors.2 huid)⟩

theorem addAllDoors_spec (hb : b.WellFormed) {ss : List SubRoomId}
    (hss : ∀ s ∈ ss, ∃ sub, b.subroom? s = some sub) (hg : g.WellFormed) (h : g.Faithful b) :
    ∃ g', g.addAllDoors b ss = .ok g' ∧ g'.WellFormed ∧ g'.Faithful b ∧ g.Extends g' ∧
      ∀ s ∈ ss, g'.Knows b s := by
  induction ss generalizing g with
  | nil => exact ⟨g, rfl, hg, h, .refl g, by simp⟩
  | cons s ss ih =>
    obtain ⟨n, hok, hknows⟩ := hg.addSubRoomDoors_spec hb (hss s List.mem_cons_self)
    obtain ⟨hg₁, hext⟩ := hg.addSubRoomDoors (b := b) (s := s)
    obtain ⟨g', hrest, hg', h', hext', hall⟩ :=
      ih (fun t ht => hss t (List.mem_cons_of_mem s ht)) hg₁ (h.addSubRoomDoors hb hg)
    refine ⟨g', ?_, hg', h', hext.trans hext', ?_⟩
    · rw [addAllDoors, ← Prod.mk.eta (p := g.addSubRoomDoors b s), hok]
      exact hrest
    · intro t ht
      rcases List.mem_cons.1 ht with rfl | ht
      · exact hknows.extend hext'
      · exact hall t ht

/-- Vertices alone are faithful to a building that has the subrooms. -/
lemma foldl_addVertex_spec {ss : List SubRoomId} (hss : ∀ s ∈ ss, ∃ sub, b.subroom? s = some sub)
    (hg : g.WellFormed) (h : g.Faithful b) :
    (ss.foldl (fun g s => (g.addVertex s).1) g).WellFormed ∧
      (ss.foldl (fun g s => (g.addVertex s).1) g).Faithful b := by
  induction ss generalizing g with
  | nil => exact ⟨hg, h⟩
  | cons s ss ih =>
    exact ih (fun t ht => hss t (List.mem_cons_of_mem s ht)) (hg.addVertex s)
      (h.addVertex hg (hss s List.mem_cons_self))

/-- Every building has a complete network, which is faithful and knows all open doors. -/
theorem ofBuilding_spec (hb : b.WellFormed) : ∃ g, ofBuilding b = .ok g ∧ g.WellFormed ∧
    g.Faithful b ∧ ∀ s sub, b.subroom? s = some sub → g.Knows b s := by
  obtain ⟨hg, h⟩ := foldl_addVertex_spec (fun s => hb.mem_subrooms.1) wellFormed_empty
    faithful_empty
  obtain ⟨g, hok, hg', h', -, hall⟩ := addAllDoors_spec hb (fun s => hb.mem_subrooms.1) hg h
  exact ⟨g, hok, hg', h', fun s sub hs => hall s (hb.mem_subrooms.2 ⟨sub, hs⟩)⟩

end Egress.Network
