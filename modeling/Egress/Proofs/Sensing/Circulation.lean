import Egress.Proofs.Network.Discovery
import Egress.Proofs.Sensing.Firing

/-!
# Maps with all circulation factors

The factor of circulation depends on nothing but the kinds of the subrooms at the ends of an edge.
Circulation comes after discovery and is meant for everything that discovery is meant for, and no
other sensor writes its factors. So a map in which every edge has the factor that suits it stays
such a map, and an event that is meant for circulation and not for discovery makes it one.
-/
namespace Egress

variable {α : Type} {b : Building α} {g g' : Network α} {edge : Edge α} {v : VertexId}

/-- The vertex stands for the subroom of the building. -/
def Network.StandsFor (g : Network α) (b : Building α) (v : VertexId) (sub : SubRoom α) : Prop :=
  ∃ s, g.subroomAt? v = some s ∧ b.subroom? s = some sub

lemma Network.StandsFor.unique {sub sub' : SubRoom α} (h : g.StandsFor b v sub)
    (h' : g.StandsFor b v sub') : sub = sub' := by
  obtain ⟨s, hs, hsub⟩ := h
  obtain ⟨s', hs', hsub'⟩ := h'
  obtain rfl : s = s' := Option.some.inj (hs.symm.trans hs')
  exact Option.some.inj (hsub.symm.trans hsub')

lemma Network.StandsFor.extend {sub : SubRoom α} (h : g.StandsFor b v sub) (hext : g.Extends g') :
    g'.StandsFor b v sub := by
  obtain ⟨s, hs, hsub⟩ := h
  exact ⟨s, hext.subroomAt v s hs, hsub⟩

variable [Scalar α]

namespace Circulation

/-- The factor that circulation has for an edge. -/
inductive Suits (b : Building α) (g : Network α) (edge : Edge α) : α → Prop
  /-- Doors out of the building are neutral. -/
  | exit : edge.dest = none → Suits b g edge 1
  /-- Doors between subrooms of one kind are neutral. -/
  | alike {w : VertexId} {start stop : SubRoom α} : edge.dest = some w →
    g.StandsFor b edge.source start → g.StandsFor b w stop → start.kind = stop.kind →
    Suits b g edge 1
  /-- Other doors have the factor of the subroom behind them. -/
  | into {w : VertexId} {start stop : SubRoom α} : edge.dest = some w →
    g.StandsFor b edge.source start → g.StandsFor b w stop → start.kind ≠ stop.kind →
    Suits b g edge (factor stop.kind)

/-- There is one factor that suits an edge. -/
theorem Suits.unique {x y : α} (h : Suits b g edge x) (h' : Suits b g edge y) : x = y := by
  cases h with
  | exit hdest =>
    cases h' with
    | exit _ => rfl
    | alike hdest' | into hdest' => cases hdest.symm.trans hdest'
  | alike hdest hstart hstop hkind =>
    cases h' with
    | exit hdest' => cases hdest.symm.trans hdest'
    | alike _ _ _ _ => rfl
    | into hdest' hstart' hstop' hkind' =>
      obtain rfl := Option.some.inj (hdest.symm.trans hdest')
      rw [hstart.unique hstart', hstop.unique hstop'] at hkind
      exact absurd hkind hkind'
  | into hdest hstart hstop hkind =>
    cases h' with
    | exit hdest' => cases hdest.symm.trans hdest'
    | alike hdest' hstart' hstop' hkind' =>
      obtain rfl := Option.some.inj (hdest.symm.trans hdest')
      rw [hstart.unique hstart', hstop.unique hstop'] at hkind
      exact absurd hkind' hkind
    | into hdest' _ hstop' _ =>
      obtain rfl := Option.some.inj (hdest.symm.trans hdest')
      rw [hstop.unique hstop']

theorem Suits.extend {x : α} (h : Suits b g edge x) (hext : g.Extends g') (bag : FactorBag α) :
    Suits b g' (edge.withFactors bag) x := by
  cases h with
  | exit hdest => exact .exit hdest
  | alike hdest hstart hstop hkind =>
    exact .alike hdest (hstart.extend hext) (hstop.extend hext) hkind
  | into hdest hstart hstop hkind =>
    exact .into hdest (hstart.extend hext) (hstop.extend hext) hkind

theorem suits_of_edgeFactor {env : Surroundings α} (hg : g.WellFormed) {e : EdgeId}
    (he : g.edge? e = some edge) {y : EdgeId × α} (h : edgeFactor g env edge = .ok y) :
    Suits env.building g edge y.2 := by
  have hside : g.destSubRoom? edge.id = edge.dest.bind g.subroomAt? := by
    rw [Network.destSubRoom?, hg.id_eq e edge he, he, Option.bind_some]
  obtain ⟨s, hs⟩ := hg.exists_subroomAt?_source he
  unfold edgeFactor at h
  rw [hside] at h
  cases hw : edge.dest with
  | none =>
    rw [hw] at h
    rw [← Except.ok.inj h]
    exact .exit hw
  | some w =>
    obtain ⟨t, ht⟩ := Network.exists_subroomAt? (hg.dest_lt e edge w he hw)
    simp only [hw, Option.bind_some, ht, hs] at h
    obtain ⟨stop, hstop, h⟩ := bind_eq_ok_iff.1 h
    obtain ⟨_, hkind, h⟩ := bind_eq_ok_iff.1 h
    obtain ⟨_, hinner, rfl⟩ := map_eq_ok_iff.1 hkind
    obtain ⟨start, hstart, rfl⟩ := map_eq_ok_iff.1 hinner
    have hfrom : g.StandsFor env.building edge.source start :=
      ⟨s, hs, Surroundings.subroom_eq_ok_iff.1 hstart⟩
    have hto : g.StandsFor env.building w stop := ⟨t, ht, Surroundings.subroom_eq_ok_iff.1 hstop⟩
    rw [← Except.ok.inj h]
    simp only [Option.some.injEq]
    split
    · exact .alike hw hfrom hto ‹_›
    · exact .into hw hfrom hto ‹_›

end Circulation

/-- Every edge has a factor of circulation that suits it. -/
def Network.Circulated (g : Network α) (b : Building α) : Prop :=
  ∀ e edge, g.edge? e = some edge → ∃ v time,
    g.factor? e Circulation.name = some ⟨v, time⟩ ∧ Circulation.Suits b g edge v

/-- The map is sound, and every edge has a factor of circulation that suits it. -/
structure CognitiveMap.Circulated (m : CognitiveMap α) (b : Building α) : Prop where
  sound : m.Sound b
  network : m.network.Circulated b

/-- The factor that suits an edge is the one that it has in every larger network with all of
them. -/
theorem Network.Circulated.exists_factor? (h : g'.Circulated b) (hext : g.Extends g') {e : EdgeId}
    (he : g.edge? e = some edge) {x : α} (hx : Circulation.Suits b g edge x) :
    ∃ time, g'.factor? e Circulation.name = some ⟨x, time⟩ := by
  obtain ⟨bag, hbag⟩ := hext.edge e edge he
  obtain ⟨y, time, hfactor, hy⟩ := h e _ hbag
  rw [hy.unique (hx.extend hext bag)] at hfactor
  exact ⟨time, hfactor⟩

variable {a : Pedestrian α} {m m' : CognitiveMap α} {env : Surroundings α}

lemma CognitiveMap.Circulated.reweigh (h : m.Circulated b) (hsound : m'.Sound b)
    (hw : m.Reweighs m')
    (hsame : ∀ e, m'.network.factor? e Circulation.name = m.network.factor? e Circulation.name) :
    m'.Circulated b := by
  refine ⟨hsound, fun e edge he => ?_⟩
  obtain ⟨old, bag, hold, rfl⟩ := hw.network.exists_edge? he
  obtain ⟨v, time, hfactor, hsuits⟩ := h.network e old hold
  exact ⟨v, time, (hsame e).trans hfactor, hsuits.extend hw.network.extends bag⟩

namespace Sensor

variable {s : Sensor α}

omit [Scalar α] in
lemma eq_circulation_of_name (h : s.name = Circulation.name) : s = .circulation := by
  cases s with
  | circulation => rfl
  | discovery | congestion _ | danger _ | recency _ => exact absurd h (by rw [name]; decide)

/-- Circulation makes every map of its building one with all its factors. -/
theorem circulated_run_circulation (hb : env.building.WellFormed) (hm : m.Sound env.building)
    (a : Pedestrian α) : (Sensor.circulation.run a m env).1.Circulated env.building := by
  have hw : m.Reweighs (Sensor.circulation.run a m env).1 := reweighs_run nofun
  refine ⟨(run_sound hb hm .circulation).1, fun e edge he => ?_⟩
  obtain ⟨old, bag, hold, rfl⟩ := hw.network.exists_edge? he
  obtain ⟨v, hfound, hwritten⟩ := exists_factor?_circulation hm.faithful hm.wellFormed hold a
  have hsuits := Circulation.suits_of_edgeFactor hm.wellFormed hold hfound
  exact ⟨v, env.time, hwritten, hsuits.extend hw.network.extends bag⟩

/-- No sensor but discovery takes a factor of circulation away. -/
theorem circulated_run (hb : env.building.WellFormed) (hs : s ≠ .discovery)
    (h : m.Circulated env.building) : (s.run a m env).1.Circulated env.building := by
  by_cases hname : s.name = Circulation.name
  · obtain rfl := eq_circulation_of_name hname
    exact circulated_run_circulation hb h.sound a
  · refine h.reweigh (s.run_sound hb h.sound).1 (reweighs_run hs) fun e => ?_
    rcases s.run_updates a m env e Circulation.name with hsame | ⟨heq, -⟩
    · exact hsame
    · exact absurd heq.symm hname

/-- Discovery that fails has discovered nothing. -/
lemma run_discovery_eq_of_error (hb : env.building.WellFormed) (hm : m.network.WellFormed)
    {e : SensorError α} (h : (Sensor.discovery.run a m env).2 = .error e) :
    (Sensor.discovery.run a m env).1 = m := by
  cases hsub : env.building.subroom? a.subroom with
  | none =>
    simp only [run, Network.addSubRoomDoors_of_unknown hsub]
  | some sub =>
    obtain ⟨n, hn, -⟩ := hm.addSubRoomDoors_spec hb ⟨sub, hsub⟩
    simp only [run, hn] at h
    cases h

end Sensor

/-- A larger set of events intersects what a smaller one does. -/
lemma Events.intersects_of_contains {small large events : Events} (h : large.contains small = true)
    (hint : small.intersects events = true) : large.intersects events = true := by
  simp only [contains, intersects, beq_iff_eq, bne_iff_ne] at *
  intro hnone
  apply hint
  rw [← h, UInt8.and_assoc, UInt8.and_comm small.bits, ← UInt8.and_assoc, hnone, UInt8.zero_and]

namespace SensorSuite

variable {events : Events} {suite : SensorSuite α} {p : SensorParams α}

lemma circulated_fire_of_ne_discovery (hb : env.building.WellFormed)
    (hsuite : ∀ s registered, (s, registered) ∈ suite → s ≠ .discovery)
    (h : m.Circulated env.building) :
    (fire events a env suite m).1.Circulated env.building :=
  (senses_fire events suite m).holds (P := fun m => m.Circulated env.building)
    (fun s registered _ hmem hm => Sensor.circulated_run hb (hsuite s registered hmem) hm) h

/-- From circulation on, an event that is meant for it makes a map with all its factors, and every
other keeps one. -/
lemma circulated_fire_cons (hb : env.building.WellFormed)
    (hsuite : ∀ s registered, (s, registered) ∈ suite → s ≠ .discovery)
    (hm : m.Sound env.building)
    (h : m.Circulated env.building ∨
      (Sensor.circulation : Sensor α).usualEvents.intersects events = true) :
    (fire events a env ((.circulation, (Sensor.circulation : Sensor α).usualEvents) :: suite)
      m).1.Circulated env.building := by
  cases hint : (Sensor.circulation : Sensor α).usualEvents.intersects events with
  | true =>
    obtain ⟨_, -, hrun⟩ := Sensor.exists_run_circulation hm.faithful a
    rw [(fire_cons_of_ok suite hint (congrArg Prod.snd hrun)).1]
    exact circulated_fire_of_ne_discovery hb hsuite (Sensor.circulated_run_circulation hb hm a)
  | false =>
    rw [fire_cons_of_not hint]
    refine circulated_fire_of_ne_discovery hb hsuite (h.resolve_right ?_)
    rw [hint]
    exact Bool.false_ne_true

/-- Every event keeps a map with all factors of circulation, whatever is discovered and whatever
fails. An event that is meant for circulation and not for discovery makes one. -/
theorem circulated_fire (hb : env.building.WellFormed) (hp : p.circulation = true)
    (hm : m.Sound env.building)
    (h : m.Circulated env.building ∨
      (Sensor.circulation : Sensor α).usualEvents.intersects events = true ∧
        Events.intersects .noRouteKnown events = false) :
    (fire events a env (ofParams p) m).1.Circulated env.building := by
  obtain ⟨rest, hrest, hsuite | hsuite⟩ := exists_ofParams_eq hp
  · rw [hsuite]
    exact circulated_fire_cons hb hrest hm (h.imp_right And.left)
  · rw [hsuite]
    cases hint : Events.intersects .noRouteKnown events with
    | false =>
      rw [fire_cons_of_not hint]
      exact circulated_fire_cons hb hrest hm (h.imp_right And.left)
    | true =>
      have hmeant : (Sensor.circulation : Sensor α).usualEvents.intersects events = true :=
        Events.intersects_of_contains (by rw [Sensor.usualEvents]; decide) hint
      cases hrun : (Sensor.discovery.run a m env).2 with
      | error e =>
        rw [fire_cons_of_error hint hrun, Sensor.run_discovery_eq_of_error hb hm.wellFormed hrun]
        refine h.resolve_right fun hnot => ?_
        rw [hint] at hnot
        cases hnot.2
      | ok _ =>
        rw [(fire_cons_of_ok _ hint hrun).1]
        exact circulated_fire_cons hb hrest (Sensor.run_sound hb hm .discovery).1 (.inr hmeant)

end SensorSuite

end Egress
