import Egress.Proofs.Network.Detours
import Egress.Proofs.Network.Edits
import Egress.Proofs.Network.Factors

/-!
# Knowing more and fearing less

A network covers another if it has all its edges, known by subroom and door, and none of them with
a larger multiplier. Whatever the numbers of vertices and edges are, every route of the other is
then a route of the network and costs no more, and so does the cheapest one. Networks come to cover
what they were when doors are added and when factors are lowered.
-/
namespace Egress
open Exact

namespace Exact

/-- Where a value lies between the infinities, what is no number lying at the lower end. Adding is
adding there, and a multiplier depends on nothing else. -/
noncomputable def level : Exact → EReal
  | real x => (x : EReal)
  | posInf => ⊤
  | negInf | nan => ⊥

lemma level_add (a b : Exact) : level (a + b) = level a + level b := by
  cases a with
  | real x =>
    cases b with
    | real y => exact EReal.coe_add x y
    | posInf => exact (EReal.coe_add_top x).symm
    | negInf => exact (EReal.add_bot _).symm
    | nan => exact (EReal.add_bot _).symm
  | posInf =>
    cases b with
    | real y => exact (EReal.top_add_coe y).symm
    | posInf => exact EReal.top_add_top.symm
    | negInf => exact (EReal.add_bot _).symm
    | nan => exact (EReal.add_bot _).symm
  | negInf => cases b <;> exact (EReal.bot_add _).symm
  | nan => cases b <;> exact (EReal.bot_add _).symm

lemma level_mono {a b : Exact} (h : a ≤ b) : level a ≤ level b := by
  cases a <;> cases b
  case real.real => exact EReal.coe_le_coe_iff.2 h
  all_goals first | exact bot_le | exact le_top | exact False.elim h

lemma level_sum (xs : List Exact) : level (Scalar.sum xs) = (xs.map level).sum := by
  have foldl_level (a : Exact) : level (xs.foldl (· + ·) a) = level a + (xs.map level).sum := by
    induction xs generalizing a with
    | nil => simp
    | cons x xs ih => simp [ih, level_add, add_assoc]
  rw [Scalar.sum, foldl_level, zero_eq, level, EReal.coe_zero, zero_add]

lemma le_of_level_le {a b : Exact} (ha : Scalar.isNaN a = false) (hb : Scalar.isNaN b = false)
    (h : level a ≤ level b) : a ≤ b := by
  cases a <;> cases b
  case real.real => exact EReal.coe_le_coe_iff.1 h
  case real.negInf x => exact absurd (le_bot_iff.1 h) (EReal.coe_ne_bot x)
  case posInf.real x => exact absurd (top_le_iff.1 h) (EReal.coe_ne_top x)
  case posInf.negInf => exact absurd h (not_le.2 bot_lt_top)
  all_goals trivial

lemma larger_zero_spec (a : Exact) : Scalar.isNaN (Scalar.larger a 0) = false ∧
    level (Scalar.larger a 0) = max (level a) 0 := by
  rw [zero_eq]
  cases a with
  | real x =>
    rw [larger_real]
    exact ⟨rfl, EReal.coe_strictMono.monotone.map_max⟩
  | posInf =>
    rw [show Scalar.larger posInf (real 0) = posInf from if_neg (not_posInf_lt _)]
    exact ⟨rfl, (max_eq_left le_top).symm⟩
  | negInf =>
    rw [show Scalar.larger negInf (real 0) = real 0 from if_pos trivial]
    exact ⟨rfl, (max_eq_right bot_le).symm⟩
  | nan =>
    rw [show Scalar.larger nan (real 0) = real 0 from rfl]
    exact ⟨rfl, (max_eq_right bot_le).symm⟩

/-- What lies above zero is not changed where negative values are made zero. -/
lemma larger_zero_of_level {a : Exact} (h : 0 ≤ level a) : Scalar.larger a 0 = a := by
  cases a with
  | real x => rw [zero_eq, larger_real, max_eq_left (EReal.coe_nonneg.1 h)]
  | posInf => exact if_neg (not_posInf_lt _)
  | negInf | nan => exact absurd (le_bot_iff.1 h) EReal.zero_ne_bot

end Exact

namespace FactorBag

/-- The value of the named factor, one where there is none. -/
def valueOf {α : Type} [Scalar α] (bag : FactorBag α) (name : String) : α :=
  ((bag.find? name).map (·.value)).getD 1

/-- How far the factors of other names deviate from one. -/
noncomputable def others (bag : FactorBag Exact) (name : String) : EReal :=
  ((bag.erase name).values.map fun f => level (f.value - 1)).sum

lemma level_deviation (bag : FactorBag Exact) (name : String) :
    level (Scalar.sum (bag.values.map fun f => f.value - 1)) =
      bag.others name + level (bag.valueOf name - 1) := by
  rw [level_sum, List.map_map]
  cases hfind : bag.find? name with
  | none =>
    have herase : bag.erase name = bag := by
      refine OrderedMap.ext_find? fun k => ?_
      by_cases hk : k = name
      · rw [hk, OrderedMap.find?_erase_self, hfind]
      · exact OrderedMap.find?_erase_of_ne bag hk
    have hneutral : level (bag.valueOf name - 1) = 0 := by
      simp [valueOf, hfind, one_eq, level]
    rw [others, herase, hneutral, add_zero]
    rfl
  | some f =>
    obtain ⟨es, es', hentries, herase⟩ := OrderedMap.exists_entries_erase hfind
    have hvalue : bag.valueOf name = f.value := by simp [valueOf, hfind]
    simp only [others, OrderedMap.values, hentries, herase, hvalue, List.map_append, List.map_cons,
      List.sum_append, List.sum_cons, Function.comp_def]
    rw [add_assoc, add_comm (List.sum _) (level _), add_left_comm, add_comm]

lemma level_deviation_mono {a b : Exact} (h : a ≤ b) : level (a - 1) ≤ level (b - 1) := by
  show level (a + -1) ≤ level (b + -1)
  rw [level_add, level_add]
  exact add_le_add_left (level_mono h) _

/-- Factors that are at least one deviate upwards. -/
lemma others_nonneg {bag : FactorBag Exact} {name : String}
    (h : ∀ other f, other ≠ name → bag.find? other = some f → 1 ≤ f.value) :
    0 ≤ bag.others name := by
  apply List.sum_nonneg
  intro y hy
  obtain ⟨f, hf, rfl⟩ := List.mem_map.1 hy
  obtain ⟨other, hfind⟩ := OrderedMap.mem_values_iff.1 hf
  have hother : other ≠ name := by
    rintro rfl
    simp at hfind
  rw [OrderedMap.find?_erase_of_ne _ hother] at hfind
  calc (0 : EReal)
      = level (1 - 1) := by simp [one_eq, level]
    _ ≤ level (f.value - 1) := level_deviation_mono (h other f hother hfind)

/-- Where one factor is at least `x` and all others are at least one, the multiplier is at least
`x`, and is the plain sum. -/
theorem le_multiplier {bag : FactorBag Exact} {name : String} {x : ℝ} (hx : 0 ≤ x)
    (hname : real x ≤ bag.valueOf name)
    (hothers : ∀ other f, other ≠ name → bag.find? other = some f → 1 ≤ f.value) :
    real x ≤ bag.multiplier ∧
      bag.multiplier = 1 + Scalar.sum (bag.values.map fun f => f.value - 1) := by
  have hlevel : level (real x) ≤ level (1 + Scalar.sum (bag.values.map fun f => f.value - 1)) :=
    calc level (real x)
        = level 1 + level (real x - 1) := by
          rw [← level_add, one_eq, real_sub_real, real_add_real, add_sub_cancel]
      _ ≤ level 1 + level (bag.valueOf name - 1) :=
          add_le_add_right (level_deviation_mono hname) _
      _ ≤ level 1 + (bag.others name + level (bag.valueOf name - 1)) :=
          add_le_add_right (le_add_of_nonneg_left (others_nonneg hothers)) _
      _ = _ := by rw [level_add, level_deviation bag name]
  have hplain : bag.multiplier = 1 + Scalar.sum (bag.values.map fun f => f.value - 1) :=
    larger_zero_of_level ((EReal.coe_nonneg.2 hx).trans hlevel)
  refine ⟨le_of_level_le rfl (larger_zero_spec _).1 ?_, hplain⟩
  rw [hplain]
  exact hlevel

theorem multiplier_mono {bag bag' : FactorBag Exact} {name : String}
    (hothers : bag.erase name = bag'.erase name) (h : bag.valueOf name ≤ bag'.valueOf name) :
    bag.multiplier ≤ bag'.multiplier := by
  have hvalue := level_deviation_mono h
  refine le_of_level_le (larger_zero_spec _).1 (larger_zero_spec _).1 ?_
  simp only [multiplier, (larger_zero_spec _).2, level_add, level_deviation _ name, others,
    hothers]
  exact max_le_max (add_le_add_right (add_le_add_right hvalue _) _) le_rfl

lemma erase_insert (bag : FactorBag Exact) (name : String) (f : Factor Exact) :
    (bag.insert name f).erase name = bag.erase name := by
  refine OrderedMap.ext_find? fun k => ?_
  by_cases hk : k = name
  · rw [hk, OrderedMap.find?_erase_self, OrderedMap.find?_erase_self]
  · rw [OrderedMap.find?_erase_of_ne _ hk, OrderedMap.find?_erase_of_ne _ hk,
      OrderedMap.find?_insert_of_ne _ hk]

lemma valueOf_insert (bag : FactorBag Exact) (name : String) (f : Factor Exact) :
    FactorBag.valueOf (bag.insert name f) name = f.value := by
  rw [valueOf, OrderedMap.find?_insert_self]
  rfl

end FactorBag

namespace Network

/-- The edges leave the same subroom through the same door and lead to the same place, and the
second has no larger multiplier. -/
structure Matches {α : Type} [Scalar α] (g h : Network α) (edge edge' : Edge α) : Prop where
  source : h.subroomAt? edge'.source = g.subroomAt? edge.source
  door : edge'.door = edge.door
  dest : edge'.dest.map h.subroomAt? = edge.dest.map g.subroomAt?
  line : edge'.line = edge.line
  multiplier : edge'.factors.multiplier ≤ edge.factors.multiplier

/-- Every edge of the first network is in the second, whatever its number there, and has no larger
multiplier. -/
def CoveredBy {α : Type} [Scalar α] (g h : Network α) : Prop :=
  ∀ e edge, g.edge? e = some edge → ∃ e' edge', h.edge? e' = some edge' ∧ g.Matches h edge edge'

variable {g h : Network Exact} {v w : VertexId} {q : Point Exact} {e e' : EdgeId}
  {edge edge' : Edge Exact} {es : List EdgeId}

/-- Edges that match lead out of the building together, and to the same subroom if not. -/
lemma Matches.dest_eq_none (hmatch : g.Matches h edge edge') (hdest : edge.dest = none) :
    edge'.dest = none := by
  have hsame := hmatch.dest
  rwa [hdest, Option.map_none, Option.map_eq_none_iff] at hsame

lemma Matches.exists_dest (hmatch : g.Matches h edge edge') (hdest : edge.dest = some w) :
    ∃ w', edge'.dest = some w' ∧ h.subroomAt? w' = g.subroomAt? w := by
  have hsame := hmatch.dest
  rw [hdest, Option.map_some] at hsame
  exact Option.map_eq_some_iff.1 hsame

/-- An edge that leads back where it is covered leads back. -/
lemma Matches.dest_eq_of_back {back back' : Edge Exact} (hg : g.WellFormed)
    (hedge : g.edge? e = some edge) (hmatch : g.Matches h edge edge')
    (hback : g.Matches h back back') (hdest : back'.dest = some edge'.source) :
    back.dest = some edge.source := by
  obtain ⟨s, hs⟩ := hg.exists_subroomAt?_source hedge
  have hsame := hback.dest
  rw [hdest, Option.map_some, hmatch.source, hs] at hsame
  obtain ⟨w, hw, hws⟩ := Option.map_eq_some_iff.1 hsame.symm
  rw [hw, hg.eq_of_subroomAt? hws hs]

/-- Distances cost no more under a smaller multiplier. -/
lemma toCost_mul_le {d m m' : Exact} (hm' : m'.IsWeight) (hle : m' ≤ m) (hd : d.IsWeight) :
    toCost (d * m') ≤ toCost (d * m) := by
  by_cases htop : toCost (d * m) = ⊤
  · rw [htop]
    exact le_top
  · obtain ⟨z, hz⟩ := exists_real_of_toCost htop
    obtain ⟨⟨x, rfl⟩, y, rfl⟩ := real_of_mul hz
    obtain ⟨y', rfl⟩ : ∃ y', m' = real y' := by
      cases m' with
      | real y' => exact ⟨y', rfl⟩
      | negInf => exact absurd rfl hm'.2
      | _ => exact False.elim hle
    rw [real_mul_real, real_mul_real, toCost_real, toCost_real, WithTop.coe_le_coe]
    exact mul_le_mul_of_nonneg_left hle (WithTop.coe_nonneg.1 hd.1)

lemma Matches.toll_le (hmatch : g.Matches h edge edge') (hedge : g.edge? e = some edge)
    (hedge' : h.edge? e' = some edge') (q : Point Exact) :
    h.toll q e' ≤ g.toll q e ∧ h.doorCentre e' = g.doorCentre e := by
  have hcentre : h.doorCentre e' = g.doorCentre e := by
    simp only [doorCentre, hedge, hedge', hmatch.line]
  refine ⟨?_, hcentre⟩
  rw [toll_eq hedge, toll_eq hedge', hcentre]
  exact toCost_mul_le (isWeight_larger_zero _) hmatch.multiplier (isWeight_sqrt _)

/-- Every route of a network is in a network that covers it, and costs no more there. -/
theorem CoveredBy.exists_isRoute (hcover : g.CoveredBy h) (hg : g.WellFormed)
    (hh : h.WellFormed) (hes : g.IsRoute v (e :: es)) (hedge : g.edge? e = some edge) :
    ∃ e' edge' es', h.edge? e' = some edge' ∧ g.Matches h edge edge' ∧
      h.IsRoute edge'.source (e' :: es') ∧
      ∀ q, h.wayToll q (e' :: es') ≤ g.wayToll q (e :: es) := by
  induction es generalizing v e edge with
  | nil =>
    obtain ⟨e', edge', hedge', hmatch⟩ := hcover e edge hedge
    obtain ⟨exit, hexit, hdest⟩ := hes.isExit
    obtain rfl : exit = edge := Option.some.inj (hexit.symm.trans hedge)
    refine ⟨e', edge', [], hedge', hmatch, ?_, fun q => ?_⟩
    · exact isRoute_singleton ⟨edge', hedge', rfl⟩ ⟨edge', hedge', hmatch.dest_eq_none hdest⟩
    · simpa only [wayToll, add_zero] using (hmatch.toll_le hedge hedge' q).1
  | cons f es ih =>
    obtain ⟨e', edge', hedge', hmatch⟩ := hcover e edge hedge
    obtain ⟨first, next, hfirst, hnext, hdest, hback⟩ := (List.isChain_cons_cons.1 hes.follows).1
    obtain rfl : first = edge := Option.some.inj (hfirst.symm.trans hedge)
    obtain ⟨first', w, hfirst', -, hw, htail⟩ := hes.tail
    obtain ⟨f', next', es', hnext', hmatch', hroute, hle⟩ := ih htail hnext
    -- the edge leads to the vertex that the covered rest of the route leaves
    obtain ⟨w', hw', hsame⟩ := hmatch.exists_dest hdest
    obtain ⟨s, hs⟩ := hg.exists_subroomAt?_source hnext
    obtain rfl : w' = next'.source :=
      hh.eq_of_subroomAt? (hsame.trans hs) (hmatch'.source.trans hs)
    refine ⟨e', edge', f' :: es', hedge', hmatch, ?_, fun q => ?_⟩
    · refine hroute.cons ⟨edge', hedge', rfl⟩ ⟨edge', next', hedge', hnext', hw', fun heq => ?_⟩
      exact hback (hmatch.dest_eq_of_back hg hedge hmatch' heq)
    · obtain ⟨htoll, hcentre⟩ := hmatch.toll_le hedge hedge' q
      calc h.wayToll q (e' :: f' :: es')
          = h.toll q e' + h.wayToll (g.doorCentre e) (f' :: es') := by rw [wayToll, hcentre]
        _ ≤ g.toll q e + g.wayToll (g.doorCentre e) (f :: es) := add_le_add htoll (hle _)

/-- Wherever the first network knows a way out the second knows one too, and it costs no more. -/
def NoDearer (g h : Network Exact) : Prop :=
  ∀ s q d, g.cheapestDestination s q = .ok d →
    ∃ d', h.cheapestDestination s q = .ok d' ∧ d'.cost ≤ d.cost

theorem CoveredBy.noDearer (hcover : g.CoveredBy h) (hg : g.WellFormed) (hh : h.WellFormed) :
    g.NoDearer h := by
  intro s q d hd
  cases hv : g.vertexOf.find? s with
  | none => simp [cheapestDestination, hv] at hd
  | some v =>
    rcases cheapestDestination_toll hg hv q with
      ⟨-, herror⟩ | ⟨d', x, hok, hcost, ⟨es, hes, htoll⟩, -⟩
    · rw [herror] at hd
      cases hd
    · obtain rfl : d' = d := Except.ok.inj (hok.symm.trans hd)
      cases es with
      | nil => exact absurd rfl hes.ne_nil
      | cons e es =>
        obtain ⟨edge, hedge, rfl⟩ := hes.leaves
        obtain ⟨e', edge', es', hedge', hmatch, hroute, hle⟩ :=
          hcover.exists_isRoute hg hh hes hedge
        have hs := (hg.vertexOf_iff s _).1 hv
        have hv' := (hh.vertexOf_iff s _).2 (hmatch.source.trans hs)
        have hbound := (hle q).trans_eq htoll
        rcases cheapestDestination_toll hh hv' q with
          ⟨hnone, -⟩ | ⟨d', x', hok', hcost', -, hmin⟩
        · rw [hnone _ hroute, top_le_iff] at hbound
          exact absurd hbound WithTop.coe_ne_top
        · refine ⟨d', hok', ?_⟩
          rw [hcost, hcost', real_le_real]
          exact WithTop.coe_le_coe.1 ((hmin _ hroute).trans hbound)

lemma multiplier_le_refl (bag : FactorBag Exact) : bag.multiplier ≤ bag.multiplier :=
  le_of_level_le (larger_zero_spec _).1 (larger_zero_spec _).1 le_rfl

theorem Appends.coveredBy (happ : g.Appends h) (hg : g.WellFormed) : g.CoveredBy h := by
  intro e edge hedge
  obtain ⟨s, hs⟩ := hg.exists_subroomAt?_source hedge
  refine ⟨e, edge, happ.edge e edge hedge, (happ.subroomAt _ s hs).trans hs.symm, rfl, ?_, rfl,
    multiplier_le_refl _⟩
  cases hw : edge.dest with
  | none => rfl
  | some w =>
    obtain ⟨t, ht⟩ := exists_subroomAt? (hg.dest_lt e edge w hedge hw)
    rw [Option.map_some, Option.map_some, happ.subroomAt w t ht, ht]

/-- A network covers another that differs in factors only, if they are no larger. -/
theorem Reweighs.coveredBy (hw : g.Reweighs h)
    (hle : ∀ e edge edge', g.edge? e = some edge → h.edge? e = some edge' →
      edge'.factors.multiplier ≤ edge.factors.multiplier) : g.CoveredBy h := by
  intro e edge hedge
  obtain ⟨bag, hbag⟩ := hw.extends.edge e edge hedge
  have hsubroom : h.subroomAt? = g.subroomAt? := funext hw.subroomAt?_eq
  refine ⟨e, _, hbag, ?_, rfl, ?_, rfl, hle e edge _ hedge hbag⟩
  · rw [hsubroom]
    rfl
  · rw [hsubroom]
    rfl

/-- The value of the named factor of an edge, one where there is none. -/
noncomputable def factorValue (g : Network Exact) (e : EdgeId) (name : String) : Exact :=
  ((g.factor? e name).map (·.value)).getD 1

variable {name : String} {time value : Exact}

/-- Writing a factor changes the bag of one edge, from which it takes nothing else. -/
lemma edge?_setFactor_cases (hedge : g.edge? e' = some edge)
    (hedge' : (g.setFactor name time e value).edge? e' = some edge') :
    edge' = edge ∨ g.factorValue e name = edge.factors.valueOf name ∧
      edge'.factors = edge.factors.insert name ⟨value, time⟩ := by
  rw [edge?_setFactor, hedge] at hedge'
  split at hedge'
  · rename_i heq
    subst heq
    obtain rfl := Option.some.inj hedge'
    refine .inr ⟨?_, rfl⟩
    rw [factorValue, factor?, hedge]
    rfl
  · exact .inl (Option.some.inj hedge').symm

/-- A network covers what it was before a factor was lowered. -/
theorem coveredBy_setFactor (hle : value ≤ g.factorValue e name) :
    g.CoveredBy (g.setFactor name time e value) := by
  refine (reweighs_setFactor g name time e value).coveredBy fun e' edge edge' hedge hedge' => ?_
  rcases edge?_setFactor_cases hedge hedge' with rfl | ⟨hvalue, hbag⟩
  · exact multiplier_le_refl _
  · rw [hbag]
    refine FactorBag.multiplier_mono (FactorBag.erase_insert _ name _) ?_
    rwa [FactorBag.valueOf_insert, ← hvalue]

/-- A network covers what it becomes when a factor is raised. -/
theorem setFactor_coveredBy (hle : g.factorValue e name ≤ value) :
    (g.setFactor name time e value).CoveredBy g := by
  have hsame := (reweighs_setFactor g name time e value).symm
  refine hsame.coveredBy fun e' edge' edge hedge' hedge => ?_
  rcases edge?_setFactor_cases hedge hedge' with rfl | ⟨hvalue, hbag⟩
  · exact multiplier_le_refl _
  · rw [hbag]
    refine FactorBag.multiplier_mono (FactorBag.erase_insert _ name _).symm ?_
    rwa [FactorBag.valueOf_insert, ← hvalue]

/-- Knowing more or fearing less never makes the way out longer. A network that covers another knows
a way out wherever the other does, and none that costs more; adding doors and lowering factors make
networks that cover what they were, and raising factors one that is covered. -/
theorem cheapestDestination_noDearer :
    (∀ g h : Network Exact, g.WellFormed → h.WellFormed → g.CoveredBy h → g.NoDearer h) ∧
    (∀ (g : Network Exact) (edit : Edit Exact), g.WellFormed → edit.IsAddition →
      g.NoDearer (g.edit edit).1) ∧
    ∀ (g : Network Exact) (name : String) (time : Exact) (e : EdgeId) (value : Exact),
      g.WellFormed →
      (value ≤ g.factorValue e name → g.NoDearer (g.setFactor name time e value)) ∧
      (g.factorValue e name ≤ value → (g.setFactor name time e value).NoDearer g) := by
  refine ⟨fun g h hg hh hcover => hcover.noDearer hg hh, ?_, ?_⟩
  · intro g edit hg hadd
    exact ((hg.appends_edit hadd).coveredBy hg).noDearer hg (hg.edit edit)
  · intro g name time e value hg
    have hset := hg.reweigh (reweighs_setFactor g name time e value)
    exact ⟨fun hle => (coveredBy_setFactor hle).noDearer hg hset,
      fun hle => (setFactor_coveredBy hle).noDearer hset hg⟩

lemma coveredBy_rotundaNetwork : hallNetwork.CoveredBy rotundaNetwork := by
  intro e edge hedge
  obtain ⟨rfl, rfl⟩ := edge?_hallNetwork hedge
  exact ⟨0, _, rfl, rfl, rfl, rfl, rfl, multiplier_le_refl _⟩

lemma exists_destination_hall : ∃ d,
    hallNetwork.cheapestDestination 0 ⟨real 1, real 1⟩ = .ok d := by
  have hg : hallNetwork.WellFormed := (Grown.addEdge hall 0 3 0 .empty addEdge_hall).wellFormed
  have hfin : hallNetwork.IsFinite := by
    intro e edge hedge
    obtain ⟨-, rfl⟩ := edge?_hallNetwork hedge
    exact ⟨⟨rfl, rfl⟩, ⟨rfl, rfl⟩, fun f hf => absurd hf List.not_mem_nil⟩
  have hroute : hallNetwork.IsRoute 0 [0] := isRoute_singleton ⟨_, rfl, rfl⟩ ⟨_, rfl, rfl⟩
  have hv : hallNetwork.vertexOf.find? 0 = some 0 := rfl
  rcases cheapestDestination_toll hg hv ⟨real 1, real 1⟩ with ⟨hnone, -⟩ | ⟨d, -, hd, -⟩
  · have htop := hnone [0] hroute
    rw [hfin.wayToll ⟨rfl, rfl⟩] at htop
    exact absurd htop WithTop.coe_ne_top
  · exact ⟨d, hd⟩

/-- The rotunda has the door of the hall and one more, so that the way out is no longer, and no
shorter once its door is dreaded. -/
theorem cheapestDestination_noDearer_rotunda : hallNetwork.WellFormed ∧
    rotundaNetwork.WellFormed ∧ hallNetwork.CoveredBy rotundaNetwork ∧
    rotundaNetwork.factorValue 0 "Jam" ≤ real 2 ∧
    ∃ d d', hallNetwork.cheapestDestination 0 ⟨real 1, real 1⟩ = .ok d ∧
      rotundaNetwork.cheapestDestination 0 ⟨real 1, real 1⟩ = .ok d' ∧ d'.cost ≤ d.cost ∧
      ∀ d'', (rotundaNetwork.setFactor "Jam" 0 0 (real 2)).cheapestDestination 0
        ⟨real 1, real 1⟩ = .ok d'' → d'.cost ≤ d''.cost := by
  obtain ⟨hcovered, -, hwritten⟩ := cheapestDestination_noDearer
  have hg : hallNetwork.WellFormed := (Grown.addEdge hall 0 3 0 .empty addEdge_hall).wellFormed
  have hh := grown_rotundaNetwork.wellFormed
  have hvalue : rotundaNetwork.factorValue 0 "Jam" ≤ real 2 := by
    show (1 : Exact) ≤ real 2
    rw [one_eq, real_le_real]
    exact one_le_two
  obtain ⟨d, hd⟩ := exists_destination_hall
  obtain ⟨d', hd', hle⟩ := hcovered _ _ hg hh coveredBy_rotundaNetwork 0 _ d hd
  refine ⟨hg, hh, coveredBy_rotundaNetwork, hvalue, d, d', hd, hd', hle, fun d'' hd'' => ?_⟩
  obtain ⟨d₁, hd₁, hle₁⟩ := (hwritten _ "Jam" 0 0 (real 2) hh).2 hvalue 0 _ d'' hd''
  obtain rfl : d₁ = d' := Except.ok.inj (hd₁.symm.trans hd')
  exact hle₁

end Network

end Egress
