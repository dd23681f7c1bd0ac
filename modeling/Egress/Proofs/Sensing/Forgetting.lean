import Egress.Proofs.Exact
import Egress.Proofs.Sensing.Firing

/-!
# Forgetting old destinations

The sensor of recent destinations looks at the remembered ones only. What has been forgotten is so
old that its door would be neutral, and a factor that is neutral weighs as much as none. So it makes
no difference whether old destinations are remembered.
-/
namespace Egress

variable {α : Type} [Scalar α]

/-- In one plus a sum, what a neutral factor contributes may be left out. Adding zero is exact, so
this is so of numbers that are rounded too. -/
def Scalar.OneIsNeutral (α : Type) [Scalar α] : Prop :=
  ∀ xs ys : List α, 1 + Scalar.sum (xs ++ (1 - 1) :: ys) = 1 + Scalar.sum (xs ++ ys)

lemma Exact.oneIsNeutral : Scalar.OneIsNeutral Exact := by
  have hzero (x : Exact) : x + (1 - 1) = x := by
    have hdiff : (1 : Exact) - 1 = real 0 := by
      rw [one_eq, real_sub_real, sub_self]
    rw [hdiff]
    cases x with
    | real x => rw [real_add_real, add_zero]
    | _ => rfl
  intro xs ys
  simp only [Scalar.sum, List.foldl_append, List.foldl_cons, hzero]

/-- How recently the door of an edge has been headed for weighs. Without a factor it weighs as a
neutral one. -/
def Edge.recency (edge : Edge α) : α :=
  ((edge.factors.find? Recency.name).map (·.value)).getD 1

namespace FactorBag

/-- The bag without a factor of recent destinations that is neutral. -/
noncomputable def settled (bag : FactorBag α) : FactorBag α :=
  open Classical in
  if ∃ t, bag.find? Recency.name = some ⟨1, t⟩ then bag.erase Recency.name else bag

lemma find?_settled_of_ne (bag : FactorBag α) {name : String} (h : name ≠ Recency.name) :
    bag.settled.find? name = bag.find? name := by
  unfold settled
  split
  · exact OrderedMap.find?_erase_of_ne bag h
  · rfl

lemma settled_empty : settled (OrderedMap.empty : FactorBag α) = .empty :=
  if_neg (by simp)

/-- What is kept under other names settles by itself. -/
lemma settled_insert (bag : FactorBag α) {name : String} (h : name ≠ Recency.name)
    (v : Factor α) : FactorBag.settled (bag.insert name v) = bag.settled.insert name v := by
  have hfind : (bag.insert name v).find? Recency.name = bag.find? Recency.name :=
    OrderedMap.find?_insert_of_ne bag h.symm v
  unfold settled
  rw [hfind]
  split
  · refine OrderedMap.ext_find? fun k => ?_
    by_cases hk : k = Recency.name
    · subst hk
      rw [OrderedMap.find?_erase_self, OrderedMap.find?_insert_of_ne _ h.symm,
        OrderedMap.find?_erase_self]
    · rw [OrderedMap.find?_erase_of_ne _ hk, OrderedMap.find?_insert, OrderedMap.find?_insert,
        OrderedMap.find?_erase_of_ne _ hk]
  · rfl

lemma multiplier_settled (hone : Scalar.OneIsNeutral α) (bag : FactorBag α) :
    bag.settled.multiplier = bag.multiplier := by
  unfold settled
  split
  · rename_i hneutral
    obtain ⟨t, ht⟩ := hneutral
    obtain ⟨es, es', hentries, herase⟩ := OrderedMap.exists_entries_erase ht
    simp only [multiplier, OrderedMap.values, hentries, herase, List.map_append, List.map_cons]
    exact congrArg (Scalar.larger · 0) (hone _ _).symm
  · rfl

/-- Settled bags are alike if what is kept under other names is, and so is how recency weighs. -/
lemma settled_eq_of_neutral {bag bag' : FactorBag α} (h : bag.settled = bag'.settled)
    {new new' : FactorBag α} (hnew : ∀ name, name ≠ Recency.name → new.find? name = bag.find? name)
    (hnew' : ∀ name, name ≠ Recency.name → new'.find? name = bag'.find? name)
    (hrecency : new.settled.find? Recency.name = new'.settled.find? Recency.name) :
    new.settled = new'.settled := by
  refine OrderedMap.ext_find? fun name => ?_
  by_cases hname : name = Recency.name
  · rw [hname, hrecency]
  · rw [find?_settled_of_ne _ hname, find?_settled_of_ne _ hname, hnew name hname,
      hnew' name hname, ← find?_settled_of_ne bag hname, h, find?_settled_of_ne _ hname]

end FactorBag

namespace Recency

variable (r : Recency α) {depth : ℕ} {history : List DoorId} {door : DoorId}

/-- The latest visit to a door decides, and its factor is by the number of later ones. -/
theorem find?_doorFactors {xs ys : List DoorId} (h : door ∉ ys) :
    (r.doorFactors (xs ++ door :: ys)).find? door = some (r.factor ys.length) := by
  have hage : (xs ++ door :: ys).length - 1 - xs.length = ys.length := by
    simp only [List.length_append, List.length_cons]
    omega
  unfold doorFactors
  simp only [List.zipIdx_append, List.zipIdx_cons, List.map_append, List.map_cons, zero_add, hage]
  refine OrderedMap.find?_ofList_append fun e he => ?_
  obtain ⟨⟨d, i⟩, hd, rfl⟩ := List.mem_map.1 he
  intro heq
  have hdoor : d = door := heq
  exact h (hdoor ▸ List.fst_mem_of_mem_zipIdx hd)

theorem find?_doorFactors_of_not_mem (h : door ∉ history) :
    (r.doorFactors history).find? door = none := by
  cases hfind : (r.doorFactors history).find? door with
  | none => rfl
  | some f =>
    obtain ⟨⟨d, i⟩, hd, heq⟩ := List.mem_map.1 (OrderedMap.mem_of_find?_ofList hfind)
    obtain ⟨rfl, -⟩ := Prod.mk.inj heq
    exact absurd (List.fst_mem_of_mem_zipIdx hd) h

omit [Scalar α] in
lemma exists_last_visit (h : door ∈ history) : ∃ xs ys, history = xs ++ door :: ys ∧ door ∉ ys := by
  obtain ⟨xs, ys, heq, hnot⟩ := List.eq_append_cons_of_mem (List.mem_reverse.2 h)
  refine ⟨ys.reverse, xs.reverse, ?_, by simpa using hnot⟩
  have hreverse := congrArg List.reverse heq
  simpa using hreverse

/-- A door that has been forgotten would be neutral. -/
theorem find?_doorFactors_latest (hdepth : r.depth ≤ depth) (history : List DoorId)
    (door : DoorId) :
    (r.doorFactors (CognitiveMap.latest depth history)).find? door =
        (r.doorFactors history).find? door ∨
      (r.doorFactors (CognitiveMap.latest depth history)).find? door = none ∧
        (r.doorFactors history).find? door = some 1 := by
  by_cases hmem : door ∈ history
  · obtain ⟨xs, ys, rfl, hlater⟩ := exists_last_visit hmem
    rw [r.find?_doorFactors hlater, CognitiveMap.latest, List.drop_append]
    by_cases hage : ys.length < depth
    · left
      have hstart : (xs ++ door :: ys).length - depth - xs.length = 0 := by
        simp only [List.length_append, List.length_cons]
        omega
      rw [hstart, List.drop_zero, r.find?_doorFactors hlater]
    · right
      obtain ⟨n, hn⟩ : ∃ n, (xs ++ door :: ys).length - depth - xs.length = n + 1 := by
        refine ⟨ys.length - depth, ?_⟩
        simp only [List.length_append, List.length_cons]
        omega
      have hall : xs.drop ((xs ++ door :: ys).length - depth) = [] := by
        refine List.drop_eq_nil_of_le ?_
        simp only [List.length_append, List.length_cons]
        omega
      have hold : r.factor ys.length = 1 := if_pos (by omega)
      rw [hn, List.drop_succ_cons, hall, List.nil_append, hold]
      exact ⟨r.find?_doorFactors_of_not_mem fun h => hlater (List.mem_of_mem_drop h), rfl⟩
  · have hgone : door ∉ CognitiveMap.latest depth history := fun h => hmem (List.mem_of_mem_drop h)
    rw [r.find?_doorFactors_of_not_mem hmem, r.find?_doorFactors_of_not_mem hgone]
    exact .inl rfl

end Recency

namespace CognitiveMap

/-- The map without its history, and without neutral factors of recent destinations. -/
noncomputable def blank (m : CognitiveMap α) : CognitiveMap α :=
  { m with network := m.network.mapFactors FactorBag.settled, history := [] }

/-- The first map is the second with all but the latest destinations forgotten. -/
structure Forgets (m m' : CognitiveMap α) (depth : ℕ) : Prop where
  blank_eq : m.blank = m'.blank
  depth_eq : m.depth = depth
  history_eq : m.history = latest depth m'.history
  wellFormed : m'.network.WellFormed
  exists_edge : ∀ e ∈ m'.history, ∃ edge, m'.network.edge? e = some edge

variable {m m' : CognitiveMap α} {depth : ℕ} {e : EdgeId} {edge edge' : Edge α}

lemma Forgets.network_eq (h : m.Forgets m' depth) :
    m.network.mapFactors FactorBag.settled = m'.network.mapFactors FactorBag.settled :=
  congrArg network h.blank_eq

lemma Forgets.edge?_eq (h : m.Forgets m' depth) (e : EdgeId) :
    (m.network.edge? e).map (fun edge => edge.withFactors edge.factors.settled) =
      (m'.network.edge? e).map fun edge => edge.withFactors edge.factors.settled := by
  rw [← Network.edge?_mapFactors, ← Network.edge?_mapFactors, h.network_eq]

lemma Forgets.exists_edge? (h : m.Forgets m' depth) (hedge : m'.network.edge? e = some edge') :
    ∃ edge, m.network.edge? e = some edge ∧
      edge.withFactors edge.factors.settled = edge'.withFactors edge'.factors.settled := by
  have hsame := h.edge?_eq e
  rw [hedge, Option.map_some] at hsame
  exact Option.map_eq_some_iff.1 hsame

lemma Forgets.door_eq (h : m.Forgets m' depth) (e : EdgeId) :
    (m.network.edge? e).map (·.door) = (m'.network.edge? e).map (·.door) := by
  have hsame := congrArg (Option.map Edge.door) (h.edge?_eq e)
  simp only [Option.map_map] at hsame
  exact hsame

/-- The doors of the latest known edges are the latest doors. -/
lemma filterMap_latest {β γ : Type} {f : β → Option γ} (depth : ℕ) {xs : List β}
    (h : ∀ x ∈ xs, ∃ y, f x = some y) :
    (latest depth xs).filterMap f = latest depth (xs.filterMap f) := by
  have hlength (xs : List β) (h : ∀ x ∈ xs, ∃ y, f x = some y) :
      (xs.filterMap f).length = xs.length := by
    induction xs with
    | nil => rfl
    | cons x xs ih =>
      obtain ⟨⟨y, hy⟩, hxs⟩ := List.forall_mem_cons.1 h
      rw [List.filterMap_cons_some hy, List.length_cons, ih hxs, List.length_cons]
  have hsplit : xs.filterMap f = (xs.take (xs.length - depth)).filterMap f ++
      (xs.drop (xs.length - depth)).filterMap f := by
    rw [← List.filterMap_append, List.take_append_drop]
  have hold : ((xs.take (xs.length - depth)).filterMap f).length = xs.length - depth := by
    rw [hlength _ fun x hx => h x (List.mem_of_mem_take hx), List.length_take]
    omega
  rw [latest, latest, hlength xs h, hsplit, List.drop_left' hold]

lemma Forgets.historyDoors_eq (h : m.Forgets m' depth) :
    m.historyDoors = latest depth m'.historyDoors := by
  simp only [historyDoors, h.door_eq, h.history_eq]
  refine filterMap_latest depth fun e he => ?_
  obtain ⟨edge, hedge⟩ := h.exists_edge e he
  exact ⟨edge.door, by rw [hedge]; rfl⟩

lemma Forgets.recency_eq (h : m.Forgets m' depth) (e : EdgeId) :
    (m.network.edge? e).map Edge.recency = (m'.network.edge? e).map Edge.recency := by
  have hsettled (edge : Edge α) :
      (edge.withFactors edge.factors.settled).recency = edge.recency := by
    unfold Edge.recency Edge.withFactors FactorBag.settled
    simp only
    split
    · rename_i hneutral
      obtain ⟨t, ht⟩ := hneutral
      simp [ht]
    · rfl
  have hsame := congrArg (Option.map Edge.recency) (h.edge?_eq e)
  simp only [Option.map_map, Function.comp_def, hsettled] at hsame
  exact hsame

end CognitiveMap

section
variable {a : Pedestrian α} {m m' : CognitiveMap α} {env : Surroundings α} {depth : ℕ}

lemma CognitiveMap.blank_setFactors {name : String} (h : name ≠ Recency.name) (time : α)
    (values : List (EdgeId × α)) :
    (m.setFactors name time values).blank = m.blank.setFactors name time values := by
  simp only [CognitiveMap.setFactors, CognitiveMap.blank]
  rw [Network.setFactors_mapFactors fun bag v => bag.settled_insert h v]

/-- No other sensor looks at what it matters to forget. -/
lemma Sensor.run_blank {s : Sensor α} (hs : ∀ r, s ≠ .recency r) (a : Pedestrian α)
    (m : CognitiveMap α) (env : Surroundings α) :
    s.run a m.blank env = ((s.run a m env).1.blank, (s.run a m env).2) := by
  rcases s.eq_or_surveys with rfl | ⟨r, hrecency⟩ | hsurveys
  · simp only [Sensor.run, CognitiveMap.blank,
      Network.addSubRoomDoors_mapFactors FactorBag.settled_empty]
  · exact absurd hrecency (hs r)
  · have hblank : s.findings a m.blank.network env = s.findings a m.network env :=
      s.findings_mapFactors a m.network env FactorBag.settled
    cases hfound : s.findings a m.network env with
    | error e =>
      rw [run_of_findings_error hsurveys hfound,
        run_of_findings_error hsurveys (hblank.trans hfound)]
    | ok values =>
      rw [run_of_findings hsurveys hfound, run_of_findings hsurveys (hblank.trans hfound),
        CognitiveMap.blank_setFactors hsurveys.name_ne_recency]

lemma Sensor.run_kept (s : Sensor α) (a : Pedestrian α) (m : CognitiveMap α)
    (env : Surroundings α) :
    (s.run a m env).1 = { m with network := (s.run a m env).1.network } := by
  rcases s.run_cases a m env with rfl | ⟨r, rfl⟩ | ⟨e, hrun⟩ | ⟨values, hrun⟩
  · rfl
  · rfl
  · rw [hrun]
  · rw [hrun]
    rfl

namespace Recency

variable {factors factors' : OrderedMap DoorId α} {time : α} {edge edge' : Edge α}

lemma find?_update_of_ne {name : String} (h : name ≠ Recency.name) :
    (update factors time edge).factors.find? name = edge.factors.find? name := by
  unfold update
  split
  · exact OrderedMap.find?_insert_of_ne _ h _
  · split
    · exact OrderedMap.find?_insert_of_ne _ h _
    · rfl

/-- An update leaves the factor of the door, or one that does not count. -/
lemma find?_settled_update (factors : OrderedMap DoorId α) (time : α) (edge : Edge α) :
    (update factors time edge).factors.settled.find? Recency.name =
      open Classical in
      (factors.find? edge.door).bind fun f => if f = 1 then none else some ⟨f, time⟩ := by
  classical
  have hwritten (f : α) : OrderedMap.find?
      (FactorBag.settled (edge.factors.insert Recency.name ⟨f, time⟩)) Recency.name =
        if f = 1 then none else some ⟨f, time⟩ := by
    unfold FactorBag.settled
    by_cases hf : f = 1
    · simp [hf]
    · simp [hf]
  unfold update
  cases hfind : factors.find? edge.door with
  | some f => exact hwritten f
  | none =>
    simp only [Option.bind_none]
    split
    · exact (hwritten 1).trans (if_pos rfl)
    · rename_i habsent
      rw [Bool.not_eq_true, OrderedMap.contains_eq_false_iff] at habsent
      rw [FactorBag.settled, if_neg (by simp [habsent]), habsent]

/-- Edges with the same settled factors have the same ones after updates from the same factor, or
from none and one that does not count. -/
lemma settled_update
    (hfactors : factors.find? edge.door = factors'.find? edge.door ∨
      factors.find? edge.door = none ∧ factors'.find? edge.door = some 1)
    (h : edge.withFactors edge.factors.settled = edge'.withFactors edge'.factors.settled) :
    (update factors time edge).withFactors (update factors time edge).factors.settled =
      (update factors' time edge').withFactors (update factors' time edge').factors.settled := by
  have hdoor : edge.door = edge'.door := by
    have hdoor := congrArg Edge.door h
    exact hdoor
  have hbag : edge.factors.settled = edge'.factors.settled := by
    have hbag := congrArg Edge.factors h
    exact hbag
  have hsettled : (update factors time edge).factors.settled =
      (update factors' time edge').factors.settled := by
    refine FactorBag.settled_eq_of_neutral hbag (fun _ => find?_update_of_ne)
      (fun _ => find?_update_of_ne) ?_
    rw [find?_settled_update, find?_settled_update, ← hdoor]
    rcases hfactors with hsame | ⟨hnone, hone⟩
    · rw [hsame]
    · simp [hnone, hone]
  obtain ⟨bag, hupdate⟩ := exists_update factors time edge
  obtain ⟨bag', hupdate'⟩ := exists_update factors' time edge'
  rw [hsettled, hupdate, hupdate']
  have hsame := congrArg (Edge.withFactors · (edge'.withFactors bag').factors.settled) h
  exact hsame

end Recency

namespace CognitiveMap

/-- Updates from a shortened history and from the whole one come to the same. -/
theorem Forgets.recency (h : m.Forgets m' depth) {r : Recency α} (hr : r.depth ≤ depth)
    (env : Surroundings α) : (r.run m env).Forgets (r.run m' env) depth := by
  have hnetwork : (r.run m env).network.mapFactors FactorBag.settled =
      (r.run m' env).network.mapFactors FactorBag.settled := by
    have hvertices := congrArg Network.vertices h.network_eq
    have hvertexOf := congrArg Network.vertexOf h.network_eq
    refine Network.ext_mapFactors hvertices hvertexOf fun e => ?_
    rw [Network.edge?_mapFactors, Network.edge?_mapFactors, r.edge?_run, r.edge?_run]
    cases hedge' : m'.network.edge? e with
    | none =>
      have hnone := h.edge?_eq e
      rw [hedge', Option.map_none, Option.map_eq_none_iff] at hnone
      rw [hnone]
      rfl
    | some edge' =>
      obtain ⟨edge, hedge, hsame⟩ := h.exists_edge? hedge'
      have hfactors := r.find?_doorFactors_latest hr m'.historyDoors edge.door
      rw [← h.historyDoors_eq] at hfactors
      rw [hedge]
      exact congrArg some (Recency.settled_update hfactors hsame)
  have hreweighs : m'.Reweighs (r.run m' env) :=
    Sensor.reweighs_run (s := .recency r) (a := .standing 0 0 0 ⟨0, 0⟩) nofun
  refine ⟨?_, h.depth_eq, h.history_eq, h.wellFormed.reweigh hreweighs.network, ?_⟩
  · have hblank := congrArg (fun m : CognitiveMap α => { m with
      network := (r.run m' env).network.mapFactors FactorBag.settled }) h.blank_eq
    unfold blank
    rw [hnetwork]
    exact hblank
  · intro e he
    obtain ⟨edge, hedge⟩ := h.exists_edge e he
    exact ⟨_, by rw [r.edge?_run, hedge]; rfl⟩

end CognitiveMap

/-- Sensing keeps it of no consequence that old destinations have been forgotten. -/
theorem Sensor.run_forgets {s : Sensor α} (hs : ∀ r, s = .recency r → r.depth ≤ depth)
    (h : m.Forgets m' depth) (a : Pedestrian α) (env : Surroundings α) :
    (s.run a m env).1.Forgets (s.run a m' env).1 depth ∧
      (s.run a m env).2 = (s.run a m' env).2 := by
  by_cases hrecency : ∃ r, s = .recency r
  · obtain ⟨r, rfl⟩ := hrecency
    exact ⟨h.recency (hs r rfl) env, rfl⟩
  · have hblank (m : CognitiveMap α) := Sensor.run_blank (fun r hr => hrecency ⟨r, hr⟩) a m env
    have hsame := hblank m
    rw [h.blank_eq, hblank m'] at hsame
    obtain ⟨hmap, hresult⟩ := Prod.mk.inj hsame
    have hkept (m : CognitiveMap α) : (s.run a m env).1.depth = m.depth ∧
        (s.run a m env).1.history = m.history := by
      rw [s.run_kept]
      exact ⟨rfl, rfl⟩
    obtain ⟨hwf, hlearns⟩ := s.run_learns h.wellFormed a env
    refine ⟨⟨hmap.symm, (hkept m).1.trans h.depth_eq, ?_, hwf, ?_⟩, hresult.symm⟩
    · rw [(hkept m).2, (hkept m').2]
      exact h.history_eq
    · intro e he
      rw [(hkept m').2] at he
      obtain ⟨edge, hedge⟩ := h.exists_edge e he
      obtain ⟨bag, hbag⟩ := hlearns.network.edge e edge hedge
      exact ⟨_, hbag⟩

theorem SensorSuite.fire_forgets {suite : SensorSuite α}
    (hsuite : ∀ r registered, (.recency r, registered) ∈ suite → r.depth ≤ depth)
    (h : m.Forgets m' depth) (events : Events) (a : Pedestrian α) (env : Surroundings α) :
    (fire events a env suite m).1.Forgets (fire events a env suite m').1 depth ∧
      (fire events a env suite m).2 = (fire events a env suite m').2 := by
  induction suite generalizing m m' with
  | nil => exact ⟨h, rfl⟩
  | cons entry suite ih =>
    obtain ⟨s, registered⟩ := entry
    have hrest (r : Recency α) (events : Events) (hmem : (.recency r, events) ∈ suite) :=
      hsuite r events (List.mem_cons_of_mem _ hmem)
    cases hint : registered.intersects events with
    | false =>
      rw [fire_cons_of_not hint, fire_cons_of_not hint]
      exact ih hrest h
    | true =>
      have hdepth (r : Recency α) (hr : s = .recency r) :=
        hsuite r registered (hr ▸ List.mem_cons_self)
      obtain ⟨hmap, hresult⟩ := Sensor.run_forgets hdepth h a env
      cases hs : (s.run a m env).2 with
      | error e =>
        rw [fire_cons_of_error hint hs, fire_cons_of_error hint (hresult ▸ hs)]
        exact ⟨hmap, rfl⟩
      | ok _ =>
        obtain ⟨hfst, hsnd⟩ := fire_cons_of_ok suite hint hs
        obtain ⟨hfst', hsnd'⟩ := fire_cons_of_ok suite hint (hresult ▸ hs)
        rw [hfst, hfst', hsnd, hsnd']
        obtain ⟨hlast, hcount⟩ := ih hrest hmap
        exact ⟨hlast, by rw [hcount]⟩

end

end Egress
