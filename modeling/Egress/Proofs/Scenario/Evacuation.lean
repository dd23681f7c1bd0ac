import Egress.Proofs.Scenario.Turns

/-!
# Everybody is accounted for

In the course of a run everybody is either inside or reported on as evacuated, nobody is both, and
nobody is lost. Who leaves during an interval is among the people until the reports at its end.
-/
namespace Egress

variable {α : Type} [Scalar α] {b : Building α} {params : RouterParams α} {ids : List AgentId}

/-- The report says that the person has left by an exit of the building. -/
structure AgentReport.OfEvacuee (report : AgentReport α) (b : Building α) : Prop where
  fate : ∃ time, report.fate = .evacuated time
  exit : ∃ door, report.doors.getLast? = some door ∧ b.IsExit door

namespace Evacuation

variable {e e' : Evacuation α} {a a' : Pedestrian α} {people before after : List (Pedestrian α)}

/-- Those who are reported on and the people make up `ids`. All who have left but are not yet
reported on are among the people, and the router remembers them. -/
structure Underway (e : Evacuation α) (people : List (Pedestrian α)) (b : Building α)
    (params : RouterParams α) (ids : List AgentId) : Prop where
  attends : e.router.Attends b params
  perm : (e.reports.map (·.agent) ++ people.map (·.id)).Perm ids
  ofEvacuee : ∀ report ∈ e.reports, report.OfEvacuee b
  /-- Who is reported on has left, was never refused and is forgotten. -/
  gone : ∀ report ∈ e.reports, e.left.contains report.agent = true ∧
    e.router.isUnroutable report.agent = false ∧ e.router.maps.find? report.agent = none
  heads : ∀ a ∈ people, e.router.Heads a
  inside : ∀ a ∈ people, e.left.contains a.id = false → a.Located b
  leaving : ∀ a ∈ people, e.left.contains a.id = true →
    e.router.isUnroutable a.id = false ∧ (∃ m, e.router.maps.find? a.id = some m) ∧
      ∃ door, a.destination = some door ∧ b.IsExit door
  accounted : ∀ id, e.left.contains id = true →
    id ∈ e.reports.map (·.agent) ∨ id ∈ people.map (·.id)

lemma Underway.distinct (h : e.Underway (before ++ a :: after) b params ids) (hids : ids.Nodup) :
    (∀ report ∈ e.reports, report.agent ≠ a.id) ∧ ∀ p ∈ before ++ after, p.id ≠ a.id := by
  have hperm : (a.id :: (e.reports.map (·.agent) ++ (before ++ after).map (·.id))).Perm ids := by
    refine List.Perm.trans ?_ h.perm
    simp only [List.map_append, List.map_cons, ← List.append_assoc]
    exact List.perm_middle.symm
  obtain ⟨hnot, -⟩ := List.nodup_cons.1 (hperm.nodup_iff.2 hids)
  constructor
  · rintro report hreport heq
    exact hnot (List.mem_append_left _ (heq ▸ List.mem_map_of_mem hreport))
  · rintro p hp heq
    exact hnot (List.mem_append_right _ (heq ▸ List.mem_map_of_mem hp))

theorem Underway.moveAgent (h : e.Underway (before ++ a :: after) b params ids)
    (hb : b.WellFormed) (hids : ids.Nodup) (hin : e.left.contains a.id = false)
    (steering : Steering α) (time : α) :
    ∃ e' a', moveAgent steering time e a = .ok (e', a') ∧ a'.id = a.id ∧
      e'.Underway (before ++ a' :: after) b params ids ∧
      ∀ id, id ≠ a.id → e'.left.contains id = e.left.contains id := by
  have ha : a ∈ before ++ a :: after := List.mem_append_right _ List.mem_cons_self
  obtain ⟨router, left, a', hmove, hattends, hothers, hid, hheads, hcases⟩ :=
    moveAgent_spec hb h.attends (h.inside a ha hin) (h.heads a ha) steering time
  obtain ⟨hreports, hpeople⟩ := h.distinct hids
  have hleft (id : AgentId) (hne : id ≠ a.id) : left.contains id = e.left.contains id := by
    rcases hcases with ⟨rfl, -⟩ | ⟨rfl, -⟩
    · rfl
    · simp only [OrderedMap.contains, OrderedMap.find?_insert_of_ne _ hne]
  have hmem {p q : Pedestrian α} (hp : p ∈ before ++ q :: after) :
      p = q ∨ p ∈ before ++ after ∧ p ∈ before ++ a :: after := by
    simp only [List.mem_append, List.mem_cons] at hp ⊢
    tauto
  refine ⟨_, a', hmove, hid, ?_, hleft⟩
  constructor
  case attends => exact hattends
  case perm => simpa [hid] using h.perm
  case ofEvacuee => exact h.ofEvacuee
  case gone =>
    intro report hreport
    obtain ⟨hgone, hroutable, hforgotten⟩ := h.gone report hreport
    have hagrees := hothers _ (hreports report hreport)
    exact ⟨(hleft _ (hreports report hreport)).trans hgone, hagrees.refusal.trans hroutable,
      hagrees.map.trans hforgotten⟩
  case heads =>
    intro p hp
    rcases hmem hp with rfl | ⟨hp, hold⟩
    · exact hheads
    · exact (h.heads p hold).of_agreesOn (hothers p.id (hpeople p hp))
  case inside =>
    intro p hp hstays
    rcases hmem hp with rfl | ⟨hp, hold⟩
    · rcases hcases with ⟨-, hlocated⟩ | ⟨rfl, -⟩
      · exact hlocated
      · rw [hid, OrderedMap.contains, OrderedMap.find?_insert_self] at hstays
        cases hstays
    · exact h.inside p hold ((hleft _ (hpeople p hp)).symm.trans hstays)
  case leaving =>
    intro p hp hleaves
    rcases hmem hp with rfl | ⟨hp, hold⟩
    · rcases hcases with ⟨rfl, -⟩ | ⟨-, hroutable, hmap, hdoor⟩
      · rw [hid, hin] at hleaves
        cases hleaves
      · rw [hid]
        exact ⟨hroutable, hmap, hdoor⟩
    · have hagrees := hothers _ (hpeople p hp)
      obtain ⟨hroutable, ⟨m, hm⟩, hdoor⟩ :=
        h.leaving p hold ((hleft _ (hpeople p hp)).symm.trans hleaves)
      exact ⟨hagrees.refusal.trans hroutable, ⟨m, hagrees.map.trans hm⟩, hdoor⟩
  case accounted =>
    intro id hleaves
    by_cases hne : id = a.id
    · exact .inr (by simp [hne, hid])
    · have hold := h.accounted id ((hleft id hne).symm.trans hleaves)
      simpa [hid] using hold

theorem Underway.moveAll (h : e.Underway (before ++ people ++ after) b params ids)
    (hb : b.WellFormed) (hids : ids.Nodup)
    (hin : ∀ a ∈ people, e.left.contains a.id = false) (steering : Steering α) (time : α) :
    ∃ e' moved, moveAll steering time people e = .ok (e', moved) ∧
      e'.Underway (before ++ moved ++ after) b params ids := by
  induction people generalizing e before with
  | nil => exact ⟨e, [], rfl, h⟩
  | cons a people ih =>
    have hsplit (p : Pedestrian α) (people : List (Pedestrian α)) :
        before ++ p :: people ++ after = before ++ p :: (people ++ after) := by simp
    have hconcat (p : Pedestrian α) (people : List (Pedestrian α)) :
        before ++ p :: (people ++ after) = before ++ [p] ++ people ++ after := by simp
    rw [hsplit] at h
    obtain ⟨hina, hin⟩ := List.forall_mem_cons.1 hin
    obtain ⟨-, hothers⟩ := h.distinct hids
    obtain ⟨e₁, a', hmove, -, h₁, hleft⟩ := h.moveAgent hb hids hina steering time
    rw [hconcat] at h₁
    obtain ⟨e₂, moved, hrest, h₂⟩ := ih h₁ fun p hp => by
      have hne : p.id ≠ a.id :=
        hothers p (List.mem_append_right _ (List.mem_append_left _ hp))
      exact (hleft p.id hne).trans (hin p hp)
    refine ⟨e₂, a' :: moved, ?_, ?_⟩
    · exact bind_eq_ok_iff.2 ⟨(e₁, a'), hmove, bind_eq_ok_iff.2 ⟨(e₂, moved), hrest, rfl⟩⟩
    · rw [hsplit, hconcat]
      exact h₂

/-- The report on a person who has left and is remembered. -/
def farewell? (maps : OrderedMap AgentId (CognitiveMap α)) (entry : AgentId × α) :
    Option (AgentReport α) :=
  (maps.find? entry.1).map fun m => ⟨entry.1, m.historyDoors, .evacuated entry.2⟩

/-- The run with one person reported on and forgotten. -/
def handOne (e : Evacuation α) (entry : AgentId × α) : Evacuation α :=
  { e with
    router := (e.router.removeAgent entry.1).1
    reports := e.reports ++ (farewell? e.router.maps entry).toList }

omit [Scalar α] in
lemma handOver_eq (e : Evacuation α) :
    handOver e = { e.left.entries.foldl handOne e with
      crowd := (e.left.entries.foldl handOne e).crowd.filter fun a =>
        !(e.left.entries.foldl handOne e).left.contains a.id } := by
  refine congrArg (fun e : Evacuation α => { e with
    crowd := e.crowd.filter fun a => !e.left.contains a.id })
    (List.foldl_ext _ handOne _ fun e entry _ => ?_)
  simp only [handOne, farewell?, Router.removeAgent]
  cases e.router.maps.find? entry.1 with
  | some m => rfl
  | none => simp

/-- Those in the list who are remembered are reported on in its order, and all are forgotten. -/
lemma foldl_handOne {entries : List (AgentId × α)} (hids : (entries.map Prod.fst).Nodup)
    (e : Evacuation α) (h : e.router.Attends b params) :
    ∃ maps, entries.foldl handOne e = { e with
        router := { e.router with maps }
        reports := e.reports ++ entries.filterMap (farewell? e.router.maps) } ∧
      Router.Attends { e.router with maps } b params ∧
      (∀ id ∈ entries.map Prod.fst, maps.find? id = none) ∧
      ∀ id, id ∉ entries.map Prod.fst → maps.find? id = e.router.maps.find? id := by
  induction entries generalizing e with
  | nil =>
    exact ⟨e.router.maps, by simp, h, fun _ hid => absurd hid List.not_mem_nil, fun _ _ => rfl⟩
  | cons entry entries ih =>
    obtain ⟨hnot, hids⟩ := List.nodup_cons.1 hids
    obtain ⟨maps, hfold, hattends, hforgotten, hkept⟩ :=
      ih hids (handOne e entry) (h.removeAgent entry.1)
    have hrest : entries.filterMap (farewell? (e.router.maps.erase entry.1)) =
        entries.filterMap (farewell? e.router.maps) := by
      refine List.filterMap_congr fun other hother => ?_
      have hne : other.1 ≠ entry.1 := fun heq => hnot (heq ▸ List.mem_map_of_mem hother)
      rw [farewell?, OrderedMap.find?_erase_of_ne _ hne, farewell?]
    have hreports : e.reports ++ (farewell? e.router.maps entry).toList ++
        entries.filterMap (farewell? (e.router.maps.erase entry.1)) =
          e.reports ++ (entry :: entries).filterMap (farewell? e.router.maps) := by
      rw [hrest, List.append_assoc]
      cases hreport : farewell? e.router.maps entry with
      | none => rw [List.filterMap_cons_none hreport, Option.toList_none, List.nil_append]
      | some report => rw [List.filterMap_cons_some hreport]; rfl
    refine ⟨maps, ?_, hattends, fun id hid => ?_, fun id hid => ?_⟩
    · rw [List.foldl_cons, hfold, ← hreports]
      rfl
    · by_cases hlater : id ∈ entries.map Prod.fst
      · exact hforgotten id hlater
      · obtain rfl := (List.mem_cons.1 hid).resolve_right hlater
        exact (hkept _ hlater).trans (OrderedMap.find?_erase_self _ _)
    · obtain ⟨hne, hlater⟩ := not_or.1 (mt List.mem_cons.2 hid)
      exact (hkept id hlater).trans (OrderedMap.find?_erase_of_ne _ hne)

omit [Scalar α] in
lemma map_agent_farewell (entries : List (AgentId × α))
    (maps : OrderedMap AgentId (CognitiveMap α)) :
    (entries.filterMap (farewell? maps)).map (·.agent) =
      (entries.map Prod.fst).filter fun id => maps.contains id := by
  induction entries with
  | nil => rfl
  | cons entry entries ih =>
    rw [List.map_cons, List.filter_cons, OrderedMap.contains]
    cases hm : maps.find? entry.1 with
    | none =>
      rw [List.filterMap_cons_none (by rw [farewell?, hm]; rfl), ih]
      rfl
    | some m =>
      rw [List.filterMap_cons_some (by rw [farewell?, hm]; rfl), List.map_cons, ih]
      rfl

/-- Those who have left and are remembered are reported on and forgotten, and all who have left are
no longer in the crowd. -/
lemma handOver_spec (h : e.router.Attends b params) :
    ∃ maps, handOver e = { e with
        router := { e.router with maps }
        reports := e.reports ++ e.left.entries.filterMap (farewell? e.router.maps)
        crowd := e.crowd.filter fun a => !e.left.contains a.id } ∧
      Router.Attends { e.router with maps } b params ∧
      (∀ id, e.left.contains id = true → maps.find? id = none) ∧
      ∀ id, e.left.contains id = false → maps.find? id = e.router.maps.find? id := by
  obtain ⟨maps, hfold, hattends, hforgotten, hkept⟩ := foldl_handOne e.left.nodup_keys e h
  refine ⟨maps, by rw [handOver_eq, hfold], hattends, fun id hid => ?_, fun id hid => ?_⟩
  · exact hforgotten id (OrderedMap.mem_keys_iff_contains.2 hid)
  · refine hkept id fun hmem => ?_
    cases hid.symm.trans (OrderedMap.mem_keys_iff_contains.1 hmem)

/-- Between intervals nobody inside has left. -/
structure Settled (e : Evacuation α) (b : Building α) (params : RouterParams α)
    (ids : List AgentId) : Prop extends e.Underway e.crowd b params ids where
  stayed : ∀ a ∈ e.crowd, e.left.contains a.id = false

/-- The new reports are on those of the people who have left. -/
lemma Underway.perm_farewell (h : e.Underway people b params ids) (hids : ids.Nodup) :
    ((e.left.entries.filterMap (farewell? e.router.maps)).map (·.agent)).Perm
      ((people.filter fun a => e.left.contains a.id).map (·.id)) := by
  have hpeople : (people.map (·.id)).Nodup := (List.nodup_append.1 (h.perm.nodup_iff.2 hids)).2.1
  rw [map_agent_farewell]
  refine (List.perm_ext_iff_of_nodup (e.left.nodup_keys.filter _)
    (hpeople.sublist (List.filter_sublist.map _))).2 fun id => ?_
  simp only [List.mem_filter, List.mem_map]
  constructor
  · rintro ⟨hkey, hmap⟩
    have hleft := OrderedMap.mem_keys_iff_contains.1 hkey
    rcases h.accounted id hleft with hreported | hinside
    · obtain ⟨report, hreport, rfl⟩ := List.mem_map.1 hreported
      rw [OrderedMap.contains, (h.gone report hreport).2.2] at hmap
      cases hmap
    · obtain ⟨a, ha, rfl⟩ := List.mem_map.1 hinside
      exact ⟨a, ⟨ha, hleft⟩, rfl⟩
  · rintro ⟨a, ⟨ha, hleft⟩, rfl⟩
    obtain ⟨-, ⟨m, hm⟩, -⟩ := h.leaving a ha hleft
    refine ⟨OrderedMap.mem_keys_iff_contains.2 hleft, ?_⟩
    rw [OrderedMap.contains, hm]
    rfl

/-- A new report is on somebody who was never refused and has left by the exit chosen last. -/
lemma Underway.ofEvacuee_farewell (h : e.Underway people b params ids) (hids : ids.Nodup)
    {report : AgentReport α}
    (hreport : report ∈ e.left.entries.filterMap (farewell? e.router.maps)) :
    report.OfEvacuee b ∧ e.left.contains report.agent = true ∧
      e.router.isUnroutable report.agent = false := by
  have hagent := (h.perm_farewell hids).mem_iff.1 (List.mem_map_of_mem hreport)
  obtain ⟨a, ha, hid⟩ := List.mem_map.1 hagent
  obtain ⟨ha, hleft⟩ := List.mem_filter.1 ha
  obtain ⟨hroutable, ⟨m, hm⟩, door, hdoor, hexit⟩ := h.leaving a ha hleft
  obtain ⟨⟨id, time⟩, -, hentry⟩ := List.mem_filterMap.1 hreport
  obtain ⟨m', hm', rfl⟩ := Option.map_eq_some_iff.1 hentry
  obtain rfl : a.id = id := hid
  obtain rfl : m = m' := Option.some.inj (hm.symm.trans hm')
  have hlast := h.heads a ha
  rw [Router.Heads, Router.mapOf, hm, Option.getD_some, hdoor] at hlast
  exact ⟨⟨⟨time, rfl⟩, door, hlast.symm, hexit⟩, hleft, hroutable⟩

/-- The reports on those who have left during an interval leave everybody accounted for. -/
theorem Underway.handOver (h : e.Underway people b params ids) (hids : ids.Nodup) :
    Settled (Evacuation.handOver { e with crowd := people }) b params ids := by
  have hstart : Router.Attends (Evacuation.router { e with crowd := people }) b params := h.attends
  obtain ⟨maps, heq, hattends, hforgotten, hkept⟩ := handOver_spec hstart
  simp only at heq hattends hforgotten hkept
  have hnew := h.perm_farewell hids
  have hperm : ((e.reports ++ e.left.entries.filterMap (farewell? e.router.maps)).map (·.agent) ++
      (people.filter fun a => !e.left.contains a.id).map (·.id)).Perm ids := by
    refine List.Perm.trans ?_ h.perm
    rw [List.map_append, List.append_assoc]
    refine List.Perm.append_left _ ((hnew.append_right _).trans ?_)
    rw [← List.map_append]
    exact (List.filter_append_perm _ people).map _
  have hstays {a : Pedestrian α} (ha : a ∈ people.filter fun a => !e.left.contains a.id) :
      a ∈ people ∧ e.left.contains a.id = false := by
    simpa using List.mem_filter.1 ha
  rw [heq]
  refine ⟨⟨hattends, hperm, ?_, ?_, ?_, ?_, ?_, ?_⟩, fun a ha => (hstays ha).2⟩
  · intro report hreport
    rcases List.mem_append.1 hreport with hold | hreport
    · exact h.ofEvacuee report hold
    · exact (h.ofEvacuee_farewell hids hreport).1
  · intro report hreport
    rcases List.mem_append.1 hreport with hold | hreport
    · obtain ⟨hleft, hroutable, -⟩ := h.gone report hold
      exact ⟨hleft, hroutable, hforgotten _ hleft⟩
    · obtain ⟨-, hleft, hroutable⟩ := h.ofEvacuee_farewell hids hreport
      exact ⟨hleft, hroutable, hforgotten _ hleft⟩
  · intro a ha
    obtain ⟨hold, hin⟩ := hstays ha
    exact (h.heads a hold).of_agreesOn ⟨⟨maps, e.router.unroutable, rfl⟩, hkept a.id hin, rfl⟩
  · intro a ha hin
    exact h.inside a (hstays ha).1 hin
  · intro a ha hleft
    cases (hstays ha).2.symm.trans hleft
  · intro id hleft
    rw [List.map_append]
    rcases h.accounted id hleft with hreported | hinside
    · exact .inl (List.mem_append_left _ hreported)
    · obtain ⟨a, ha, rfl⟩ := List.mem_map.1 hinside
      have hagent : a.id ∈ (people.filter fun a => e.left.contains a.id).map (·.id) :=
        List.mem_map_of_mem (List.mem_filter.2 ⟨ha, hleft⟩)
      exact .inl (List.mem_append_right _ (hnew.mem_iff.2 hagent))

/-- What an interval has come to after the turns of the first people, `turns` of them. -/
def partway (steering : Steering α) (number : ℕ) (e : Evacuation α) (turns : ℕ) :
    Except (RouterError α) (Evacuation α) := do
  let time := (number : α) * interval
  let router :=
    if number % periodicIntervals = 0 then (e.router.periodic e.crowd time).1 else e.router
  let (e', moved) ← moveAll steering time (e.crowd.take turns) { e with router }
  return { e' with crowd := moved ++ e.crowd.drop turns }

/-- An interval ends with reports after everybody's turn. -/
lemma cycle_eq (steering : Steering α) (number : ℕ) (e : Evacuation α) :
    cycle steering number e =
      (partway steering number e e.crowd.length).map Evacuation.handOver := by
  unfold cycle partway
  rw [List.take_length, List.drop_length]
  simp only
  generalize moveAll steering _ e.crowd _ = moves
  cases moves with
  | error error => rfl
  | ok ended => simp [Except.map]

lemma Settled.withRouter (h : e.Settled b params ids) {router : Router α}
    (hattends : router.Attends b params)
    (hrefused : ∀ id, router.isUnroutable id = e.router.isUnroutable id)
    (hforgotten : ∀ id, e.router.maps.find? id = none → router.maps.find? id = none)
    (hheads : ∀ a ∈ e.crowd, router.Heads a) :
    Underway { e with router } e.crowd b params ids := by
  refine ⟨hattends, h.perm, h.ofEvacuee, fun report hreport => ?_, hheads, h.inside,
    fun a ha hleft => ?_, h.accounted⟩
  · obtain ⟨hleft, hroutable, hnone⟩ := h.gone report hreport
    exact ⟨hleft, (hrefused _).trans hroutable, hforgotten _ hnone⟩
  · cases (h.stayed a ha).symm.trans hleft

theorem Settled.partway (h : e.Settled b params ids) (hb : b.WellFormed) (hids : ids.Nodup)
    (steering : Steering α) (number turns : ℕ) :
    ∃ e', partway steering number e turns = .ok e' ∧ e'.Underway e'.crowd b params ids := by
  have hsensed : Underway { e with router := if number % periodicIntervals = 0 then
      (e.router.periodic e.crowd ((number : α) * interval)).1 else e.router }
      ([] ++ e.crowd.take turns ++ e.crowd.drop turns) b params ids := by
    rw [List.nil_append, List.take_append_drop]
    split
    · refine h.withRouter (h.attends.periodic _ _) (fun id => ?_) (fun id hid => ?_) ?_
      · obtain ⟨maps, hrest⟩ := Router.periodic_rest e.router e.crowd ((number : α) * interval)
        rw [hrest]
        rfl
      · exact Router.find?_periodic_eq_none hid _ _
      · exact fun a ha => (h.heads a ha).periodic h.attends.reachable _ _
    · exact h.toUnderway
  obtain ⟨e', moved, hmoved, h'⟩ := hsensed.moveAll hb hids
    (fun a ha => h.stayed a (List.mem_of_mem_take ha)) steering ((number : α) * interval)
  refine ⟨_, bind_eq_ok_iff.2 ⟨(e', moved), hmoved, rfl⟩, ?_⟩
  rw [List.nil_append] at h'
  exact { h' with }

/-- After every interval everybody is accounted for, and nobody inside has left. -/
theorem Settled.cycle (h : e.Settled b params ids) (hb : b.WellFormed) (hids : ids.Nodup)
    (steering : Steering α) (number : ℕ) :
    ∃ e', cycle steering number e = .ok e' ∧ e'.Settled b params ids := by
  obtain ⟨e', he', h'⟩ := h.partway hb hids steering number e.crowd.length
  exact ⟨_, by rw [cycle_eq, he']; rfl, h'.handOver hids⟩

/-- What a run can come to in a number of intervals, whether or not it would have ended before. -/
inductive Course (steering : Steering α) (start : Evacuation α) : ℕ → Evacuation α → Prop
  | start : Course steering start 0 start
  | cycle {number : ℕ} {e e' : Evacuation α} : Course steering start number e →
    cycle steering number e = .ok e' → Course steering start (number + 1) e'

variable {start : Evacuation α} {steering : Steering α} {number : ℕ}

theorem Course.settled (hcourse : Course steering start number e)
    (hstart : start.Settled b params ids) (hb : b.WellFormed) (hids : ids.Nodup) :
    e.Settled b params ids := by
  induction hcourse with
  | start => exact hstart
  | cycle _ hcycle ih =>
    obtain ⟨e', he', h'⟩ := ih.cycle hb hids steering _
    obtain rfl := Except.ok.inj (hcycle.symm.trans he')
    exact h'

/-- A run goes through its course without an error, and ends on it. -/
theorem Course.run (hcourse : Course steering start number e)
    (hstart : start.Settled b params ids) (hb : b.WellFormed) (hids : ids.Nodup) (n : ℕ) :
    ∃ e' intervals, run steering n number e = .ok (e', intervals) ∧ intervals ≤ number + n ∧
      Course steering start intervals e' := by
  induction n generalizing number e with
  | zero => exact ⟨e, number, rfl, le_rfl, hcourse⟩
  | succ n ih =>
    obtain ⟨e₁, hcycle, -⟩ := (hcourse.settled hstart hb hids).cycle hb hids steering number
    have hnext := hcourse.cycle hcycle
    have hrun : Evacuation.run steering (n + 1) number e =
        if e₁.isOver then .ok (e₁, number + 1)
        else Evacuation.run steering n (number + 1) e₁ := by
      rw [Evacuation.run, hcycle]
      rfl
    cases hover : e₁.isOver with
    | true => exact ⟨e₁, number + 1, by rw [hrun, hover, if_pos rfl], by omega, hnext⟩
    | false =>
      obtain ⟨e', intervals, hrest, hle, hend⟩ := ih hnext
      exact ⟨e', intervals, by rw [hrun, hover, if_neg Bool.false_ne_true, hrest], by omega, hend⟩

/-- The report has one entry for each of the people, by ascending number. -/
theorem Settled.map_agent_report (h : e.Settled b params ids) (hids : ids.Pairwise (· < ·))
    (intervals : ℕ) : (e.report intervals).agents.map (·.agent) = ids := by
  have hperm : ((e.report intervals).agents.map (·.agent)).Perm ids := by
    refine ((List.mergeSort_perm _ _).map _).trans ?_
    have hremaining : e.remaining.map (·.agent) = e.crowd.map (·.id) := by
      rw [remaining, List.map_map]
      rfl
    rw [List.map_append, hremaining]
    exact h.perm
  have hsorted : ((e.report intervals).agents.map (·.agent)).Pairwise (· ≤ ·) := by
    refine List.pairwise_map.2 ((List.pairwise_mergeSort ?_ ?_ _).imp of_decide_eq_true)
    · intro r r' r'' hle hle'
      exact decide_eq_true ((of_decide_eq_true hle).trans (of_decide_eq_true hle'))
    · intro r r'
      simpa using le_total r.agent r'.agent
  exact hperm.eq_of_pairwise (fun _ _ _ _ => le_antisymm) hsorted (hids.imp le_of_lt)

/-- Who is reported to have evacuated has left by an exit, and who is refused is reported to be
unroutable. -/
theorem Settled.fate_cases (h : e.Settled b params ids) {intervals : ℕ} {report : AgentReport α}
    (hreport : report ∈ (e.report intervals).agents) :
    (∀ time, report.fate = .evacuated time →
      ∃ door, report.doors.getLast? = some door ∧ b.IsExit door) ∧
      (report.fate = .unroutable ↔ e.router.isUnroutable report.agent = true) := by
  rcases List.mem_append.1 (List.mem_mergeSort.1 hreport) with hleft | hremaining
  · obtain ⟨⟨time, htime⟩, hexit⟩ := h.ofEvacuee report hleft
    obtain ⟨-, hroutable, -⟩ := h.gone report hleft
    exact ⟨fun _ _ => hexit, by simp [htime, hroutable]⟩
  · obtain ⟨a, -, rfl⟩ := List.mem_map.1 hremaining
    cases e.router.isUnroutable a.id <;> simp

/-- People on the floor of the building, by ascending number, who head nowhere yet. -/
structure Assembled (crowd : List (Pedestrian α)) (b : Building α) : Prop where
  located : ∀ a ∈ crowd, a.Located b
  destination : ∀ a ∈ crowd, a.destination = none
  ascending : (crowd.map (·.id)).Pairwise (· < ·)

/-- A crowd that nobody has left, in the care of a new router with or without hazards. -/
def outset (r : Router α) (hazard : Option (HazardStore α)) (crowd : List (Pedestrian α)) :
    Evacuation α :=
  ⟨hazard.elim r fun store => r.withHazard store.field, crowd, .empty, []⟩

lemma settled_outset {r : Router α} (hnew : Router.new b params = .ok r)
    (hazard : Option (HazardStore α)) {crowd : List (Pedestrian α)} (hcrowd : Assembled crowd b) :
    (outset r hazard crowd).Settled b params (crowd.map (·.id)) := by
  have hattends : (outset r hazard crowd).router.Attends b params := by
    cases hazard with
    | none => exact Router.attends_new hnew
    | some store => exact (Router.attends_new hnew).withHazard store
  have hnobody (id : AgentId) : (outset r hazard crowd).router.maps.find? id = none := by
    obtain ⟨g, -, rfl⟩ := Router.new_eq_ok_iff.1 hnew
    cases hazard <;> rfl
  have hheads (a : Pedestrian α) (ha : a ∈ crowd) : (outset r hazard crowd).router.Heads a := by
    rw [Router.Heads, hcrowd.destination a ha,
      Router.historyDoors_mapOf_of_none (hnobody a.id), List.getLast?_nil]
  refine ⟨⟨hattends, .refl _, ?_, ?_, hheads, fun a ha _ => hcrowd.located a ha, ?_, ?_⟩,
    fun _ _ => rfl⟩
  · exact fun report hreport => absurd hreport List.not_mem_nil
  · exact fun report hreport => absurd hreport List.not_mem_nil
  · exact fun a _ hleft => absurd hleft Bool.false_ne_true
  · exact fun id hleft => absurd hleft Bool.false_ne_true

end Evacuation

end Egress
