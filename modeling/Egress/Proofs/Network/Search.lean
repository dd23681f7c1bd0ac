import Egress.Proofs.Network.Trail

/-!
# Searches run to their end

Every step of a search uses up work: a label, or one edge to be settled and the labels that it can
give. So the search ends with an exit or with an empty queue before its fuel does. The way that is
traced back from an exit is a route.
-/
namespace Egress
namespace Search

variable {α : Type} {g : Network α} {v : VertexId} {s : Search α} {trail : List EdgeId}

/-- A bound on the steps that are left. -/
def work (g : Network α) (s : Search α) (trail : List EdgeId) : Nat :=
  s.queue.toList.length + g.edges.size * (g.edges.size - trail.length)

lemma work_drop_lt {l : Label α} {rest : MinHeap (Label α)}
    (hq : s.queue.toList.Perm (l :: rest.toList)) :
    work g { s with queue := rest } trail < work g s trail := by
  have hlen : s.queue.toList.length = rest.toList.length + 1 := by
    rw [hq.length_eq, List.length_cons]
  simp only [work, hlen]
  omega

/-- Settling an edge pays for the labels that the edges after it are given. -/
lemma Trail.work_settle_lt (h : Trail g v s trail) {l : Label α} {rest : MinHeap (Label α)}
    (hq : s.queue.toList.Perm (l :: rest.toList)) (hnew : l.edge ∉ trail) {s' : Search α}
    (hs' : s'.queue.toList.length ≤ rest.toList.length + g.edges.size) :
    work g s' (l.edge :: trail) < work g s trail := by
  have hlen : s.queue.toList.length = rest.toList.length + 1 := by
    rw [hq.length_eq, List.length_cons]
  have hroom : trail.length + 1 ≤ g.edges.size := (h.settle hq hnew).length_le
  have hleft : g.edges.size - trail.length = g.edges.size - (trail.length + 1) + 1 := by omega
  rw [work, work, hleft, Nat.mul_succ, List.length_cons]
  omega

section
variable [Scalar α]

theorem Trail.step_cases (h : Trail g v s trail) :
    s.queue.pop? Label.before = none ∧ s.step g = .exhausted ∨
    ∃ l rest, s.queue.pop? Label.before = some (l, rest) ∧
      ((l.edge ∈ trail ∨ s.cost.getD l.edge Scalar.infinity < l.cost) ∧
          s.step g = .going { s with queue := rest } ∨
        l.edge ∉ trail ∧ ¬s.cost.getD l.edge Scalar.infinity < l.cost ∧
          ∃ edge, g.edge? l.edge = some edge ∧
            (edge.dest = none ∧ s.step g = .found (s.settle l.edge rest) l.edge l.cost ∨
              ∃ dest, edge.dest = some dest ∧
                s.step g = .going (Search.expand g (s.settle l.edge rest) edge dest l.cost))) := by
  unfold step
  cases hpop : s.queue.pop? Label.before with
  | none => exact .inl ⟨rfl, rfl⟩
  | some next =>
    obtain ⟨l, rest⟩ := next
    refine .inr ⟨l, rest, rfl, ?_⟩
    have hl : l ∈ s.queue.toList := (MinHeap.toList_pop? hpop).mem_iff.2 List.mem_cons_self
    have hlt := h.lt_of_mem_queue hl
    obtain ⟨edge, hedge⟩ := Network.exists_edge? hlt
    simp only [Bool.or_eq_true, decide_eq_true_eq, h.settled_iff l.edge hlt]
    by_cases hstale : l.edge ∈ trail ∨ s.cost.getD l.edge Scalar.infinity < l.cost
    · rw [if_pos hstale]
      exact .inl ⟨hstale, rfl⟩
    · rw [if_neg hstale]
      obtain ⟨hnew, hcost⟩ := not_or.1 hstale
      refine .inr ⟨hnew, hcost, edge, hedge, ?_⟩
      simp only [hedge]
      cases hdest : edge.dest with
      | none => exact .inl ⟨rfl, rfl⟩
      | some dest => exact .inr ⟨dest, rfl, rfl⟩

/-- A run with more fuel than work ends by a last step, and keeps what its steps keep. -/
theorem run_spec {P : ℕ → Search α → Prop}
    (hP : ∀ k s s', P k s → s.step g = .going s' → ∃ k' < k, P k' s') {fuel k : ℕ} (hs : P k s)
    (hfuel : k < fuel) : ∃ k s', P k s' ∧ (s'.step g = .exhausted ∧ run g fuel s = none ∨
      ∃ s'' e c, s'.step g = .found s'' e c ∧ run g fuel s = some (s'', e, c)) := by
  induction fuel generalizing k s with
  | zero => exact absurd hfuel (Nat.not_lt_zero k)
  | succ fuel ih =>
    rw [run]
    cases hstep : s.step g with
    | exhausted => exact ⟨k, s, hs, .inl ⟨hstep, rfl⟩⟩
    | going s' =>
      obtain ⟨k', hk', hs'⟩ := hP k s s' hs hstep
      exact ih hs' (by omega)
    | found s' e c => exact ⟨k, s, hs, .inr ⟨s', e, c, hstep, rfl⟩⟩

/-- Settling an edge that is no exit and labelling what follows keeps the trail. -/
lemma Trail.settle_expand (hg : g.WellFormed) (h : Trail g v s trail) {l : Label α}
    {rest : MinHeap (Label α)} (hq : s.queue.toList.Perm (l :: rest.toList))
    (hnew : l.edge ∉ trail) {edge : Edge α} (hedge : g.edge? l.edge = some edge) {dest : VertexId}
    (hdest : edge.dest = some dest) :
    Trail g v (Search.expand g (s.settle l.edge rest) edge dest l.cost) (l.edge :: trail) ∧
      work g (Search.expand g (s.settle l.edge rest) edge dest l.cost) (l.edge :: trail) <
        work g s trail := by
  have hid : edge.id = l.edge := hg.id_eq _ _ hedge
  have hmem : edge.id ∈ l.edge :: trail := hid ▸ List.mem_cons_self
  obtain ⟨htrail, hlen⟩ := (h.settle hq hnew).expand hg (hid ▸ hedge) hmem hdest l.cost
  exact ⟨htrail, h.work_settle_lt hq hnew hlen⟩

/-- A search goes on along a longer or the same trail, with less work left. -/
lemma Trail.going (hg : g.WellFormed) (h : Trail g v s trail) {s' : Search α}
    (hstep : s.step g = .going s') :
    ∃ trail', Trail g v s' trail' ∧ work g s' trail' < work g s trail := by
  rcases h.step_cases with ⟨-, hend⟩ | ⟨l, rest, hpop, ⟨-, hdrop⟩ | ⟨hnew, -, edge, hedge, hcases⟩⟩
  · simp [hend] at hstep
  · have hq := MinHeap.toList_pop? hpop
    rw [hdrop, Step.going.injEq] at hstep
    exact ⟨trail, hstep ▸ h.drop hq, hstep ▸ work_drop_lt hq⟩
  · have hq := MinHeap.toList_pop? hpop
    rcases hcases with ⟨-, hfound⟩ | ⟨dest, hdest, hgoing⟩
    · simp [hfound] at hstep
    · rw [hgoing, Step.going.injEq] at hstep
      exact ⟨l.edge :: trail, hstep ▸ h.settle_expand hg hq hnew hedge hdest⟩

lemma Trail.exhausted (h : Trail g v s trail) (hstep : s.step g = .exhausted) :
    s.queue.toList = [] := by
  rcases h.step_cases with ⟨hnone, -⟩ | ⟨l, rest, hpop, ⟨-, hdrop⟩ | ⟨-, -, edge, hedge, hcases⟩⟩
  · exact MinHeap.pop?_eq_none hnone
  · simp [hdrop] at hstep
  · rcases hcases with ⟨-, hfound⟩ | ⟨dest, -, hgoing⟩
    · simp [hfound] at hstep
    · simp [hgoing] at hstep

lemma Trail.found (h : Trail g v s trail) {s' : Search α} {e : EdgeId} {c : α}
    (hstep : s.step g = .found s' e c) : g.IsExit e ∧ e ∉ trail ∧
      ¬s.cost.getD e Scalar.infinity < c ∧
      ∃ rest, s.queue.pop? Label.before = some (⟨c, e⟩, rest) ∧ s' = s.settle e rest := by
  rcases h.step_cases with
    ⟨-, hend⟩ | ⟨l, rest, hpop, ⟨-, hdrop⟩ | ⟨hnew, hfresh, edge, hedge, hcases⟩⟩
  · simp [hend] at hstep
  · simp [hdrop] at hstep
  · rcases hcases with ⟨hexit, hfound⟩ | ⟨dest, -, hgoing⟩
    · rw [hfound, Step.found.injEq] at hstep
      obtain ⟨rfl, rfl, rfl⟩ := hstep
      exact ⟨⟨edge, hedge, hexit⟩, hnew, hfresh, rest, hpop, rfl⟩
    · simp [hgoing] at hstep

end

/-- The list of edges that tracing back from an edge gives, in the order in which they are
taken. -/
inductive Traces (s : Search α) : EdgeId → List EdgeId → Prop
  | first {e : EdgeId} : s.previous.getD e none = none → Traces s e [e]
  | next {e p : EdgeId} {es : List EdgeId} :
    s.previous.getD e none = some p → Traces s p es → Traces s e (es ++ [e])

lemma Traces.congr {s' : Search α} (h : s'.previous = s.previous) {e : EdgeId}
    {es : List EdgeId} (hes : Traces s' e es) : Traces s e es := by
  induction hes with
  | first hp => exact .first (h ▸ hp)
  | next hp _ ih => exact .next (h ▸ hp) ih

/-- As many steps back as there are edges settled earlier suffice. -/
theorem Trail.chain_eq [Scalar α] (h : Trail g v s trail) {fuel : ℕ} {e : EdgeId}
    {earlier : List EdgeId} (he : e :: earlier <:+ trail) (hfuel : earlier.length ≤ fuel) :
    ∃ es, Traces s e es ∧ ∀ rest, s.chain fuel e rest = es ++ rest := by
  induction fuel generalizing e earlier with
  | zero =>
    have hnil : earlier = [] := List.eq_nil_of_length_eq_zero (Nat.le_zero.1 hfuel)
    have hnone : s.previous.getD e none = none := by
      cases hp : s.previous.getD e none with
      | none => rfl
      | some p =>
        have hmem := (h.linked e earlier he).2 p hp
        rw [hnil] at hmem
        exact absurd hmem List.not_mem_nil
    exact ⟨[e], .first hnone, fun rest => rfl⟩
  | succ fuel ih =>
    cases hp : s.previous.getD e none with
    | none => exact ⟨[e], .first hp, fun rest => by simp [chain, hp]⟩
    | some p =>
      obtain ⟨later, earlier', rfl⟩ := List.append_of_mem ((h.linked e earlier he).2 p hp)
      have hsuffix : p :: earlier' <:+ trail :=
        (List.suffix_append later _).trans ((List.suffix_cons e _).trans he)
      have hlen : earlier'.length ≤ fuel := by
        rw [List.length_append, List.length_cons] at hfuel
        omega
      obtain ⟨es, hes, hchain⟩ := ih hsuffix hlen
      refine ⟨es ++ [e], .next hp hes, fun rest => ?_⟩
      simp [chain, hp, hchain]

/-- What is traced back from a settled edge is a way to it from the first vertex. -/
theorem Traces.way (h : Trail g v s trail) {e : EdgeId} {es : List EdgeId} (he : e ∈ trail)
    (hes : Traces s e es) : (∃ e₀, es.head? = some e₀ ∧ g.Leaves v e₀) ∧
      es.IsChain g.Follows ∧ es.getLast? = some e := by
  induction hes with
  | first hp =>
    have hent := (h.linked_of_mem he).1
    rw [hp] at hent
    exact ⟨⟨_, rfl, hent⟩, .singleton _, rfl⟩
  | @next e p es hp _ ih =>
    obtain ⟨hent, hmem⟩ := h.linked_of_mem he
    rw [hp] at hent
    obtain ⟨⟨e₀, hhead, hv⟩, hchain, hlast⟩ := ih (hmem p hp)
    refine ⟨⟨e₀, ?_, hv⟩, ?_, List.getLast?_concat⟩
    · rw [List.head?_append, hhead]
      rfl
    · refine List.isChain_append.2 ⟨hchain, .singleton e, fun x hx y hy => ?_⟩
      rw [hlast] at hx
      obtain rfl := Option.some.inj hx
      obtain rfl := Option.some.inj hy
      exact hent

theorem Trail.isRoute_chain [Scalar α] {e : EdgeId} (h : Trail g v s (e :: trail))
    (hexit : g.IsExit e) :
    Traces s e (s.chain g.edges.size e []) ∧ g.IsRoute v (s.chain g.edges.size e []) := by
  have hlen : trail.length ≤ g.edges.size := by
    have := h.length_le
    rw [List.length_cons] at this
    omega
  obtain ⟨es, hes, hchain⟩ := h.chain_eq (List.suffix_refl _) hlen
  rw [hchain [], List.append_nil]
  obtain ⟨hfirst, hfollows, hlast⟩ := hes.way h List.mem_cons_self
  exact ⟨hes, hfirst, hfollows, e, hlast, hexit⟩

end Search

namespace Network

variable {α : Type} {g : Network α}

lemma work_start_le [Scalar α] (hg : g.WellFormed) (v : VertexId) (p : Point α) :
    Search.work g (Search.start g v p) [] ≤ g.edges.size + g.edges.size * g.edges.size := by
  have hlen := (Search.trail_start hg v p).2
  rw [Search.work, List.length_nil, Nat.sub_zero]
  omega

/-- The destination along a route is through the door of its first edge. -/
lemma destinationAlong_spec {v : VertexId} {es : List EdgeId} (h : g.IsRoute v es) (c : α) :
    (g.destinationAlong es c).path = es ∧ (g.destinationAlong es c).cost = c ∧
      es.head? = some (g.destinationAlong es c).edge ∧
      ∃ edge, g.edge? (g.destinationAlong es c).edge = some edge ∧ edge.source = v ∧
        edge.door = (g.destinationAlong es c).door := by
  cases es with
  | nil => exact absurd rfl h.ne_nil
  | cons e es =>
    obtain ⟨edge, hedge, hv⟩ := h.leaves
    refine ⟨rfl, rfl, rfl, edge, hedge, hv, ?_⟩
    simp [destinationAlong, hedge]

lemma mem_outEdges_of_leaves (hg : g.WellFormed) {s : SubRoomId} {v : VertexId}
    (hv : g.vertexOf.find? s = some v) {e : EdgeId} (he : g.Leaves v e) : e ∈ g.outEdges s := by
  obtain ⟨edge, hedge, rfl⟩ := he
  exact hg.mem_outEdges.2 ⟨edge, hedge, (hg.vertexOf_iff s edge.source).1 hv⟩

section
variable [Scalar α] {s : SubRoomId} {p : Point α} {d : Destination α} {e : NetworkError}

theorem mem_outEdges_of_cheapest (hg : g.WellFormed) (h : g.cheapestDestination s p = .ok d) :
    d.edge ∈ g.outEdges s := by
  unfold cheapestDestination at h
  cases hv : g.vertexOf.find? s with
  | none => simp [hv] at h
  | some v =>
    have hgoing (k : ℕ) (s s' : Search α)
        (hs : ∃ trail, Search.Trail g v s trail ∧ Search.work g s trail ≤ k)
        (hstep : s.step g = .going s') :
        ∃ k' < k, ∃ trail, Search.Trail g v s' trail ∧ Search.work g s' trail ≤ k' := by
      obtain ⟨trail, htrail, hk⟩ := hs
      obtain ⟨trail', htrail', hless⟩ := htrail.going hg hstep
      exact ⟨_, hless.trans_le hk, trail', htrail', le_rfl⟩
    obtain ⟨k, s₁, ⟨trail, htrail, -⟩, ⟨-, hrun⟩ | ⟨s₂, e, c, hfound, hrun⟩⟩ :=
      Search.run_spec hgoing ⟨[], (Search.trail_start hg v p).1, work_start_le hg v p⟩
        (Nat.lt_succ_self _)
    · simp [hv, hrun] at h
    · obtain ⟨hexit, hnew, -, rest, hpop, rfl⟩ := htrail.found hfound
      have hsettled := htrail.settle (MinHeap.toList_pop? hpop) hnew
      have hroute := (hsettled.isRoute_chain hexit).2
      obtain ⟨-, -, -, edge, hedge, hsource, -⟩ := destinationAlong_spec hroute c
      simp only [hv, hrun, Except.ok.injEq] at h
      rw [← h]
      exact mem_outEdges_of_leaves hg hv ⟨edge, hedge, hsource⟩

lemma cheapestDestination_eq_error (h : g.cheapestDestination s p = .error e) :
    e = .noVertex s ∨ e = .noRouteKnown s := by
  unfold cheapestDestination at h
  split at h
  · exact .inl (Except.error.inj h).symm
  · simp only at h
    split at h
    · exact .inr (Except.error.inj h).symm
    · cases h

/-- The cheapest door at hand is one of the edges out of the subroom, and there is one unless the
subroom has no edges. -/
theorem localDestination_cases (hg : g.WellFormed) (s : SubRoomId) (p : Point α) :
    (∃ d, g.localDestination s p = .ok d ∧ d.edge ∈ g.outEdges s) ∨
      g.outEdges s = [] ∧ (g.localDestination s p = .error (.noVertex s) ∨
        g.localDestination s p = .error (.noOutEdges s)) := by
  unfold localDestination
  cases hv : g.vertexOf.find? s with
  | none => exact .inr ⟨by simp [outEdges, hv], .inl rfl⟩
  | some v =>
    have hout : g.outEdges s = g.outOf v := by simp [outEdges, hv]
    rw [hout]
    simp only
    split
    · rename_i hnil
      refine .inr ⟨?_, .inr rfl⟩
      refine List.eq_nil_iff_forall_not_mem.2 fun e he => ?_
      obtain ⟨edge, hedge, -⟩ := (hg.mem_outOf v e).1 he
      have hmem := List.filterMap_eq_nil_iff.1 hnil e he
      simp [hedge] at hmem
    · rename_i w ws hweighted
      refine .inl ⟨_, rfl, ?_⟩
      have hmem := MinHeap.foldl_mem cheaper w ws
      rw [← hweighted, List.mem_filterMap] at hmem
      obtain ⟨e, he, hw⟩ := hmem
      obtain ⟨edge, -, hpair⟩ := Option.map_eq_some_iff.1 hw
      have hfst := congrArg Prod.fst hpair
      exact hfst ▸ he

end

end Network

end Egress
