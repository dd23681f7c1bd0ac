import Egress.Proofs.Laws
import Egress.Proofs.Network.Search
import Egress.Proofs.Network.Weight

/-!
# The search as a plain scan

The textbook form of the search has no queue. It keeps a cost for each edge, and in each round looks
through all edges that have been reached and are not final for the one with the least cost, of
equally cheap ones that with the lowest number. The search with a queue gives the same answers: of
the labels that it holds for an edge, only the latest carries the edge's cost, the others are
dropped when they come up, and the first label that is not dropped is that of the edge which the
scan finds.

Costs need not be exact for this. Only the laws of rounded arithmetic are used, in which different
chains of doors often tie.
-/
namespace Egress

variable {α : Type} [Scalar α]

/-- The edges that can be taken after an edge: those out of the vertex that it leads to, except
those that lead straight back. -/
def Network.successors (g : Network α) (e : EdgeId) : List EdgeId :=
  match g.edge? e with
  | none => []
  | some edge => ((edge.dest.map g.outOf).getD []).filter fun e' =>
      (g.edge? e').any fun next => next.dest != some edge.source

structure Scan (α : Type) where
  /-- Cost of the cheapest chain found up to each edge, infinite for edges that have not been
  reached. -/
  cost : EdgeId → α
  /-- The edge before each edge on that chain. -/
  previous : EdgeId → Option EdgeId
  /-- Edges whose cost is final, latest first. -/
  final : List EdgeId

namespace Scan

def isOpen (t : Scan α) (e : EdgeId) : Bool :=
  decide (t.cost e < Scalar.infinity) && !t.final.contains e

/-- True if the first of two edges is cheaper, or as cheap with a lower number. -/
def cheaper (t : Scan α) (e e' : EdgeId) : Bool :=
  decide (t.cost e < t.cost e') || (!decide (t.cost e' < t.cost e) && decide (e < e'))

/-- The open edge than which no other is cheaper. -/
def next? (g : Network α) (t : Scan α) : Option EdgeId :=
  let edges := (List.range g.edges.size).filter t.isOpen
  edges.find? fun e => edges.all fun e' => !t.cheaper e' e

/-- Notes the cost of a chain that reaches an edge through `previous`, if that is an improvement. Of
equally cheap chains the earlier one stays. -/
def relax (t : Scan α) (previous : Option EdgeId) (e : EdgeId) (cost : α) : Scan α :=
  if cost < t.cost e then
    { t with
      cost := Function.update t.cost e cost
      previous := Function.update t.previous e previous }
  else t

def start (g : Network α) (v : VertexId) (p : Point α) : Scan α :=
  (g.outOf v).foldl (fun t e => t.relax none e (g.weightOf p e))
    ⟨fun _ => Scalar.infinity, fun _ => none, []⟩

/-- Makes the cost of an edge final and relaxes its successors, those that are final included. -/
def finalise (g : Network α) (t : Scan α) (e : EdgeId) : Scan α :=
  (g.successors e).foldl
    (fun t' e' => t'.relax (some e) e' (t.cost e + g.weightOf (g.doorCentre e) e'))
    { t with final := e :: t.final }

/-- Up to as many rounds as given, which end with the exit that is found. -/
def run (g : Network α) : ℕ → Scan α → Option (Scan α × EdgeId)
  | 0, _ => none
  | rounds + 1, t =>
    match t.next? g with
    | none => none
    | some e =>
      if (g.edge? e).any fun edge => edge.dest.isNone then some (t, e)
      else run g rounds (t.finalise g e)

def trace (t : Scan α) : ℕ → EdgeId → List EdgeId
  | 0, e => [e]
  | steps + 1, e =>
    match t.previous e with
    | none => [e]
    | some p => trace t steps p ++ [e]

end Scan

/-- The cheapest known way out of the building, found by a plain scan. Each round makes the cost of
one more edge final, so the rounds suffice. -/
def Network.scanDestination (g : Network α) (subroom : SubRoomId) (p : Point α) :
    Except NetworkError (Destination α) :=
  match g.vertexOf.find? subroom with
  | none => .error (.noVertex subroom)
  | some v =>
    match Scan.run g (g.edges.size + 1) (Scan.start g v p) with
    | none => .error (.noRouteKnown subroom)
    | some (t, exit) => .ok (g.destinationAlong (t.trace g.edges.size exit) (t.cost exit))

/-- By cost and number labels are ranked. -/
theorem Label.ranks_of_laws (h : Scalar.Laws α) : MinHeap.Ranks (@Label.before α _) := by
  constructor
  · intro a b hab
    unfold Label.before at hab ⊢
    rw [Bool.or_eq_true, Bool.and_eq_true, Bool.not_eq_true', decide_eq_true_eq] at hab
    rcases hab with hab | ⟨hba, hlt⟩
    · simp [hab, h.precedes_asymm hab]
    · simp [hba, hlt.not_gt]
  · intro a b c hba hcb
    unfold Label.before at hba hcb ⊢
    rw [Bool.or_eq_false_iff, Bool.and_eq_false_iff, Bool.not_eq_false',
      decide_eq_false_iff_not] at hba hcb ⊢
    have hca : Scalar.precedes c.cost a.cost = false := by
      rw [← Bool.not_eq_true]
      intro hlt
      rcases h.precedes_or_precedes b.cost hlt with hlt | hlt
      · simp [hlt] at hcb
      · simp [hlt] at hba
    refine ⟨hca, ?_⟩
    rcases hba.2 with hab | hab
    · rcases h.precedes_or_precedes c.cost hab with hac | hcb'
      · exact .inl hac
      · simp [hcb'] at hcb
    · rcases hcb.2 with hbc | hbc
      · rcases h.precedes_or_precedes a.cost hbc with hba' | hac
        · simp [hba'] at hba
        · exact .inl hac
      · exact .inr fun hca => hab ((Nat.not_lt.1 hbc).trans_lt hca)

namespace Scan

variable {g : Network α} {v : VertexId} {s s' : Search α} {t t' : Scan α} {trail : List EdgeId}

lemma eq_of_not_cheaper {e e' : EdgeId} (h : t.cheaper e e' = false) (h' : t.cheaper e' e = false) :
    e = e' := by
  simp only [cheaper, Bool.or_eq_false_iff, Bool.and_eq_false_iff, Bool.not_eq_false',
    decide_eq_false_iff_not, decide_eq_true_eq] at h h'
  exact Nat.le_antisymm (Nat.not_lt.1 (h'.2.resolve_left h.1))
    (Nat.not_lt.1 (h.2.resolve_left h'.1))

lemma next?_eq_none (h : ∀ e < g.edges.size, t.isOpen e = false) : t.next? g = none := by
  have hnil : (List.range g.edges.size).filter t.isOpen = [] := by
    rw [List.filter_eq_nil_iff]
    intro e he
    rw [h e (List.mem_range.1 he)]
    exact Bool.false_ne_true
  rw [next?, hnil]
  rfl

/-- There is no choice: if no open edge is cheaper than an open one, that one comes next. -/
lemma next?_eq_some {e : EdgeId} (hlt : e < g.edges.size) (he : t.isOpen e = true)
    (hmin : ∀ e' < g.edges.size, t.isOpen e' = true → t.cheaper e' e = false) :
    t.next? g = some e := by
  have hmem {e' : EdgeId} : e' ∈ (List.range g.edges.size).filter t.isOpen ↔
      e' < g.edges.size ∧ t.isOpen e' = true := by
    rw [List.mem_filter, List.mem_range]
  have hall {e' : EdgeId} : (((List.range g.edges.size).filter t.isOpen).all
      fun e'' => !t.cheaper e'' e') = true ↔
      ∀ e'' < g.edges.size, t.isOpen e'' = true → t.cheaper e'' e' = false := by
    simp only [List.all_eq_true, hmem, and_imp, Bool.not_eq_true']
  unfold next?
  cases hfind : ((List.range g.edges.size).filter t.isOpen).find? fun e' =>
      ((List.range g.edges.size).filter t.isOpen).all fun e'' => !t.cheaper e'' e' with
  | none => exact absurd (hall.2 hmin) (List.find?_eq_none.1 hfind e (hmem.2 ⟨hlt, he⟩))
  | some e' =>
    obtain ⟨hlt', he'⟩ := hmem.1 (List.mem_of_find?_eq_some hfind)
    have hbest := List.find?_some hfind
    have hmin' := hall.1 hbest
    exact congrArg some (eq_of_not_cheaper (hmin e' hlt' he') (hmin' e hlt he))

/-- The scan has come as far as the search, which has settled the listed edges. -/
structure Tracks (g : Network α) (v : VertexId) (s : Search α) (trail : List EdgeId)
    (t : Scan α) : Prop where
  isTrail : Search.Trail g v s trail
  ordered : s.queue.Ordered Label.before
  cost_eq : ∀ e, t.cost e = s.cost.getD e Scalar.infinity
  previous_eq : ∀ e, t.previous e = s.previous.getD e none
  final_eq : t.final = trail
  reached : ∀ e, t.cost e = Scalar.infinity ∨ t.cost e < Scalar.infinity
  /-- A label carries the cost of its edge, or one that has been bettered since. -/
  label : ∀ l ∈ s.queue.toList, l.cost < Scalar.infinity ∧
    (t.cost l.edge = l.cost ∨ t.cost l.edge < l.cost)
  /-- Each open edge has a label with its cost. -/
  queued : ∀ e, e ∉ trail → t.cost e < Scalar.infinity → ⟨t.cost e, e⟩ ∈ s.queue.toList
  /-- No label is cheaper than a settled edge. -/
  below : ∀ e ∈ trail, ∀ l ∈ s.queue.toList, ¬l.cost < t.cost e

lemma relax_of_not_lt {o : Option EdgeId} {e : EdgeId} {c : α} (h : ¬c < t.cost e) :
    t.relax o e c = t :=
  if_neg h

lemma cost_relax {o : Option EdgeId} {e : EdgeId} {c : α} (h : c < t.cost e) (e' : EdgeId) :
    (t.relax o e c).cost e' = if e' = e then c else t.cost e' := by
  rw [relax, if_pos h]
  exact Function.update_apply _ _ _ _

lemma previous_relax {o : Option EdgeId} {e : EdgeId} {c : α} (h : c < t.cost e) (e' : EdgeId) :
    (t.relax o e c).previous e' = if e' = e then o else t.previous e' := by
  rw [relax, if_pos h]
  exact Function.update_apply _ _ _ _

@[simp] lemma final_relax (t : Scan α) (o : Option EdgeId) (e : EdgeId) (c : α) :
    (t.relax o e c).final = t.final := by
  unfold relax
  split <;> rfl

lemma cost_relax_of_ne {o : Option EdgeId} {e e' : EdgeId} (hne : e' ≠ e) (c : α) :
    (t.relax o e c).cost e' = t.cost e' := by
  by_cases h : c < t.cost e
  · rw [cost_relax h, if_neg hne]
  · rw [relax_of_not_lt h]

theorem Tracks.offer (hα : Scalar.Laws α) (h : Tracks g v s trail t) {o : Option EdgeId}
    {e : EdgeId} (hent : g.Enters v o e) (ho : ∀ p, o = some p → p ∈ trail) (he : e ∉ trail) {c : α}
    (hc : ∀ e' ∈ trail, ¬c < t.cost e') : Tracks g v (s.offer o e c) trail (t.relax o e c) := by
  have htrail := h.isTrail.offer hent ho he c
  by_cases hlt : c < t.cost e
  · rw [Search.offer_of_lt (h.cost_eq e ▸ hlt)] at htrail ⊢
    have hreached : c < Scalar.infinity := by
      rcases h.reached e with heq | hless
      · exact heq ▸ hlt
      · exact hα.lt_trans hlt hless
    constructor
    case isTrail => exact htrail
    case ordered => exact MinHeap.ordered_push (Label.ranks_of_laws hα) h.ordered _
    case cost_eq =>
      intro e'
      rw [cost_relax hlt, Search.getD_cost_label (h.isTrail.cost_size ▸ hent.lt), h.cost_eq]
    case previous_eq =>
      intro e'
      rw [previous_relax hlt, Search.getD_previous_label (h.isTrail.previous_size ▸ hent.lt),
        h.previous_eq]
    case final_eq => rw [final_relax, h.final_eq]
    case reached =>
      intro e'
      rw [cost_relax hlt]
      split
      · exact .inr hreached
      · exact h.reached e'
    case label =>
      intro l hl
      rw [cost_relax hlt]
      rcases Search.mem_queue_label.1 hl with rfl | hl
      · exact ⟨hreached, .inl (if_pos rfl)⟩
      · obtain ⟨hfinite, hcost⟩ := h.label l hl
        refine ⟨hfinite, ?_⟩
        split
        · rename_i heq
          rw [heq] at hcost
          rcases hcost with hcost | hcost
          · exact .inr (hcost ▸ hlt)
          · exact .inr (hα.lt_trans hlt hcost)
        · exact hcost
    case queued =>
      intro e' he' hfinite
      rw [cost_relax hlt] at hfinite ⊢
      split
      · rename_i heq
        exact Search.mem_queue_label.2 (.inl (by rw [heq]))
      · rename_i hne
        rw [if_neg hne] at hfinite
        exact Search.mem_queue_label.2 (.inr (h.queued e' he' hfinite))
    case below =>
      intro e' he' l hl
      have hne : e' ≠ e := fun heq => he (heq ▸ he')
      rw [cost_relax_of_ne hne]
      rcases Search.mem_queue_label.1 hl with rfl | hl
      · exact hc e' he'
      · exact h.below e' he' l hl
  · rwa [relax_of_not_lt hlt, Search.offer_of_not_lt (h.cost_eq e ▸ hlt)]

/-- What the search makes of an edge that it meets, the scan makes of it if the edge can be taken
there. A settled edge cannot be improved. -/
lemma Tracks.met (hα : Scalar.Laws α) (h : Tracks g v s trail t) {o : Option EdgeId}
    (ho : ∀ p, o = some p → p ∈ trail) {c : EdgeId → α} {e : EdgeId}
    (hc : ∀ e' ∈ trail, ¬c e < t.cost e') (hs' : Search.Met g v trail o c s e s')
    (ht' : g.Enters v o e ∧ t' = t.relax o e (c e) ∨ ¬g.Enters v o e ∧ t' = t) :
    Tracks g v s' trail t' ∧ ∀ e' ∈ trail, t'.cost e' = t.cost e' := by
  rcases hs' with ⟨rfl, hskip⟩ | ⟨rfl, he, hent⟩
  · have hsame : t' = t := by
      rcases ht' with ⟨hent, ht'⟩ | ⟨-, ht'⟩
      · rw [ht', relax_of_not_lt (hc e (hskip.resolve_right (not_not_intro hent)))]
      · exact ht'
    rw [hsame]
    exact ⟨h, fun _ _ => rfl⟩
  · obtain rfl := (ht'.resolve_right fun hno => hno.1 hent).2
    refine ⟨h.offer hα hent ho he hc, fun e' he' => cost_relax_of_ne ?_ _⟩
    rintro rfl
    exact he he'

/-- Meeting edges one after the other keeps search and scan side by side. -/
theorem Tracks.foldl_met (hα : Scalar.Laws α) {f : Search α → EdgeId → Search α}
    {k : Scan α → EdgeId → Scan α} {o : Option EdgeId} {c : EdgeId → α}
    (ho : ∀ p, o = some p → p ∈ trail) {es : List EdgeId}
    (hf : ∀ s, Search.Trail g v s trail → ∀ e ∈ es, Search.Met g v trail o c s e (f s e))
    (hk : ∀ t, ∀ e ∈ es,
      g.Enters v o e ∧ k t e = t.relax o e (c e) ∨ ¬g.Enters v o e ∧ k t e = t)
    (hc : ∀ e, ∀ e' ∈ trail, ¬c e < t.cost e') (h : Tracks g v s trail t) :
    Tracks g v (es.foldl f s) trail (es.foldl k t) := by
  induction es generalizing s t with
  | nil => exact h
  | cons e es ih =>
    obtain ⟨hhead, hsame⟩ := h.met hα ho (hc e) (hf s h.isTrail e List.mem_cons_self)
      (hk t e List.mem_cons_self)
    refine ih (fun s hs e' he' => hf s hs e' (List.mem_cons_of_mem e he'))
      (fun t e' he' => hk t e' (List.mem_cons_of_mem e he')) (fun e' e'' he'' => ?_) hhead
    rw [hsame e'' he'']
    exact hc e' e'' he''

lemma tracks_blank (hα : Scalar.Laws α) (g : Network α) (v : VertexId) :
    Tracks g v (Search.blank g.edges.size) [] ⟨fun _ => Scalar.infinity, fun _ => none, []⟩ := by
  have hget {β : Type} (x : β) (e : EdgeId) : (Array.replicate g.edges.size x).getD e x = x := by
    rw [Array.getD_eq_getD_getElem?, Array.getElem?_replicate]
    split <;> rfl
  constructor
  case isTrail => exact Search.trail_blank
  case ordered => trivial
  case cost_eq => exact fun e => (hget _ e).symm
  case previous_eq => exact fun e => (hget _ e).symm
  case final_eq => rfl
  case reached => exact fun e => .inl rfl
  case label => exact fun l hl => absurd hl List.not_mem_nil
  case queued => exact fun e _ hlt => absurd hlt (hα.lt_irrefl _)
  case below => exact fun e he => absurd he List.not_mem_nil

theorem tracks_start (hα : Scalar.Laws α) (hg : g.WellFormed) (v : VertexId) (p : Point α) :
    Tracks g v (Search.start g v p) [] (start g v p) := by
  refine (tracks_blank hα g v).foldl_met hα (o := none) (c := g.weightOf p) (by simp)
    (fun s _ e he => Search.met_start hg p he) (fun t e he => .inl ⟨?_, rfl⟩)
    fun e e' he' => absurd he' List.not_mem_nil
  obtain ⟨edge, hedge, hv⟩ := (hg.mem_outOf v e).1 he
  exact ⟨edge, hedge, hv⟩

lemma Tracks.isOpen_iff (h : Tracks g v s trail t) {e : EdgeId} :
    t.isOpen e = true ↔ t.cost e < Scalar.infinity ∧ e ∉ trail := by
  simp [isOpen, h.final_eq]

lemma Tracks.next?_eq_none (h : Tracks g v s trail t) (hq : s.queue.toList = []) :
    t.next? g = none := by
  refine Scan.next?_eq_none fun e _ => ?_
  rw [← Bool.not_eq_true, h.isOpen_iff]
  rintro ⟨hfinite, he⟩
  have hmem := h.queued e he hfinite
  rw [hq] at hmem
  exact absurd hmem List.not_mem_nil

/-- A label that has not been bettered carries the cost of its edge. -/
lemma Tracks.cost_eq_of_fresh (h : Tracks g v s trail t) {l : Label α} (hl : l ∈ s.queue.toList)
    (hfresh : ¬s.cost.getD l.edge Scalar.infinity < l.cost) : t.cost l.edge = l.cost :=
  (h.label l hl).2.resolve_right (h.cost_eq l.edge ▸ hfresh)

/-- The edge of the first label that is not dropped comes next. -/
lemma Tracks.next?_eq_some (hα : Scalar.Laws α) (h : Tracks g v s trail t) {l : Label α}
    {rest : MinHeap (Label α)} (hpop : s.queue.pop? Label.before = some (l, rest))
    (hnew : l.edge ∉ trail) (hcost : t.cost l.edge = l.cost) : t.next? g = some l.edge := by
  have hq := MinHeap.toList_pop? hpop
  have hl : l ∈ s.queue.toList := hq.mem_iff.2 List.mem_cons_self
  have hfinite := (h.label l hl).1
  refine Scan.next?_eq_some (h.isTrail.lt_of_mem_queue hl)
    (h.isOpen_iff.2 ⟨hcost ▸ hfinite, hnew⟩) fun e _ he => ?_
  obtain ⟨hreached, hout⟩ := h.isOpen_iff.1 he
  rcases List.mem_cons.1 (hq.mem_iff.1 (h.queued e hout hreached)) with heq | hrest
  · rw [← heq]
    simp [cheaper, hα.lt_irrefl]
  · have hbefore := (MinHeap.ordered_pop? (Label.ranks_of_laws hα) h.ordered hpop).1 _ hrest
    have hnumber := (hα.isNaN_of_lt hfinite).1
    have hnumber' := (hα.isNaN_of_lt hreached).1
    rw [cheaper, hcost]
    simpa [Label.before, Scalar.precedes, hnumber, hnumber'] using hbefore

lemma Tracks.drop (hα : Scalar.Laws α) (h : Tracks g v s trail t) {l : Label α}
    {rest : MinHeap (Label α)} (hpop : s.queue.pop? Label.before = some (l, rest))
    (hstale : l.edge ∈ trail ∨ s.cost.getD l.edge Scalar.infinity < l.cost) :
    Tracks g v { s with queue := rest } trail t := by
  have hq := MinHeap.toList_pop? hpop
  have hkeep {l' : Label α} (hl' : l' ∈ rest.toList) : l' ∈ s.queue.toList :=
    hq.mem_iff.2 (List.mem_cons_of_mem l hl')
  refine { h with
    isTrail := h.isTrail.drop hq
    ordered := (MinHeap.ordered_pop? (Label.ranks_of_laws hα) h.ordered hpop).2
    label := fun l' hl' => h.label l' (hkeep hl')
    queued := fun e he hfinite => ?_
    below := fun e he l' hl' => h.below e he l' (hkeep hl') }
  rcases List.mem_cons.1 (hq.mem_iff.1 (h.queued e he hfinite)) with rfl | hrest
  · rcases hstale with hmem | hlt
    · exact absurd hmem he
    · exact absurd (h.cost_eq e ▸ hlt) (hα.lt_irrefl _)
  · exact hrest

lemma Tracks.settle (hα : Scalar.Laws α) (h : Tracks g v s trail t) {l : Label α}
    {rest : MinHeap (Label α)} (hpop : s.queue.pop? Label.before = some (l, rest))
    (hnew : l.edge ∉ trail) (hcost : t.cost l.edge = l.cost) :
    Tracks g v (s.settle l.edge rest) (l.edge :: trail) { t with final := l.edge :: t.final } := by
  have hq := MinHeap.toList_pop? hpop
  obtain ⟨hfirst, hordered⟩ := MinHeap.ordered_pop? (Label.ranks_of_laws hα) h.ordered hpop
  have hkeep {l' : Label α} (hl' : l' ∈ rest.toList) : l' ∈ s.queue.toList :=
    hq.mem_iff.2 (List.mem_cons_of_mem l hl')
  constructor
  case isTrail => exact h.isTrail.settle hq hnew
  case ordered => exact hordered
  case cost_eq => exact h.cost_eq
  case previous_eq => exact h.previous_eq
  case final_eq => exact congrArg (l.edge :: ·) h.final_eq
  case reached => exact h.reached
  case label => exact fun l' hl' => h.label l' (hkeep hl')
  case queued =>
    intro e he hfinite
    rw [List.mem_cons, not_or] at he
    rcases List.mem_cons.1 (hq.mem_iff.1 (h.queued e he.2 hfinite)) with rfl | hrest
    · exact absurd rfl he.1
    · exact hrest
  case below =>
    intro e he l' hl'
    rcases List.mem_cons.1 he with rfl | he
    · intro hlt
      have hbefore := hfirst l' hl'
      rw [show t.cost l.edge = l.cost from hcost] at hlt
      simp [Label.before, Scalar.precedes, hlt] at hbefore
    · exact h.below e he l' (hkeep hl')

lemma weightOf_nonneg (hα : Scalar.Laws α) (g : Network α) (q : Point α) (e : EdgeId) :
    ¬g.weightOf q e < 0 := by
  unfold Network.weightOf
  split
  · exact hα.mul_nonneg (hα.sqrt_nonneg _) (hα.larger_zero_nonneg _)
  · exact hα.lt_irrefl 0

/-- What settles the next edge and labels what follows makes the edge final. -/
theorem Tracks.finalise (hα : Scalar.Laws α) (hg : g.WellFormed) (h : Tracks g v s trail t)
    {l : Label α} {rest : MinHeap (Label α)} (hpop : s.queue.pop? Label.before = some (l, rest))
    (hnew : l.edge ∉ trail) (hcost : t.cost l.edge = l.cost) {edge : Edge α}
    (hedge : g.edge? l.edge = some edge) {dest : VertexId} (hdest : edge.dest = some dest) :
    Tracks g v (Search.expand g (s.settle l.edge rest) edge dest l.cost) (l.edge :: trail)
      (t.finalise g l.edge) := by
  have hl : l ∈ s.queue.toList := (MinHeap.toList_pop? hpop).mem_iff.2 List.mem_cons_self
  have hid : edge.id = l.edge := hg.id_eq _ _ hedge
  have hcentre : g.doorCentre l.edge = edge.line.centre := by
    simp only [Network.doorCentre, hedge]
  have hsuccessors : g.successors l.edge = (g.outOf dest).filter fun e' =>
      (g.edge? e').any fun next => next.dest != some edge.source := by
    simp only [Network.successors, hedge, hdest, Option.map_some, Option.getD_some]
  rw [Scan.finalise, hsuccessors, List.foldl_filter, hcost, hcentre]
  refine Tracks.foldl_met hα (o := some edge.id)
    (c := fun e => l.cost + g.weightOf edge.line.centre e) ?_
    (fun s hs e he => Search.met_expand hg hs (hid ▸ hedge) hdest l.cost he)
    (fun t e he => ?_) (fun e e' he' => ?_) (h.settle hα hpop hnew hcost)
  · intro p hp
    rw [← Option.some.inj hp, hid]
    exact List.mem_cons_self
  · obtain ⟨next, hnext, -⟩ := (hg.mem_outOf dest e).1 he
    have hfollows := hg.follows_iff hedge hdest he hnext
    rw [hid]
    by_cases hback : next.dest = some edge.source
    · refine .inr ⟨fun hent => hfollows.1 hent hback, ?_⟩
      simp [hnext, hback]
    · refine .inl ⟨hfollows.2 hback, ?_⟩
      simp [hnext, hback]
  · have hlow : ¬l.cost + g.weightOf edge.line.centre e < l.cost :=
      hα.le_add l.cost (weightOf_nonneg hα g _ e)
    rcases List.mem_cons.1 he' with rfl | he'
    · rw [show t.cost l.edge = l.cost from hcost]
      exact hlow
    · intro hlt
      have hnumber := (hα.isNaN_of_lt (h.label l hl).1).1
      rcases hα.lt_or_lt l.cost hlt hnumber with hlt | hlt
      · exact hlow hlt
      · exact h.below e' he' l hl hlt

/-- While the search goes on, the scan waits or makes one more round. -/
theorem Tracks.going (hα : Scalar.Laws α) (hg : g.WellFormed) (h : Tracks g v s trail t)
    (hstep : s.step g = .going s') :
    Tracks g v s' trail t ∧ Search.work g s' trail < Search.work g s trail ∨
      ∃ e, t.next? g = some e ∧ ¬g.IsExit e ∧ Tracks g v s' (e :: trail) (t.finalise g e) ∧
        Search.work g s' (e :: trail) < Search.work g s trail := by
  rcases h.isTrail.step_cases with
    ⟨-, hend⟩ | ⟨l, rest, hpop, ⟨hstale, hdrop⟩ | ⟨hnew, hfresh, edge, hedge, hcases⟩⟩
  · simp [hend] at hstep
  · rw [hdrop, Search.Step.going.injEq] at hstep
    subst hstep
    exact .inl ⟨h.drop hα hpop hstale, Search.work_drop_lt (MinHeap.toList_pop? hpop)⟩
  · have hq := MinHeap.toList_pop? hpop
    rcases hcases with ⟨-, hfound⟩ | ⟨dest, hdest, hgoing⟩
    · simp [hfound] at hstep
    · rw [hgoing, Search.Step.going.injEq] at hstep
      subst hstep
      have hcost := h.cost_eq_of_fresh (hq.mem_iff.2 List.mem_cons_self) hfresh
      refine .inr ⟨l.edge, h.next?_eq_some hα hpop hnew hcost, ?_,
        h.finalise hα hg hpop hnew hcost hedge hdest,
        (h.isTrail.settle_expand hg hq hnew hedge hdest).2⟩
      rintro ⟨edge', hedge', hnone⟩
      rw [hedge, Option.some.injEq] at hedge'
      rw [← hedge', hdest] at hnone
      cases hnone

omit [Scalar α] in
lemma isExit_iff (g : Network α) (e : EdgeId) :
    ((g.edge? e).any fun edge => edge.dest.isNone) = true ↔ g.IsExit e := by
  simp [Network.IsExit, Option.any_eq_true]

lemma run_succ (rounds : ℕ) {e : EdgeId} (hnext : t.next? g = some e) (hexit : ¬g.IsExit e) :
    run g (rounds + 1) t = run g rounds (t.finalise g e) := by
  simp only [run, hnext]
  rw [if_neg (mt (isExit_iff g e).1 hexit)]

omit [Scalar α] in
lemma chain_eq_trace (h : ∀ e, t.previous e = s.previous.getD e none) (steps : ℕ) (e : EdgeId)
    (rest : List EdgeId) : s.chain steps e rest = t.trace steps e ++ rest := by
  induction steps generalizing e rest with
  | zero => rfl
  | succ steps ih =>
    rw [Search.chain, trace, h e]
    cases s.previous.getD e none with
    | none => rfl
    | some p => simp [ih]

/-- The search and the scan find the same exit at the same cost by the same chain, or none. -/
theorem run_eq (hα : Scalar.Laws α) (hg : g.WellFormed) (v : VertexId) (p : Point α) :
    (Search.run g (g.edges.size + g.edges.size * g.edges.size + 1) (Search.start g v p)).map
        (fun found => (found.1.chain g.edges.size found.2.1 [], found.2.2)) =
      (run g (g.edges.size + 1) (start g v p)).map
        fun found => (found.1.trace g.edges.size found.2, found.1.cost found.2) := by
  -- As many rounds are left as there are edges that are not settled, and one more.
  have hgoing (k : ℕ) (s s' : Search α)
      (h : ∃ trail t, Tracks g v s trail t ∧ Search.work g s trail ≤ k ∧
        run g (g.edges.size - trail.length + 1) t = run g (g.edges.size + 1) (start g v p))
      (hstep : s.step g = .going s') :
      ∃ k' < k, ∃ trail t, Tracks g v s' trail t ∧ Search.work g s' trail ≤ k' ∧
        run g (g.edges.size - trail.length + 1) t = run g (g.edges.size + 1) (start g v p) := by
    obtain ⟨trail, t, h, hk, hrun⟩ := h
    rcases h.going hα hg hstep with ⟨h', hless⟩ | ⟨e, hnext, hexit, h', hless⟩
    · exact ⟨_, hless.trans_le hk, trail, t, h', le_rfl, hrun⟩
    · refine ⟨_, hless.trans_le hk, e :: trail, _, h', le_rfl, ?_⟩
      have hlen := h'.isTrail.length_le
      rw [List.length_cons] at hlen
      have hleft : g.edges.size - trail.length = g.edges.size - (e :: trail).length + 1 := by
        rw [List.length_cons]
        omega
      rw [← hrun, hleft, run_succ _ hnext hexit]
  obtain ⟨k, s, ⟨trail, t, h, -, hrun⟩, ⟨hend, hsearch⟩ | ⟨s', e, c, hfound, hsearch⟩⟩ :=
    Search.run_spec hgoing ⟨[], _, tracks_start hα hg v p, Network.work_start_le hg v p, rfl⟩
      (Nat.lt_succ_self _)
  · rw [hsearch, ← hrun, run, h.next?_eq_none (h.isTrail.exhausted hend)]
    rfl
  · obtain ⟨hexit, hnew, hfresh, rest, hpop, rfl⟩ := h.isTrail.found hfound
    have hl := (MinHeap.toList_pop? hpop).mem_iff.2 List.mem_cons_self
    have hcost : t.cost e = c := h.cost_eq_of_fresh hl hfresh
    rw [hsearch, ← hrun, run, h.next?_eq_some hα hpop hnew hcost]
    simp only [if_pos ((isExit_iff g e).2 hexit), Option.map_some]
    rw [chain_eq_trace (s := s.settle e rest) h.previous_eq, List.append_nil, hcost]

end Scan

/-- The search with a queue answers as the plain scan does: with the same door, cost and way, or
with the same error. -/
theorem Network.cheapestDestination_eq_scan (hα : Scalar.Laws α) {g : Network α} (hg : g.Grown)
    (subroom : SubRoomId) (p : Point α) :
    g.cheapestDestination subroom p = g.scanDestination subroom p := by
  unfold cheapestDestination scanDestination
  cases g.vertexOf.find? subroom with
  | none => rfl
  | some v =>
    have hrun := Scan.run_eq hα hg.wellFormed v p
    simp only
    cases hsearch : Search.run g (g.edges.size + g.edges.size * g.edges.size + 1)
        (Search.start g v p) with
    | none =>
      rw [hsearch] at hrun
      rw [Option.map_eq_none_iff.1 hrun.symm]
    | some found =>
      rw [hsearch] at hrun
      obtain ⟨⟨t, e⟩, hscan, hsame⟩ := Option.map_eq_some_iff.1 hrun.symm
      obtain ⟨hpath, hcost⟩ := Prod.mk.inj hsame
      simp only [hscan, ← hpath, ← hcost]

namespace Network
open Exact

/-- A leaf of a gate that leads out. -/
noncomputable def leaf (uid : DoorId) : Door Exact :=
  ⟨uid, .transition, ⟨⟨real 0, real 0⟩, ⟨real 1, real 0⟩⟩, 0, none, true⟩

/-- A building of one subroom whose way out is a gate with two leaves at the same place. -/
noncomputable def gatehouse : Building Exact where
  caption := ""
  rooms := .empty
  subrooms := .empty
  doors := (OrderedMap.empty.insert 3 (leaf 3)).insert 5 (leaf 5)

/-- The network of the leaves of the gatehouse. -/
noncomputable def gatehouseNetwork : Network Exact :=
  let g := ((empty.addVertex 0).1.pushEdge 0 none 3 (leaf 3).line 0).1
  (g.pushEdge 0 none 5 (leaf 5).line 0).1

lemma grown_gatehouseNetwork : gatehouseNetwork.Grown :=
  .addEdge gatehouse 0 5 1 (.addEdge gatehouse 0 3 0 .empty rfl) rfl

lemma weightOf_gatehouse : ∃ x : ℝ, gatehouseNetwork.weightOf ⟨real 1, real 1⟩ 0 = real x ∧
    gatehouseNetwork.weightOf ⟨real 1, real 1⟩ 1 = real x := by
  have hfin : Edge.IsFinite ⟨0, 0, none, 3, (leaf 3).line, 0, .empty⟩ :=
    ⟨⟨rfl, rfl⟩, ⟨rfl, rfl⟩, fun f hf => absurd hf List.not_mem_nil⟩
  have hq : Point.IsFinite ⟨real 1, real 1⟩ := ⟨rfl, rfl⟩
  obtain ⟨x, -, hx⟩ := hfin.weight hq
  exact ⟨x, hx, hx⟩

/-- The leaves are equally far away. The search takes that with the lower edge number. -/
theorem cheapestDestination_gatehouse : Scalar.Laws Exact ∧ gatehouseNetwork.Grown ∧
    ∃ d, gatehouseNetwork.cheapestDestination 0 ⟨real 1, real 1⟩ = .ok d ∧ d.path = [0] := by
  obtain ⟨x, hfirst, hsecond⟩ := weightOf_gatehouse
  have hstart : Scan.start gatehouseNetwork 0 ⟨real 1, real 1⟩ =
      ((⟨fun _ => posInf, fun _ => none, []⟩ : Scan Exact).relax none 0 (real x)).relax
        none 1 (real x) := by
    have hfold : Scan.start gatehouseNetwork 0 ⟨real 1, real 1⟩ = List.foldl
        (fun t e => t.relax none e (gatehouseNetwork.weightOf ⟨real 1, real 1⟩ e))
        ⟨fun _ => posInf, fun _ => none, []⟩ [0, 1] := rfl
    rw [hfold, List.foldl_cons, List.foldl_cons, List.foldl_nil, hfirst, hsecond]
  set t := Scan.start gatehouseNetwork 0 ⟨real 1, real 1⟩
  have hlt : real x < ((⟨fun _ => posInf, fun _ => none, []⟩ : Scan Exact).relax none 0
      (real x)).cost 1 := by
    rw [Scan.cost_relax_of_ne (by decide)]
    exact real_lt_posInf x
  have hcost (e : EdgeId) :
      t.cost e = if e = 1 then real x else if e = 0 then real x else posInf := by
    rw [hstart, Scan.cost_relax hlt, Scan.cost_relax (real_lt_posInf x)]
  have hprevious : t.previous 0 = none := by
    rw [hstart, Scan.previous_relax hlt, Scan.previous_relax (real_lt_posInf x)]
    rfl
  have hnext : t.next? gatehouseNetwork = some 0 := by
    refine Scan.next?_eq_some (by decide) ?_ fun e he _ => ?_
    · have hfinal : t.final = [] := by rw [hstart, Scan.final_relax, Scan.final_relax]
      simp [Scan.isOpen, hcost, hfinal, Scalar.infinity]
    · have hcases : e = 0 ∨ e = 1 := by
        have hsize : e < 2 := he
        omega
      rcases hcases with rfl | rfl <;> simp [Scan.cheaper, hcost]
  refine ⟨laws, grown_gatehouseNetwork, gatehouseNetwork.destinationAlong (t.trace 2 0) (t.cost 0),
    ?_, ?_⟩
  · rw [cheapestDestination_eq_scan laws grown_gatehouseNetwork]
    have hv : gatehouseNetwork.vertexOf.find? 0 = some 0 := rfl
    have hrun : Scan.run gatehouseNetwork (gatehouseNetwork.edges.size + 1) t = some (t, 0) := by
      rw [Scan.run, hnext]
      rfl
    simp only [scanDestination, hv]
    rw [hrun]
    rfl
  · rw [Scan.trace, hprevious]
    rfl

end Network

end Egress
