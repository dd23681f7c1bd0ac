import Egress.Proofs.Network.Search
import Egress.Proofs.Network.Weight

/-!
# Searches find cheapest routes

A search settles edges by ascending cost: an edge that is not settled costs at least as much as all
that are, and no more than any way to it through a settled edge. A route that is cheaper than what
the search finds would have to leave the settled edges for an edge that is cheaper than the next
one to be settled.
-/
namespace Egress
open Exact

namespace Search

variable {g : Network Exact} {v : VertexId} {q : Point Exact} {s s' : Search Exact}
  {trail pending : List EdgeId}

/-- Cost of the cheapest chain found up to an edge. -/
noncomputable def costOf (s : Search Exact) (e : EdgeId) : WithTop ℝ :=
  toCost (s.cost.getD e Scalar.infinity)

/-- Cost of coming to where edges are taken from: nothing at the first vertex, and the cost of the
edge before otherwise. -/
noncomputable def base (s : Search Exact) : Option EdgeId → WithTop ℝ
  | none => 0
  | some p => s.costOf p

/-- Where edges are entered from: at `q` or at the door of the edge before. -/
noncomputable def entry (g : Network Exact) (q : Point Exact) : Option EdgeId → Point Exact
  | none => q
  | some p => g.doorCentre p

/-- Cost of the chain that reaches `e` from `o`. -/
noncomputable def via (g : Network Exact) (q : Point Exact) (s : Search Exact) (o : Option EdgeId)
    (e : EdgeId) : WithTop ℝ :=
  s.base o + g.toll (entry g q o) e

/-- What holds of a search between steps. While the edges after the latest settled one are met,
those that are `pending` may still cost more than through it. -/
structure Inv (g : Network Exact) (v : VertexId) (q : Point Exact) (s : Search Exact)
    (trail pending : List EdgeId) : Prop where
  isTrail : Trail g v s trail
  isCost : ∀ e, (s.cost.getD e Scalar.infinity).IsCost
  ordered : s.queue.Ordered Label.before
  noExit : ∀ e ∈ trail, ¬g.IsExit e
  finite : s.base trail.head? ≠ ⊤
  /-- No settled edge costs more than the latest. -/
  below : ∀ e ∈ trail, s.costOf e ≤ s.base trail.head?
  /-- No label costs less than the latest settled edge, or than the edge that it is for. -/
  label : ∀ l ∈ s.queue.toList, ∃ c : ℝ, l.cost = real c ∧ s.base trail.head? ≤ c ∧
    s.costOf l.edge ≤ c
  queued : ∀ e, e ∉ trail → s.costOf e ≠ ⊤ →
    ∃ l ∈ s.queue.toList, l.edge = e ∧ l.cost = ofCost (s.costOf e)
  /-- A cost is that of the chain that is traced back. -/
  traced : ∀ e, s.costOf e ≠ ⊤ → s.costOf e = via g q s (s.previous.getD e none) e
  /-- No edge costs more than through a settled one. -/
  relaxed : ∀ o e, (∀ p, o = some p → p ∈ trail) → g.Enters v o e →
    s.costOf e ≤ via g q s o e ∨ o = trail.head? ∧ e ∈ pending

theorem ranks_before : MinHeap.Ranks (@Label.before Exact _) :=
  MinHeap.ranks_byCost Label.cost Label.edge

lemma ofCost_costOf (h : ∀ e, (s.cost.getD e Scalar.infinity).IsCost) (e : EdgeId) :
    s.cost.getD e Scalar.infinity = ofCost (s.costOf e) :=
  (h e).symm

lemma mem_of_head? {p : EdgeId} (h : trail.head? = some p) : p ∈ trail := List.mem_of_head? h

lemma le_via (s : Search Exact) (o : Option EdgeId) (e : EdgeId) : s.base o ≤ via g q s o e :=
  le_add_of_nonneg_right (g.toll_nonneg _ e)

/-- What is no real number is never an improvement. -/
lemma offer_ofCost (s : Search Exact) (o : Option EdgeId) (e : EdgeId) {c : Exact}
    (hc : c ≠ negInf) : s.offer o e c = s.offer o e (ofCost (toCost c)) := by
  cases c with
  | real x => rfl
  | posInf => rfl
  | negInf => exact absurd rfl hc
  | nan =>
    rw [offer, if_neg (not_nan_lt _), offer, if_neg]
    exact not_posInf_lt _

/-- Costs and labels that are settled or come before do not depend on other edges. -/
lemma base_congr {o : Option EdgeId} (h : ∀ p, o = some p → s'.costOf p = s.costOf p) :
    s'.base o = s.base o := by
  cases o with
  | none => rfl
  | some p => exact h p rfl

/-- What comes before an edge of finite cost is settled. -/
lemma Inv.linked (h : Inv g v q s trail pending) {e : EdgeId} (he : s.costOf e ≠ ⊤) :
    Linked g v s trail e := by
  by_cases hmem : e ∈ trail
  · exact h.isTrail.linked_of_mem hmem
  · obtain ⟨l, hl, rfl, -⟩ := h.queued e hmem he
    exact h.isTrail.labelled l hl hmem

section
variable {o : Option EdgeId} {e : EdgeId} {c : Exact}

lemma costOf_label_self (he : e < s.cost.size) : (s.label o e c).costOf e = toCost c := by
  rw [costOf, getD_cost_label he, if_pos rfl]

lemma costOf_label_of_ne (he : e < s.cost.size) {e' : EdgeId} (hne : e' ≠ e) :
    (s.label o e c).costOf e' = s.costOf e' := by
  rw [costOf, getD_cost_label he, if_neg hne, costOf]

/-- What comes before another edge than the labelled one costs what it did. -/
lemma base_label (he : e < s.cost.size) (hnew : e ∉ trail) {o' : Option EdgeId}
    (ho : ∀ p, o' = some p → p ∈ trail) : (s.label o e c).base o' = s.base o' := by
  apply base_congr
  intro p hp
  apply costOf_label_of_ne he
  rintro rfl
  exact hnew (ho p hp)

lemma via_label (he : e < s.cost.size) (hnew : e ∉ trail) {o' : Option EdgeId}
    (ho : ∀ p, o' = some p → p ∈ trail) (e' : EdgeId) :
    via g q (s.label o e c) o' e' = via g q s o' e' := by
  rw [via, base_label he hnew ho, via]

lemma costOf_label_le (he : e < s.cost.size) (hle : toCost c ≤ s.costOf e) (e' : EdgeId) :
    (s.label o e c).costOf e' ≤ s.costOf e' := by
  by_cases heq : e' = e
  · rw [heq, costOf_label_self he]
    exact hle
  · rw [costOf_label_of_ne he heq]

end

/-- The search with an edge labelled with what it costs through the latest settled one. -/
noncomputable def improved (g : Network Exact) (q : Point Exact) (s : Search Exact)
    (trail : List EdgeId) (e : EdgeId) : Search Exact :=
  s.label trail.head? e (ofCost (via g q s trail.head? e))

section
variable {e : EdgeId}

lemma costOf_improved_self (he : e < s.cost.size) :
    (s.improved g q trail e).costOf e = via g q s trail.head? e := by
  rw [improved, costOf_label_self he, toCost_ofCost]

/-- Every label of an edge costs at least as much as the edge and as what has been settled. -/
lemma Inv.label_improved (h : Inv g v q s trail pending) (he : e < s.cost.size)
    (hlt : via g q s trail.head? e < s.costOf e) {l : Label Exact}
    (hl : l ∈ (s.improved g q trail e).queue.toList) :
    ∃ c : ℝ, l.cost = real c ∧ s.base trail.head? ≤ c ∧
      (s.improved g q trail e).costOf l.edge ≤ c := by
  rcases mem_queue_label.1 hl with rfl | hl
  · obtain ⟨c, hc⟩ := WithTop.ne_top_iff_exists.1 hlt.ne_top
    refine ⟨c, by rw [← hc, ofCost_coe], ?_, ?_⟩
    · rw [hc]
      exact le_via s _ e
    · exact ((costOf_improved_self he).trans hc.symm).le
  · obtain ⟨c, hc, hlow, hcost⟩ := h.label l hl
    have hle := costOf_label_le (o := trail.head?) he
      ((toCost_ofCost _).trans_le hlt.le) l.edge
    exact ⟨c, hc, hlow, hle.trans hcost⟩

lemma Inv.queued_improved (h : Inv g v q s trail pending) (he : e < s.cost.size) {e' : EdgeId}
    (hnew : e' ∉ trail) (htop : (s.improved g q trail e).costOf e' ≠ ⊤) :
    ∃ l ∈ (s.improved g q trail e).queue.toList,
      l.edge = e' ∧ l.cost = ofCost ((s.improved g q trail e).costOf e') := by
  by_cases heq : e' = e
  · rw [heq, costOf_improved_self he]
    exact ⟨_, mem_queue_label.2 (.inl rfl), rfl, rfl⟩
  · rw [improved, costOf_label_of_ne he heq] at htop ⊢
    obtain ⟨l, hl, hedge, hcost⟩ := h.queued e' hnew htop
    exact ⟨l, mem_queue_label.2 (.inr hl), hedge, hcost⟩

/-- What is traced back from an edge leads through settled edges, which cost what they did. -/
lemma Inv.traced_improved (h : Inv g v q s trail pending) (hlt : e < g.edges.size)
    (he : e ∉ trail) {e' : EdgeId} (htop : (s.improved g q trail e).costOf e' ≠ ⊤) :
    (s.improved g q trail e).costOf e' = via g q (s.improved g q trail e)
      ((s.improved g q trail e).previous.getD e' none) e' := by
  have hcost : e < s.cost.size := h.isTrail.cost_size ▸ hlt
  rw [improved, getD_previous_label (h.isTrail.previous_size ▸ hlt)]
  by_cases heq : e' = e
  · rw [if_pos heq, heq, via_label hcost he fun p hp => mem_of_head? hp]
    exact costOf_improved_self hcost
  · rw [improved, costOf_label_of_ne hcost heq] at htop
    rw [if_neg heq, costOf_label_of_ne hcost heq, via_label hcost he (h.linked htop).2]
    exact h.traced e' htop

lemma Inv.relaxed_improved (h : Inv g v q s trail (e :: pending)) (he : e < s.cost.size)
    (hnew : e ∉ trail) (hlt : via g q s trail.head? e < s.costOf e) {o : Option EdgeId}
    {e' : EdgeId} (ho : ∀ p, o = some p → p ∈ trail) (hent : g.Enters v o e') :
    (s.improved g q trail e).costOf e' ≤ via g q (s.improved g q trail e) o e' ∨
      o = trail.head? ∧ e' ∈ pending := by
  rw [improved, via_label he hnew ho]
  have hle := costOf_label_le (o := trail.head?) he ((toCost_ofCost _).trans_le hlt.le) e'
  rcases h.relaxed o e' ho hent with hold | ⟨rfl, hpending⟩
  · exact .inl (hle.trans hold)
  · rcases List.mem_cons.1 hpending with rfl | hpending
    · exact .inl (costOf_improved_self he).le
    · exact .inr ⟨rfl, hpending⟩

/-- An improved label settles what was pending for its edge. -/
lemma Inv.improve (h : Inv g v q s trail (e :: pending)) (hent : g.Enters v trail.head? e)
    (he : e ∉ trail) (hlt : via g q s trail.head? e < s.costOf e) :
    Inv g v q (s.improved g q trail e) trail pending ∧
      (s.improved g q trail e).base trail.head? = s.base trail.head? := by
  have hcost : e < s.cost.size := h.isTrail.cost_size ▸ hent.lt
  have hlevel : (s.improved g q trail e).base trail.head? = s.base trail.head? :=
    base_label hcost he fun p hp => mem_of_head? hp
  refine ⟨?_, hlevel⟩
  constructor
  case isTrail =>
    have hbetter : ofCost (via g q s trail.head? e) < s.cost.getD e Scalar.infinity := by
      rwa [ofCost_costOf h.isCost, ofCost_lt_ofCost]
    rw [improved, ← offer_of_lt hbetter]
    exact h.isTrail.offer hent (fun p hp => mem_of_head? hp) he _
  case isCost =>
    intro e'
    rw [improved, getD_cost_label hcost]
    split
    · exact isCost_ofCost _
    · exact h.isCost e'
  case ordered => exact MinHeap.ordered_push ranks_before h.ordered _
  case noExit => exact h.noExit
  case finite =>
    rw [hlevel]
    exact h.finite
  case below =>
    intro e' he'
    have hne : e' ≠ e := fun heq => he (heq ▸ he')
    rw [hlevel, improved, costOf_label_of_ne hcost hne]
    exact h.below e' he'
  case label =>
    intro l hl
    rw [hlevel]
    exact h.label_improved hcost hlt hl
  case queued => exact fun e' hnew htop => h.queued_improved hcost hnew htop
  case traced => exact fun e' htop => h.traced_improved hent.lt he htop
  case relaxed => exact fun o e' ho hent' => h.relaxed_improved hcost he hlt ho hent'

end

lemma Inv.skip {e : EdgeId} (h : Inv g v q s trail (e :: pending))
    (hdone : g.Enters v trail.head? e → s.costOf e ≤ via g q s trail.head? e) :
    Inv g v q s trail pending := by
  refine { h with relaxed := fun o e' ho hent => ?_ }
  rcases h.relaxed o e' ho hent with hold | ⟨rfl, hpending⟩
  · exact .inl hold
  · rcases List.mem_cons.1 hpending with rfl | hpending
    · exact .inl (hdone hent)
    · exact .inr ⟨rfl, hpending⟩

lemma Inv.met {e : EdgeId} (h : Inv g v q s trail (e :: pending)) {c : EdgeId → Exact}
    (hc : toCost (c e) = via g q s trail.head? e) (hne : c e ≠ negInf)
    (hs' : Met g v trail trail.head? c s e s') :
    Inv g v q s' trail pending ∧ s'.base trail.head? = s.base trail.head? := by
  rcases hs' with ⟨rfl, hskip⟩ | ⟨rfl, he, hent⟩
  · refine ⟨h.skip fun hent => ?_, rfl⟩
    have hmem := hskip.resolve_right (not_not_intro hent)
    exact (h.below e hmem).trans (le_via s' _ e)
  · rw [offer_ofCost s _ _ hne, hc]
    by_cases hlt : via g q s trail.head? e < s.costOf e
    · have hbetter : ofCost (via g q s trail.head? e) < s.cost.getD e Scalar.infinity := by
        rwa [ofCost_costOf h.isCost, ofCost_lt_ofCost]
      rw [offer_of_lt hbetter]
      exact h.improve hent he hlt
    · have hsame : s.offer trail.head? e (ofCost (via g q s trail.head? e)) = s := by
        rw [offer, ofCost_costOf h.isCost, if_neg (mt ofCost_lt_ofCost.1 hlt)]
      rw [hsame]
      exact ⟨h.skip fun _ => not_lt.1 hlt, rfl⟩

/-- Once all pending edges have been met, every edge costs no more than through a settled one. -/
theorem Inv.foldl_met {f : Search Exact → EdgeId → Search Exact} {c : EdgeId → Exact}
    {level : WithTop ℝ}
    (hc : ∀ e, toCost (c e) = level + g.toll (entry g q trail.head?) e ∧ c e ≠ negInf)
    (hf : ∀ s, Trail g v s trail → ∀ e ∈ pending, Met g v trail trail.head? c s e (f s e))
    (h : Inv g v q s trail pending) (hlevel : s.base trail.head? = level) :
    Inv g v q (pending.foldl f s) trail [] := by
  induction pending generalizing s with
  | nil => exact h
  | cons e es ih =>
    have hce : toCost (c e) = via g q s trail.head? e := by rw [(hc e).1, via, hlevel]
    obtain ⟨hhead, hsame⟩ := h.met hce (hc e).2 (hf s h.isTrail e List.mem_cons_self)
    exact ih (fun s hs e' he' => hf s hs e' (List.mem_cons_of_mem e he')) hhead
      (hsame.trans hlevel)

lemma costOf_blank (n : ℕ) (e : EdgeId) : (blank n : Search Exact).costOf e = ⊤ := by
  unfold costOf blank
  rw [Array.getD_eq_getD_getElem?, Array.getElem?_replicate]
  split <;> rfl

lemma inv_blank (g : Network Exact) (v : VertexId) (q : Point Exact) {es : List EdgeId}
    (hes : ∀ e, g.Leaves v e → e ∈ es) : Inv g v q (blank g.edges.size) [] es := by
  constructor
  case isTrail => exact trail_blank
  case isCost =>
    intro e
    rw [blank, Array.getD_eq_getD_getElem?, Array.getElem?_replicate]
    split <;> exact isCost_posInf
  case ordered => trivial
  case noExit =>
    intro e he
    exact absurd he List.not_mem_nil
  case finite => exact WithTop.zero_ne_top
  case below =>
    intro e he
    exact absurd he List.not_mem_nil
  case label =>
    intro l hl
    exact absurd hl List.not_mem_nil
  case queued =>
    intro e _ htop
    exact absurd (costOf_blank _ e) htop
  case traced =>
    intro e htop
    exact absurd (costOf_blank _ e) htop
  case relaxed =>
    intro o e ho hent
    cases o with
    | none => exact .inr ⟨rfl, hes e hent⟩
    | some p => exact absurd (ho p rfl) List.not_mem_nil

theorem inv_start (hg : g.WellFormed) : Inv g v q (start g v q) [] [] := by
  have hweight (e : EdgeId) : toCost (g.weightOf q e) = 0 + g.toll q e ∧
      g.weightOf q e ≠ negInf :=
    ⟨(zero_add _).symm, (g.isWeight_weightOf q e).2⟩
  exact Inv.foldl_met hweight (fun s _ e he => met_start hg q he)
    (inv_blank g v q fun e he => (hg.mem_outOf v e).2 he) rfl

/-- The label that is taken from the queue is a cheapest one. -/
lemma Inv.le_of_pop (h : Inv g v q s trail pending) {l : Label Exact}
    {rest : MinHeap (Label Exact)} (hpop : s.queue.pop? Label.before = some (l, rest)) :
    ∀ l' ∈ s.queue.toList, toCost l.cost ≤ toCost l'.cost := by
  intro l' hl'
  have hq := MinHeap.toList_pop? hpop
  rcases List.mem_cons.1 (hq.mem_iff.1 hl') with rfl | hrest
  · exact le_rfl
  · have hby : MinHeap.byCost Label.cost Label.edge l' l = false :=
      (MinHeap.ordered_pop? ranks_before h.ordered hpop).1 l' hrest
    have hnot := MinHeap.not_lt_of_byCost hby
    obtain ⟨x, hx, -⟩ := h.label l (hq.mem_iff.2 List.mem_cons_self)
    obtain ⟨x', hx', -⟩ := h.label l' hl'
    rw [hx, hx', real_lt_real, not_lt] at hnot
    rw [hx, hx', toCost_real, toCost_real]
    exact_mod_cast hnot

/-- A label that has not been bettered carries the cost of its edge. -/
lemma Inv.costOf_eq (h : Inv g v q s trail pending) {l : Label Exact} (hl : l ∈ s.queue.toList)
    (hfresh : ¬s.cost.getD l.edge Scalar.infinity < l.cost) : s.costOf l.edge = toCost l.cost := by
  obtain ⟨x, hx, -, hle⟩ := h.label l hl
  rw [ofCost_costOf h.isCost, hx, ← ofCost_coe, ofCost_lt_ofCost, not_lt] at hfresh
  rw [hx, toCost_real]
  exact le_antisymm hle hfresh

lemma Inv.drop (h : Inv g v q s trail pending) {l : Label Exact} {rest : MinHeap (Label Exact)}
    (hpop : s.queue.pop? Label.before = some (l, rest))
    (hstale : l.edge ∈ trail ∨ s.cost.getD l.edge Scalar.infinity < l.cost) :
    Inv g v q { s with queue := rest } trail pending := by
  have hq := MinHeap.toList_pop? hpop
  refine { h with
    isTrail := h.isTrail.drop hq
    ordered := (MinHeap.ordered_pop? ranks_before h.ordered hpop).2
    label := fun l' hl' => h.label l' (hq.mem_iff.2 (List.mem_cons_of_mem l hl'))
    queued := fun e he htop => ?_ }
  obtain ⟨l', hl', hedge, hcost⟩ := h.queued e he htop
  rcases List.mem_cons.1 (hq.mem_iff.1 hl') with rfl | hrest
  · rcases hstale with hmem | hlt
    · exact absurd (hedge ▸ hmem) he
    · rw [ofCost_costOf h.isCost, hedge, hcost, ofCost_lt_ofCost] at hlt
      exact absurd hlt (lt_irrefl _)
  · exact ⟨l', hrest, hedge, hcost⟩

/-- Settling the cheapest edge makes the edges after it pending. -/
lemma Inv.settle (h : Inv g v q s trail []) {l : Label Exact} {rest : MinHeap (Label Exact)}
    (hpop : s.queue.pop? Label.before = some (l, rest)) (hnew : l.edge ∉ trail)
    (hfresh : ¬s.cost.getD l.edge Scalar.infinity < l.cost) (hexit : ¬g.IsExit l.edge)
    (hpending : ∀ e, g.Follows l.edge e → e ∈ pending) :
    Inv g v q (s.settle l.edge rest) (l.edge :: trail) pending := by
  have hq := MinHeap.toList_pop? hpop
  have hl : l ∈ s.queue.toList := hq.mem_iff.2 List.mem_cons_self
  have hcost := h.costOf_eq hl hfresh
  obtain ⟨x, hx, hlow, -⟩ := h.label l hl
  have hlevel : (s.settle l.edge rest).base (l.edge :: trail).head? = x := by
    show s.costOf l.edge = x
    rw [hcost, hx, toCost_real]
  have hedge : s.costOf l.edge = x := hlevel
  constructor
  case isTrail => exact h.isTrail.settle hq hnew
  case isCost => exact h.isCost
  case ordered => exact (MinHeap.ordered_pop? ranks_before h.ordered hpop).2
  case noExit =>
    intro e he
    rcases List.mem_cons.1 he with rfl | he
    · exact hexit
    · exact h.noExit e he
  case finite =>
    rw [hlevel]
    exact WithTop.coe_ne_top
  case below =>
    intro e he
    rw [hlevel]
    rcases List.mem_cons.1 he with rfl | he
    · exact hedge.le
    · exact (h.below e he).trans hlow
  case label =>
    intro l' hl'
    have hmem : l' ∈ s.queue.toList := hq.mem_iff.2 (List.mem_cons_of_mem l hl')
    obtain ⟨x', hx', -, hle⟩ := h.label l' hmem
    have hmin := h.le_of_pop hpop l' hmem
    rw [hx, hx', toCost_real, toCost_real] at hmin
    exact ⟨x', hx', hlevel ▸ hmin, hle⟩
  case queued =>
    intro e he htop
    rw [List.mem_cons, not_or] at he
    obtain ⟨l', hl', hedge', hcost'⟩ := h.queued e he.2 htop
    rcases List.mem_cons.1 (hq.mem_iff.1 hl') with rfl | hrest
    · exact absurd hedge'.symm he.1
    · exact ⟨l', hrest, hedge', hcost'⟩
  case traced => exact h.traced
  case relaxed =>
    intro o e ho hent
    by_cases hnext : o = some l.edge
    · subst hnext
      exact .inr ⟨rfl, hpending e hent⟩
    · have hold : ∀ p, o = some p → p ∈ trail := by
        intro p hp
        refine (List.mem_cons.1 (ho p hp)).resolve_left fun heq => hnext ?_
        rw [hp, heq]
      rcases h.relaxed o e hold hent with hle | ⟨-, hmem⟩
      · exact .inl hle
      · exact absurd hmem List.not_mem_nil

/-- A search that goes on keeps the invariant and has less work left. -/
theorem Inv.going (hg : g.WellFormed) (h : Inv g v q s trail [])
    (hstep : s.step g = .going s') :
    ∃ trail', Inv g v q s' trail' [] ∧ work g s' trail' < work g s trail := by
  rcases h.isTrail.step_cases with
    ⟨-, hend⟩ | ⟨l, rest, hpop, ⟨hstale, hdrop⟩ | ⟨hnew, hfresh, edge, hedge, hcases⟩⟩
  · simp [hend] at hstep
  · rw [hdrop, Step.going.injEq] at hstep
    subst hstep
    exact ⟨trail, h.drop hpop hstale, work_drop_lt (MinHeap.toList_pop? hpop)⟩
  · have hperm := MinHeap.toList_pop? hpop
    rcases hcases with ⟨-, hfound⟩ | ⟨dest, hdest, hgoing⟩
    · simp [hfound] at hstep
    · rw [hgoing, Step.going.injEq] at hstep
      subst hstep
      have hl : l ∈ s.queue.toList := hperm.mem_iff.2 List.mem_cons_self
      have hexit : ¬g.IsExit l.edge := by
        rintro ⟨edge', hedge', hnone⟩
        rw [hedge, Option.some.injEq] at hedge'
        rw [← hedge', hdest] at hnone
        cases hnone
      have hpending : ∀ e, g.Follows l.edge e → e ∈ g.outOf dest := by
        rintro e ⟨edge', next, hedge', hnext, hdest', -⟩
        rw [hedge, Option.some.injEq] at hedge'
        rw [← hedge', hdest, Option.some.injEq] at hdest'
        exact (hg.mem_outOf dest e).2 ⟨next, hnext, hdest'.symm⟩
      have hid : edge.id = l.edge := hg.id_eq _ _ hedge
      obtain ⟨x, hx, -⟩ := h.label l hl
      have hlevel : (s.settle l.edge rest).base (l.edge :: trail).head? = x := by
        show s.costOf l.edge = x
        rw [h.costOf_eq hl hfresh, hx, toCost_real]
      have hcentre : edge.line.centre = g.doorCentre l.edge := by
        simp only [Network.doorCentre, hedge]
      refine ⟨l.edge :: trail, ?_,
        (h.isTrail.settle_expand hg hperm hnew hedge hdest).2⟩
      refine Inv.foldl_met (c := fun e => l.cost + g.weightOf edge.line.centre e)
        (fun e => ?_) (fun s hs e he => ?_) (h.settle hpop hnew hfresh hexit hpending) hlevel
      · rw [hx, hcentre]
        exact toCost_real_add x (g.isWeight_weightOf _ e).2
      · have hhead : (l.edge :: trail).head? = some edge.id := by rw [hid, List.head?_cons]
        rw [hhead]
        exact met_expand hg hs (hid ▸ hedge) hdest l.cost he

/-- A way out costs at least `c` if every edge that is not settled does. -/
lemma Inv.le_base_add (h : Inv g v q s trail []) {c : WithTop ℝ}
    (hc : ∀ e, e ∉ trail → c ≤ s.costOf e) {o : Option EdgeId}
    (ho : ∀ p, o = some p → p ∈ trail) {e : EdgeId} {es : List EdgeId} (hent : g.Enters v o e)
    (hchain : (e :: es).IsChain g.Follows)
    (hexit : ∃ e', (e :: es).getLast? = some e' ∧ g.IsExit e') :
    c ≤ s.base o + g.wayToll (entry g q o) (e :: es) := by
  have hle : s.costOf e ≤ via g q s o e :=
    (h.relaxed o e ho hent).resolve_right fun hmem => absurd hmem.2 List.not_mem_nil
  induction es generalizing o e with
  | nil =>
    obtain ⟨e', he', hexit⟩ := hexit
    obtain rfl : e = e' := Option.some.inj he'
    have hout : e ∉ trail := fun hmem => h.noExit e hmem hexit
    refine ((hc e hout).trans hle).trans (le_of_eq ?_)
    rw [via, Network.wayToll, Network.wayToll, add_zero]
  | cons e' es ih =>
    have hsum : s.base o + g.wayToll (entry g q o) (e :: e' :: es) =
        via g q s o e + g.wayToll (g.doorCentre e) (e' :: es) := by
      rw [Network.wayToll, ← add_assoc, via]
    rw [hsum]
    by_cases hmem : e ∈ trail
    · obtain ⟨hfollows, htail⟩ := List.isChain_cons_cons.1 hchain
      have hnext : ∀ p, some e = some p → p ∈ trail := fun p hp => Option.some.inj hp ▸ hmem
      have hbound := ih hnext hfollows htail hexit
        ((h.relaxed _ e' hnext hfollows).resolve_right fun h' => absurd h'.2 List.not_mem_nil)
      exact hbound.trans (add_le_add_left hle _)
    · exact ((hc e hmem).trans hle).trans (le_add_of_nonneg_right (g.wayToll_nonneg _ _))

/-- No route costs less than every edge that is not settled. -/
theorem Inv.le_wayToll (h : Inv g v q s trail []) {c : WithTop ℝ}
    (hc : ∀ e, e ∉ trail → c ≤ s.costOf e) {es : List EdgeId}
    (hes : g.IsRoute v es) : c ≤ g.wayToll q es := by
  cases es with
  | nil => exact absurd rfl hes.ne_nil
  | cons e es =>
    have hnone : ∀ p, (none : Option EdgeId) = some p → p ∈ trail := fun p hp => by cases hp
    have hbound := h.le_base_add hc hnone hes.leaves hes.follows hes.exit
    rwa [base, zero_add] at hbound

/-- The cost of an edge is that of the way that is traced back from it. -/
theorem Inv.costOf_eq_wayToll (h : Inv g v q s trail pending) {e : EdgeId} {es : List EdgeId}
    (hes : Traces s e es) (he : s.costOf e ≠ ⊤) : s.costOf e = g.wayToll q es := by
  induction hes with
  | @first e hp =>
    rw [h.traced e he, hp, via, base, zero_add, entry, Network.wayToll, Network.wayToll,
      add_zero]
  | @next e p es hp hes ih =>
    have htraced := h.traced e he
    rw [hp, via, base, entry] at htraced
    have hfinite : s.costOf p ≠ ⊤ := by
      intro htop
      rw [htop, WithTop.top_add] at htraced
      exact he htraced
    have hlast : es.getLast? = some p := by
      cases hes with
      | first => rfl
      | next => exact List.getLast?_concat
    rw [htraced, ih hfinite, Network.wayToll_concat hlast]

end Search

namespace Network

variable {g : Network Exact} {v : VertexId} {q : Point Exact}

open Search in
/-- A search from a vertex ends without an answer if every route has an infinite toll, and otherwise
with the exit of one with the least toll. -/
theorem run_start_toll (hg : g.WellFormed) (v : VertexId) (q : Point Exact) :
    ((∀ es, g.IsRoute v es → g.wayToll q es = ⊤) ∧
      Search.run g (g.edges.size + g.edges.size * g.edges.size + 1) (Search.start g v q) = none) ∨
    ∃ s e, ∃ x : ℝ, Search.run g (g.edges.size + g.edges.size * g.edges.size + 1)
        (Search.start g v q) = some (s, e, real x) ∧
      g.IsRoute v (s.chain g.edges.size e []) ∧
      g.wayToll q (s.chain g.edges.size e []) = x ∧
      ∀ es, g.IsRoute v es → x ≤ g.wayToll q es := by
  have hwork := work_start_le hg v q
  have hgoing (k : ℕ) (s s' : Search Exact)
      (h : ∃ trail, Inv g v q s trail [] ∧ work g s trail ≤ k) (hstep : s.step g = .going s') :
      ∃ k' < k, ∃ trail, Inv g v q s' trail [] ∧ work g s' trail ≤ k' := by
    obtain ⟨trail, hinv, hk⟩ := h
    obtain ⟨trail', hinv', hless⟩ := hinv.going hg hstep
    exact ⟨_, hless.trans_le hk, trail', hinv', le_rfl⟩
  obtain ⟨k, s, ⟨trail, hinv, -⟩, ⟨hend, hrun⟩ | ⟨s', e, c, hfound, hrun⟩⟩ :=
    run_spec hgoing ⟨[], inv_start hg, hwork⟩ (Nat.lt_succ_self _)
  · refine .inl ⟨fun es hes => ?_, hrun⟩
    have hempty := hinv.isTrail.exhausted hend
    have hc : ∀ e, e ∉ trail → ⊤ ≤ s.costOf e := by
      intro e he
      by_contra htop
      obtain ⟨l, hl, -⟩ := hinv.queued e he fun h => htop h.ge
      rw [hempty] at hl
      exact absurd hl List.not_mem_nil
    exact top_le_iff.1 (hinv.le_wayToll hc hes)
  · obtain ⟨hexit, hnew, hfresh, rest, hpop, rfl⟩ := hinv.isTrail.found hfound
    have hperm := MinHeap.toList_pop? hpop
    have hl := hperm.mem_iff.2 List.mem_cons_self
    obtain ⟨x, rfl, -⟩ := hinv.label _ hl
    have hcost : s.costOf e = x := hinv.costOf_eq hl hfresh
    obtain ⟨htraces, hroute⟩ := (hinv.isTrail.settle hperm hnew).isRoute_chain hexit
    refine .inr ⟨_, e, x, hrun, hroute, ?_, fun es hes => ?_⟩
    · have hprev : (s.settle e rest).previous = s.previous := rfl
      rw [← hcost]
      exact (hinv.costOf_eq_wayToll (htraces.congr hprev) (hcost ▸ WithTop.coe_ne_top)).symm
    · have hc : ∀ e', e' ∉ trail → (x : WithTop ℝ) ≤ s.costOf e' := by
        intro e' he'
        by_cases htop : s.costOf e' = ⊤
        · rw [htop]
          exact le_top
        · obtain ⟨l, hl', -, hcost'⟩ := hinv.queued e' he' htop
          have hmin := hinv.le_of_pop hpop l hl'
          rwa [hcost', toCost_ofCost] at hmin
      exact hinv.le_wayToll hc hes

/-- There is no way out if every route has an infinite toll, and otherwise the cheapest costs the
least toll. -/
theorem cheapestDestination_toll (hg : g.WellFormed) {subroom : SubRoomId}
    (hv : g.vertexOf.find? subroom = some v) (q : Point Exact) :
    ((∀ es, g.IsRoute v es → g.wayToll q es = ⊤) ∧
      g.cheapestDestination subroom q = .error (.noRouteKnown subroom)) ∨
    ∃ d, ∃ x : ℝ, g.cheapestDestination subroom q = .ok d ∧ d.cost = real x ∧
      (∃ es, g.IsRoute v es ∧ g.wayToll q es = x) ∧
      ∀ es, g.IsRoute v es → x ≤ g.wayToll q es := by
  simp only [cheapestDestination, hv]
  rcases run_start_toll hg v q with ⟨hnone, hrun⟩ | ⟨s, e, x, hrun, hroute, htoll, hmin⟩
  · refine .inl ⟨hnone, ?_⟩
    simp only [hrun]
  · refine .inr ⟨g.destinationAlong (s.chain g.edges.size e []) (real x), x, ?_, rfl,
      ⟨_, hroute, htoll⟩, hmin⟩
    simp only [hrun]

/-- A search from a vertex ends without an answer if there is no route, and otherwise with the exit
of a cheapest one. -/
theorem run_start (hg : g.WellFormed) (hfin : g.IsFinite) (hq : q.IsFinite) :
    (¬(∃ es, g.IsRoute v es) ∧ Search.run g (g.edges.size + g.edges.size * g.edges.size + 1)
      (Search.start g v q) = none) ∨
    ∃ s e c, Search.run g (g.edges.size + g.edges.size * g.edges.size + 1)
        (Search.start g v q) = some (s, e, c) ∧
      g.IsRoute v (s.chain g.edges.size e []) ∧
      c = g.wayCost q (s.chain g.edges.size e []) ∧
      ∀ es, g.IsRoute v es → c ≤ g.wayCost q es := by
  rcases run_start_toll hg v q with ⟨hnone, hrun⟩ | ⟨s, e, x, hrun, hroute, htoll, hmin⟩
  · refine .inl ⟨?_, hrun⟩
    rintro ⟨es, hes⟩
    have htop := hnone es hes
    rw [hfin.wayToll hq] at htop
    exact WithTop.coe_ne_top htop
  · refine .inr ⟨s, e, real x, hrun, hroute, ?_, fun es hes => ?_⟩
    · rw [hfin.wayToll hq, WithTop.coe_inj] at htoll
      rw [(hfin.wayCost hq _).1, htoll]
    · have hle := hmin es hes
      rw [hfin.wayToll hq, WithTop.coe_le_coe] at hle
      rw [(hfin.wayCost hq es).1, real_le_real]
      exact hle

/-- The cheapest destination is along a cheapest route, if an exit can be reached at all. -/
theorem cheapestDestination_cheapest (hg : g.Grown) (hfin : g.IsFinite) (hq : q.IsFinite)
    (subroom : SubRoomId) :
    (g.vertexOf.find? subroom = none →
      g.cheapestDestination subroom q = .error (.noVertex subroom)) ∧
    ∀ v, g.vertexOf.find? subroom = some v →
      (g.HasExit v → ∃ d, g.cheapestDestination subroom q = .ok d ∧ g.IsRoute v d.path ∧
        d.path.head? = some d.edge ∧ (∃ edge, g.edge? d.edge = some edge ∧ edge.door = d.door) ∧
        d.cost = g.wayCost q d.path ∧ 0 ≤ d.cost ∧
        ∀ es, g.IsRoute v es → d.cost ≤ g.wayCost q es) ∧
      (¬g.HasExit v → g.cheapestDestination subroom q = .error (.noRouteKnown subroom)) := by
  constructor
  · intro hnone
    simp only [cheapestDestination, hnone]
  · intro v hv
    simp only [cheapestDestination, hv, ← exists_isRoute_iff]
    rcases run_start (v := v) hg.wellFormed hfin hq with
      ⟨hnone, hrun⟩ | ⟨s, e, c, hrun, hroute, hcost, hmin⟩
    · refine ⟨fun h => absurd h hnone, fun _ => ?_⟩
      simp only [hrun]
    · refine ⟨fun _ => ?_, fun h => absurd ⟨_, hroute⟩ h⟩
      obtain ⟨hpath, hc, hhead, edge, hedge, -, hdoor⟩ := destinationAlong_spec hroute c
      refine ⟨g.destinationAlong (s.chain g.edges.size e []) c, by simp only [hrun], ?_⟩
      rw [hpath, hc]
      refine ⟨hroute, hhead, ⟨edge, hedge, hdoor⟩, hcost, ?_, hmin⟩
      obtain ⟨hreal, hnonneg⟩ := hfin.wayCost hq (s.chain g.edges.size e [])
      rw [hcost, hreal, zero_eq]
      exact real_le_real.2 hnonneg

noncomputable def hall : Building Exact where
  caption := ""
  rooms := .empty
  subrooms := .empty
  doors := OrderedMap.empty.insert 3
    ⟨3, .transition, ⟨⟨real 0, real 0⟩, ⟨real 1, real 0⟩⟩, 0, none, true⟩

noncomputable def hallNetwork : Network Exact :=
  ((empty.addVertex 0).1.pushEdge 0 none 3 ⟨⟨real 0, real 0⟩, ⟨real 1, real 0⟩⟩ 0).1

lemma addEdge_hall : empty.addEdge hall 0 3 = .ok (hallNetwork, 0) := rfl

lemma edge?_hallNetwork {e : EdgeId} {edge : Edge Exact} (h : hallNetwork.edge? e = some edge) :
    e = 0 ∧ edge = ⟨0, 0, none, 3, ⟨⟨real 0, real 0⟩, ⟨real 1, real 0⟩⟩, 0, .empty⟩ := by
  cases e with
  | zero => exact ⟨rfl, (Option.some.inj h).symm⟩
  | succ e => cases h

/-- An opening of length two across the x-axis. -/
noncomputable def opening (x : ℤ) : Segment Exact := ⟨⟨real x, real (-1)⟩, ⟨real x, real 1⟩⟩

lemma centre_opening (x : ℤ) : (opening x).centre = ⟨real x, real 0⟩ := by
  have hhalf : (-1 : ℝ) + (1 - -1) * 0.5 = 0 := by norm_num
  rw [opening, Segment.centre, ofScientific_eq, Segment.pointAt_real, sub_self, zero_mul, add_zero,
    hhalf]

/-- An edge without factors that leads through an opening. -/
structure Crosses (edge : Edge Exact) (source : VertexId) (dest : Option VertexId) (x : ℤ) :
    Prop where
  source_eq : edge.source = source
  dest_eq : edge.dest = dest
  line_eq : edge.line = opening x
  factors_eq : edge.factors = .empty

section
variable {edge : Edge Exact} {source : VertexId} {dest : Option VertexId} {x : ℤ}

lemma Crosses.isFinite (h : Crosses edge source dest x) : edge.IsFinite := by
  constructor
  case start => simp [h.line_eq, opening, Point.IsFinite]
  case stop => simp [h.line_eq, opening, Point.IsFinite]
  case factors =>
    intro f hf
    rw [h.factors_eq] at hf
    exact absurd hf List.not_mem_nil

/-- Without factors it costs as much to take an edge as its opening is away. -/
lemma wayCost_cons_of_crosses {g : Network Exact} {e : EdgeId}
    (h : ∃ edge, g.edge? e = some edge ∧ Crosses edge source dest x) (y : ℝ) (es : List EdgeId) :
    g.wayCost ⟨real y, real 0⟩ (e :: es) =
      real |y - x| + g.wayCost ⟨real x, real 0⟩ es := by
  obtain ⟨edge, hedge, h⟩ := h
  have hone : (FactorBag.multiplier .empty : Exact) = real 1 := by
    have hsum : (Scalar.sum [] : Exact) = real 0 := sum_map_real []
    show Scalar.larger (1 + Scalar.sum []) 0 = real 1
    rw [hsum, one_eq, real_add_real, zero_eq, larger_real]
    norm_num
  have hweight : edge.weight ⟨real y, real 0⟩ = real |y - x| := by
    rw [Edge.weight, h.line_eq, centre_opening, h.factors_eq, hone, Point.dist_eq_real,
      Complex.dist_mk, real_mul_real, mul_one, sub_zero, zero_pow two_ne_zero, add_zero,
      Real.sqrt_sq_eq_abs]
  simp only [wayCost, weightOf, doorCentre, hedge, hweight, h.line_eq, centre_opening]

end

/-- The doors of a lobby and of two chambers. The nearest door of the lobby leads to a long way
round, another one to a short way, and one leads straight out. -/
noncomputable def lobbyDoors : List (Door Exact) :=
  [⟨3, .transition, opening 6, 0, none, true⟩, ⟨4, .crossing, opening (-1), 0, some 1, true⟩,
    ⟨5, .transition, opening (-11), 1, none, true⟩, ⟨6, .crossing, opening 2, 0, some 2, true⟩,
    ⟨7, .transition, opening 4, 2, none, true⟩]

noncomputable def lobby : Building Exact where
  caption := ""
  rooms := .empty
  subrooms := .empty
  doors := .ofList (lobbyDoors.map fun d => (d.uid, d))

/-- The network of the ways through the doors from their first sides. -/
noncomputable def lobbyNetwork : Network Exact :=
  lobbyDoors.foldl
    (fun g d => ((g.addEdge lobby d.sideA d.uid).toOption.map Prod.fst).getD g) empty

lemma grown_lobbyNetwork : lobbyNetwork.Grown := by
  unfold lobbyNetwork
  refine List.foldlRecOn lobbyDoors _ .empty fun g hg d _ => ?_
  cases hd : g.addEdge lobby d.sideA d.uid with
  | ok result => exact .addEdge lobby d.sideA d.uid result.2 hg hd
  | error e => exact hg

lemma edge?_lobbyNetwork {e : EdgeId} {edge : Edge Exact} (h : lobbyNetwork.edge? e = some edge) :
    e = 0 ∧ Crosses edge 0 none 6 ∨ e = 1 ∧ Crosses edge 0 (some 1) (-1) ∨
      e = 2 ∧ Crosses edge 1 none (-11) ∨ e = 3 ∧ Crosses edge 0 (some 2) 2 ∨
      e = 4 ∧ Crosses edge 2 none 4 := by
  match e with
  | 0 => exact .inl ⟨rfl, Option.some.inj h ▸ ⟨rfl, rfl, rfl, rfl⟩⟩
  | 1 => exact .inr (.inl ⟨rfl, Option.some.inj h ▸ ⟨rfl, rfl, rfl, rfl⟩⟩)
  | 2 => exact .inr (.inr (.inl ⟨rfl, Option.some.inj h ▸ ⟨rfl, rfl, rfl, rfl⟩⟩))
  | 3 => exact .inr (.inr (.inr (.inl ⟨rfl, Option.some.inj h ▸ ⟨rfl, rfl, rfl, rfl⟩⟩)))
  | 4 => exact .inr (.inr (.inr (.inr ⟨rfl, Option.some.inj h ▸ ⟨rfl, rfl, rfl, rfl⟩⟩)))
  | e + 5 => cases h

lemma isFinite_lobbyNetwork : lobbyNetwork.IsFinite := by
  intro e edge h
  rcases edge?_lobbyNetwork h with ⟨-, h⟩ | ⟨-, h⟩ | ⟨-, h⟩ | ⟨-, h⟩ | ⟨-, h⟩
  all_goals exact h.isFinite

/-- From the lobby one comes to the exit or to a chamber, and from a chamber to its exit. -/
lemma IsRoute.cases_lobbyNetwork {v : VertexId} {e : EdgeId} {es : List EdgeId}
    (h : lobbyNetwork.IsRoute v (e :: es)) :
    v = 0 ∧ (e = 0 ∧ es = [] ∨ e = 1 ∧ lobbyNetwork.IsRoute 1 es ∨
      e = 3 ∧ lobbyNetwork.IsRoute 2 es) ∨ v = 1 ∧ e = 2 ∧ es = [] ∨ v = 2 ∧ e = 4 ∧ es = [] := by
  obtain ⟨edge, hedge, rfl⟩ := h.leaves
  rcases edge?_lobbyNetwork hedge with ⟨rfl, hc⟩ | ⟨rfl, hc⟩ | ⟨rfl, hc⟩ | ⟨rfl, hc⟩ | ⟨rfl, hc⟩
  · simp [hc.source_eq, h.eq_nil_of_isExit ⟨edge, hedge, hc.dest_eq⟩]
  · simp [hc.source_eq, h.isRoute_dest hedge hc.dest_eq]
  · simp [hc.source_eq, h.eq_nil_of_isExit ⟨edge, hedge, hc.dest_eq⟩]
  · simp [hc.source_eq, h.isRoute_dest hedge hc.dest_eq]
  · simp [hc.source_eq, h.eq_nil_of_isExit ⟨edge, hedge, hc.dest_eq⟩]

lemma isRoute_lobbyNetwork {es : List EdgeId} (h : lobbyNetwork.IsRoute 0 es) :
    es = [0] ∨ es = [1, 2] ∨ es = [3, 4] := by
  have chamber {v : VertexId} {es : List EdgeId} (hv : v ≠ 0) (h : lobbyNetwork.IsRoute v es) :
      v = 1 ∧ es = [2] ∨ v = 2 ∧ es = [4] := by
    cases es with
    | nil => exact absurd rfl h.ne_nil
    | cons e es => simpa [hv] using h.cases_lobbyNetwork
  cases es with
  | nil => exact absurd rfl h.ne_nil
  | cons e es =>
    rcases h.cases_lobbyNetwork with ⟨-, ⟨rfl, rfl⟩ | ⟨rfl, hes⟩ | ⟨rfl, hes⟩⟩ | ⟨hv, -⟩ | ⟨hv, -⟩
    · simp
    · simpa using chamber one_ne_zero hes
    · simpa using chamber two_ne_zero hes
    · cases hv
    · cases hv

lemma wayCost_lobbyNetwork : lobbyNetwork.wayCost ⟨real 0, real 0⟩ [0] = real 6 ∧
    lobbyNetwork.wayCost ⟨real 0, real 0⟩ [1, 2] = real 11 ∧
    lobbyNetwork.wayCost ⟨real 0, real 0⟩ [3, 4] = real 4 := by
  have hnil (q : Point Exact) : lobbyNetwork.wayCost q [] = real 0 := zero_eq
  refine ⟨?_, ?_, ?_⟩
  · have hout : ∃ edge, lobbyNetwork.edge? 0 = some edge ∧ Crosses edge 0 none 6 :=
      ⟨_, rfl, rfl, rfl, rfl, rfl⟩
    rw [wayCost_cons_of_crosses hout, hnil, real_add_real]
    norm_num
  · have hround : ∃ edge, lobbyNetwork.edge? 1 = some edge ∧ Crosses edge 0 (some 1) (-1) :=
      ⟨_, rfl, rfl, rfl, rfl, rfl⟩
    have hout : ∃ edge, lobbyNetwork.edge? 2 = some edge ∧ Crosses edge 1 none (-11) :=
      ⟨_, rfl, rfl, rfl, rfl, rfl⟩
    rw [wayCost_cons_of_crosses hround, wayCost_cons_of_crosses hout, hnil]
    norm_num
  · have hpast : ∃ edge, lobbyNetwork.edge? 3 = some edge ∧ Crosses edge 0 (some 2) 2 :=
      ⟨_, rfl, rfl, rfl, rfl, rfl⟩
    have hout : ∃ edge, lobbyNetwork.edge? 4 = some edge ∧ Crosses edge 2 none 4 :=
      ⟨_, rfl, rfl, rfl, rfl, rfl⟩
    rw [wayCost_cons_of_crosses hpast, wayCost_cons_of_crosses hout, hnil]
    norm_num

/-- The way out of the lobby is neither through the nearest door nor through the one that leads
straight out, but the short way round. -/
theorem cheapestDestination_lobby : lobbyNetwork.Grown ∧ lobbyNetwork.IsFinite ∧
    Point.IsFinite ⟨real 0, real 0⟩ ∧ lobbyNetwork.vertexOf.find? 0 = some 0 ∧
    lobbyNetwork.IsRoute 0 [0] ∧ lobbyNetwork.IsRoute 0 [1, 2] ∧ lobbyNetwork.IsRoute 0 [3, 4] ∧
    ∃ d, lobbyNetwork.cheapestDestination 0 ⟨real 0, real 0⟩ = .ok d ∧ d.path = [3, 4] ∧
      d.edge = 3 ∧ d.door = 6 ∧ d.cost = real 4 := by
  have hq : Point.IsFinite ⟨real 0, real 0⟩ := ⟨rfl, rfl⟩
  have hv : lobbyNetwork.vertexOf.find? 0 = some 0 := rfl
  have hout : lobbyNetwork.IsRoute 0 [0] := isRoute_singleton ⟨_, rfl, rfl⟩ ⟨_, rfl, rfl⟩
  have hround : lobbyNetwork.IsRoute 0 [1, 2] :=
    (isRoute_singleton ⟨_, rfl, rfl⟩ ⟨_, rfl, rfl⟩).cons ⟨_, rfl, rfl⟩
      ⟨_, _, rfl, rfl, rfl, nofun⟩
  have hpast : lobbyNetwork.IsRoute 0 [3, 4] :=
    (isRoute_singleton ⟨_, rfl, rfl⟩ ⟨_, rfl, rfl⟩).cons ⟨_, rfl, rfl⟩
      ⟨_, _, rfl, rfl, rfl, nofun⟩
  obtain ⟨d, hd, hroute, hhead, ⟨edge, hedge, hdoor⟩, hcost, -, hmin⟩ :=
    ((cheapestDestination_cheapest grown_lobbyNetwork isFinite_lobbyNetwork hq 0).2 0 hv).1
      hpast.hasExit
  obtain ⟨hsix, heleven, hfour⟩ := wayCost_lobbyNetwork
  have hle := hmin [3, 4] hpast
  rw [hcost, hfour] at hle
  have hpath : d.path = [3, 4] := by
    rcases isRoute_lobbyNetwork hroute with h | h | h
    · rw [h, hsix, real_le_real] at hle
      norm_num at hle
    · rw [h, heleven, real_le_real] at hle
      norm_num at hle
    · exact h
  rw [hpath] at hhead hcost
  have hthree : d.edge = 3 := (Option.some.inj hhead).symm
  have hsixth : edge.door = 6 := by
    have hthrough : (lobbyNetwork.edge? 3).map (·.door) = some 6 := rfl
    rw [hthree] at hedge
    simpa [hedge] using hthrough
  exact ⟨grown_lobbyNetwork, isFinite_lobbyNetwork, hq, hv, hout, hround, hpast, d, hd, hpath,
    hthree, hdoor ▸ hsixth, hcost.trans hfour⟩

end Network

end Egress
