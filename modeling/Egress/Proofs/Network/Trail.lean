import Egress.Network.Search
import Egress.Proofs.MinHeap
import Egress.Proofs.Network.Route

/-!
# The trail of a search

The edges that a search has settled, latest first. Each of them either leaves the vertex that the
search starts from or follows an edge that was settled earlier, and what comes before it does not
change any more. So the way to a settled edge can be traced back and is as long as the trail at
most. Nothing here depends on what edges cost.
-/
namespace Egress

lemma getD_setIfInBounds {β : Type} (xs : Array β) {i : Nat} (hi : i < xs.size) (j : Nat)
    (x d : β) : (xs.setIfInBounds i x).getD j d = if j = i then x else xs.getD j d := by
  rw [Array.getD_eq_getD_getElem?, Array.getElem?_setIfInBounds]
  by_cases hj : j = i
  · rw [if_pos hj.symm, if_pos hi, if_pos hj, Option.getD_some]
  · rw [if_neg (Ne.symm hj), if_neg hj, Array.getD_eq_getD_getElem?]

/-- Where an edge can be taken from: the first edge at the vertex `v`, and any later one after the
edge before it. -/
def Network.Enters {α : Type} (g : Network α) (v : VertexId) : Option EdgeId → EdgeId → Prop
  | none, e => g.Leaves v e
  | some p, e => g.Follows p e

lemma Network.Enters.lt {α : Type} {g : Network α} {v : VertexId} {o : Option EdgeId} {e : EdgeId}
    (h : g.Enters v o e) : e < g.edges.size := by
  cases o with
  | none =>
    obtain ⟨edge, hedge, -⟩ := h
    exact lt_of_edge? hedge
  | some p =>
    obtain ⟨edge, next, -, hnext, -⟩ := h
    exact lt_of_edge? hnext

/-- The edges out of where an edge leads follow it, except those that lead straight back. -/
lemma Network.WellFormed.follows_iff {α : Type} {g : Network α} (hg : g.WellFormed)
    {e e' : EdgeId} {edge next : Edge α} {dest : VertexId} (hedge : g.edge? e = some edge)
    (hdest : edge.dest = some dest) (he' : e' ∈ g.outOf dest) (hnext : g.edge? e' = some next) :
    g.Follows e e' ↔ next.dest ≠ some edge.source := by
  obtain ⟨next', hnext', hsource⟩ := (hg.mem_outOf dest e').1 he'
  rw [hnext, Option.some.injEq] at hnext'
  subst hnext'
  constructor
  · rintro ⟨edge', next', hedge', hnext', -, hback⟩
    rw [hedge, Option.some.injEq] at hedge'
    rw [hnext, Option.some.injEq] at hnext'
    rwa [hedge', hnext']
  · intro hback
    exact ⟨edge, next, hedge, hnext, hsource ▸ hdest, hback⟩

namespace Search

variable {α : Type} {g : Network α} {v : VertexId} {s : Search α} {trail : List EdgeId}

/-- The edge before `e`, if there is one, is among the listed ones and `e` can be taken after
it. -/
def Linked (g : Network α) (v : VertexId) (s : Search α) (earlier : List EdgeId) (e : EdgeId) :
    Prop :=
  g.Enters v (s.previous.getD e none) e ∧ ∀ p, s.previous.getD e none = some p → p ∈ earlier

/-- The listed edges are those that the search has settled, latest first. -/
structure Trail (g : Network α) (v : VertexId) (s : Search α) (trail : List EdgeId) : Prop where
  cost_size : s.cost.size = g.edges.size
  previous_size : s.previous.size = g.edges.size
  settled_size : s.settled.size = g.edges.size
  settled_iff : ∀ e, e < g.edges.size → (s.settled.getD e true = true ↔ e ∈ trail)
  nodup : trail.Nodup
  linked : ∀ e earlier, e :: earlier <:+ trail → Linked g v s earlier e
  labelled : ∀ l ∈ s.queue.toList, l.edge ∉ trail → Linked g v s trail l.edge

lemma Linked.mono {earlier later : List EdgeId} {e : EdgeId} (h : Linked g v s earlier e)
    (hsub : earlier ⊆ later) : Linked g v s later e :=
  ⟨h.1, fun p hp => hsub (h.2 p hp)⟩

/-- Only what comes before the edge itself matters. -/
lemma Linked.congr {s' : Search α} {earlier : List EdgeId} {e : EdgeId}
    (h : Linked g v s earlier e) (hprev : s'.previous.getD e none = s.previous.getD e none) :
    Linked g v s' earlier e := by
  unfold Linked
  rwa [hprev]

lemma Trail.exists_suffix {e : EdgeId} (he : e ∈ trail) : ∃ earlier, e :: earlier <:+ trail := by
  obtain ⟨later, earlier, rfl⟩ := List.append_of_mem he
  exact ⟨earlier, List.suffix_append later (e :: earlier)⟩

lemma Trail.linked_of_mem (h : Trail g v s trail) {e : EdgeId} (he : e ∈ trail) :
    Linked g v s trail e := by
  obtain ⟨earlier, hsuffix⟩ := exists_suffix he
  exact (h.linked e earlier hsuffix).mono fun p hp => hsuffix.subset (List.mem_cons_of_mem e hp)

lemma Trail.lt_of_mem (h : Trail g v s trail) {e : EdgeId} (he : e ∈ trail) :
    e < g.edges.size :=
  (h.linked_of_mem he).1.lt

lemma Trail.lt_of_mem_queue (h : Trail g v s trail) {l : Label α} (hl : l ∈ s.queue.toList) :
    l.edge < g.edges.size := by
  by_cases he : l.edge ∈ trail
  · exact h.lt_of_mem he
  · exact (h.labelled l hl he).1.lt

theorem Trail.length_le (h : Trail g v s trail) : trail.length ≤ g.edges.size := by
  have hsub : trail ⊆ List.range g.edges.size := fun e he => List.mem_range.2 (h.lt_of_mem he)
  have hle := (List.subperm_of_subset h.nodup hsub).length_le
  rwa [List.length_range] at hle

/-- The search with an edge settled and other labels left. -/
def settle (s : Search α) (e : EdgeId) (rest : MinHeap (Label α)) : Search α :=
  { s with settled := s.settled.setIfInBounds e true, queue := rest }

theorem Trail.drop (h : Trail g v s trail) {l : Label α} {rest : MinHeap (Label α)}
    (hq : s.queue.toList.Perm (l :: rest.toList)) :
    Trail g v { s with queue := rest } trail :=
  { h with labelled := fun l' hl' => h.labelled l' (hq.mem_iff.2 (List.mem_cons_of_mem l hl')) }

theorem Trail.settle (h : Trail g v s trail) {l : Label α} {rest : MinHeap (Label α)}
    (hq : s.queue.toList.Perm (l :: rest.toList)) (hnew : l.edge ∉ trail) :
    Trail g v (s.settle l.edge rest) (l.edge :: trail) := by
  have hl : l ∈ s.queue.toList := hq.mem_iff.2 List.mem_cons_self
  constructor
  case cost_size => exact h.cost_size
  case previous_size => exact h.previous_size
  case settled_size => simpa [Search.settle] using h.settled_size
  case settled_iff =>
    intro e he
    rw [Search.settle, getD_setIfInBounds _ (h.settled_size ▸ h.lt_of_mem_queue hl),
      List.mem_cons, ← h.settled_iff e he]
    by_cases heq : e = l.edge <;> simp [heq]
  case nodup => exact List.nodup_cons.2 ⟨hnew, h.nodup⟩
  case linked =>
    intro e earlier hsuffix
    rcases List.suffix_cons_iff.1 hsuffix with heq | hsuffix
    · obtain ⟨rfl, rfl⟩ := List.cons_eq_cons.1 heq
      exact h.labelled l hl hnew
    · exact h.linked e earlier hsuffix
  case labelled =>
    intro l' hl' hnew'
    have hout : l'.edge ∉ trail := fun hmem => hnew' (List.mem_cons_of_mem _ hmem)
    exact (h.labelled l' (hq.mem_iff.2 (List.mem_cons_of_mem l hl')) hout).mono
      (List.subset_cons_self _ _)

section
variable [Scalar α]

/-- The search with a label added and its cost written to the edge. -/
def label (s : Search α) (o : Option EdgeId) (e : EdgeId) (c : α) : Search α :=
  { s with
    cost := s.cost.setIfInBounds e c
    previous := s.previous.setIfInBounds e o
    queue := s.queue.push Label.before ⟨c, e⟩ }

variable {o : Option EdgeId} {e : EdgeId} {c : α}

lemma offer_of_lt (h : c < s.cost.getD e Scalar.infinity) : s.offer o e c = s.label o e c :=
  if_pos h

lemma offer_of_not_lt (h : ¬c < s.cost.getD e Scalar.infinity) : s.offer o e c = s := if_neg h

lemma getD_cost_label (he : e < s.cost.size) (e' : EdgeId) (d : α) :
    (s.label o e c).cost.getD e' d = if e' = e then c else s.cost.getD e' d :=
  getD_setIfInBounds _ he _ _ _

lemma getD_previous_label (he : e < s.previous.size) (e' : EdgeId) :
    (s.label o e c).previous.getD e' none = if e' = e then o else s.previous.getD e' none :=
  getD_setIfInBounds _ he _ _ _

lemma toList_queue_label (s : Search α) (o : Option EdgeId) (e : EdgeId) (c : α) :
    (s.label o e c).queue.toList.Perm (⟨c, e⟩ :: s.queue.toList) :=
  MinHeap.toList_push Label.before s.queue _

lemma mem_queue_label {l : Label α} :
    l ∈ (s.label o e c).queue.toList ↔ l = ⟨c, e⟩ ∨ l ∈ s.queue.toList :=
  (toList_queue_label s o e c).mem_iff.trans List.mem_cons

lemma length_offer_le (s : Search α) (o : Option EdgeId) (e : EdgeId) (c : α) :
    (s.offer o e c).queue.toList.length ≤ s.queue.toList.length + 1 := by
  by_cases hlt : c < s.cost.getD e Scalar.infinity
  · rw [offer_of_lt hlt, (toList_queue_label s o e c).length_eq, List.length_cons]
  · rw [offer_of_not_lt hlt]
    omega

/-- Labels are only given to edges that are not settled. -/
theorem Trail.offer (h : Trail g v s trail) (hent : g.Enters v o e)
    (ho : ∀ p, o = some p → p ∈ trail) (he : e ∉ trail) (c : α) :
    Trail g v (s.offer o e c) trail := by
  by_cases hlt : c < s.cost.getD e Scalar.infinity
  · have hprevious (e' : EdgeId) : (s.label o e c).previous.getD e' none =
        if e' = e then o else s.previous.getD e' none :=
      getD_previous_label (h.previous_size ▸ hent.lt) e'
    rw [offer_of_lt hlt]
    constructor
    case cost_size => simpa [label] using h.cost_size
    case previous_size => simpa [label] using h.previous_size
    case settled_size => exact h.settled_size
    case settled_iff => exact h.settled_iff
    case nodup => exact h.nodup
    case linked =>
      intro e' earlier hsuffix
      have he' : e' ∈ trail := hsuffix.subset List.mem_cons_self
      have hne : e' ≠ e := fun heq => he (heq ▸ he')
      apply (h.linked e' earlier hsuffix).congr
      rw [hprevious, if_neg hne]
    case labelled =>
      intro l hl hnew
      by_cases hle : l.edge = e
      · rw [hle, Linked, hprevious, if_pos rfl]
        exact ⟨hent, ho⟩
      · have hl' : l ∈ s.queue.toList := by
          refine (mem_queue_label.1 hl).resolve_left ?_
          rintro rfl
          exact hle rfl
        apply (h.labelled l hl' hnew).congr
        rw [hprevious, if_neg hle]
  · rwa [offer_of_not_lt hlt]

/-- What meeting the edge `e` after `o` makes of a search: nothing if the edge is settled or cannot
be taken there, and otherwise an offer of the cost `c e`. -/
def Met (g : Network α) (v : VertexId) (trail : List EdgeId) (o : Option EdgeId) (c : EdgeId → α)
    (s : Search α) (e : EdgeId) (s' : Search α) : Prop :=
  s' = s ∧ (e ∈ trail ∨ ¬g.Enters v o e) ∨
    s' = s.offer o e (c e) ∧ e ∉ trail ∧ g.Enters v o e

theorem Trail.met (h : Trail g v s trail) {o : Option EdgeId} {c : EdgeId → α} {e : EdgeId}
    {s' : Search α} (ho : ∀ p, o = some p → p ∈ trail) (hs' : Met g v trail o c s e s') :
    Trail g v s' trail ∧ s'.queue.toList.length ≤ s.queue.toList.length + 1 := by
  rcases hs' with ⟨rfl, -⟩ | ⟨rfl, he, hent⟩
  · exact ⟨h, by omega⟩
  · exact ⟨h.offer hent ho he (c e), length_offer_le s o e (c e)⟩

/-- Meeting edges one after the other extends the queue by no more than their number. -/
theorem Trail.foldl_met {f : Search α → EdgeId → Search α} {o : Option EdgeId} {c : EdgeId → α}
    (ho : ∀ p, o = some p → p ∈ trail) {es : List EdgeId}
    (hf : ∀ s, Trail g v s trail → ∀ e ∈ es, Met g v trail o c s e (f s e))
    (h : Trail g v s trail) : Trail g v (es.foldl f s) trail ∧
      (es.foldl f s).queue.toList.length ≤ s.queue.toList.length + es.length := by
  induction es generalizing s with
  | nil => exact ⟨h, by simp⟩
  | cons e es ih =>
    obtain ⟨hhead, hlen⟩ := h.met ho (hf s h e List.mem_cons_self)
    obtain ⟨htail, hlen'⟩ := ih (fun s hs e' he' => hf s hs e' (List.mem_cons_of_mem e he')) hhead
    rw [List.foldl_cons, List.length_cons]
    exact ⟨htail, by omega⟩

/-- The search before any edge is labelled. -/
def blank (n : Nat) : Search α :=
  ⟨.replicate n Scalar.infinity, .replicate n none, .replicate n false, .nil⟩

theorem trail_blank : Trail g v (blank g.edges.size) [] := by
  constructor
  case cost_size => simp [blank]
  case previous_size => simp [blank]
  case settled_size => simp [blank]
  case settled_iff =>
    intro e he
    simp [blank, Array.getD_eq_getD_getElem?, he]
  case nodup => exact List.nodup_nil
  case linked =>
    intro e earlier hsuffix
    simp at hsuffix
  case labelled =>
    intro l hl
    simp [blank, MinHeap.toList] at hl

lemma met_start (hg : g.WellFormed) (p : Point α) {e : EdgeId} (he : e ∈ g.outOf v) :
    Met g v [] none (g.weightOf p) s e (match g.edge? e with
      | some edge => s.offer none e (edge.weight p)
      | none => s) := by
  obtain ⟨edge, hedge, hv⟩ := (hg.mem_outOf v e).1 he
  refine .inr ⟨?_, List.not_mem_nil, edge, hedge, hv⟩
  simp only [Network.weightOf, hedge]

lemma met_expand (hg : g.WellFormed) (h : Trail g v s trail) {e : EdgeId} {edge : Edge α}
    {dest : VertexId} (hedge : g.edge? edge.id = some edge) (hdest : edge.dest = some dest)
    (cost : α) (he : e ∈ g.outOf dest) :
    Met g v trail (some edge.id) (fun e => cost + g.weightOf edge.line.centre e) s e
      (match g.edge? e with
      | some next =>
        if s.settled.getD e true || next.dest == some edge.source then s
        else s.offer (some edge.id) e (cost + next.weight edge.line.centre)
      | none => s) := by
  obtain ⟨next, hnext, hsource⟩ := (hg.mem_outOf dest e).1 he
  have hsettled := h.settled_iff e (Network.lt_of_edge? hnext)
  have hfollows := hg.follows_iff hedge hdest he hnext
  simp only [hnext]
  split
  · rename_i hskip
    refine .inl ⟨rfl, ?_⟩
    rw [Bool.or_eq_true, hsettled, beq_iff_eq] at hskip
    exact hskip.imp id fun hback hent => hfollows.1 hent hback
  · rename_i hgo
    rw [Bool.or_eq_true, hsettled, beq_iff_eq, not_or] at hgo
    refine .inr ⟨?_, hgo.1, hfollows.2 hgo.2⟩
    simp only [Network.weightOf, hnext]

theorem trail_start (hg : g.WellFormed) (v : VertexId) (p : Point α) :
    Trail g v (start g v p) [] ∧ (start g v p).queue.toList.length ≤ g.edges.size := by
  have hfold := (trail_blank (v := v)).foldl_met (o := none) (c := g.weightOf p) (by simp)
    fun s _ e he => met_start (s := s) hg p he
  refine ⟨hfold.1, hfold.2.trans ?_⟩
  have hempty : (blank g.edges.size : Search α).queue.toList.length = 0 := rfl
  have hout := hg.length_outOf_le v
  omega

theorem Trail.expand (hg : g.WellFormed) (h : Trail g v s trail) {edge : Edge α}
    {dest : VertexId} (hedge : g.edge? edge.id = some edge) (hmem : edge.id ∈ trail)
    (hdest : edge.dest = some dest) (cost : α) :
    Trail g v (expand g s edge dest cost) trail ∧
      (expand g s edge dest cost).queue.toList.length ≤
        s.queue.toList.length + g.edges.size := by
  have ho : ∀ p, some edge.id = some p → p ∈ trail := by
    intro p hp
    rwa [← Option.some.inj hp]
  have hfold := h.foldl_met ho fun s hs e he => met_expand hg hs hedge hdest cost he
  have hout := hg.length_outOf_le dest
  exact ⟨hfold.1, hfold.2.trans (by omega)⟩

end

end Search

end Egress
