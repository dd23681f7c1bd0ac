import Egress.Proofs.Field.Front

/-!
# Fronts run to their end

A turn of a front acts on any one of its cheapest offers. Every turn keeps the invariant and uses
up work: an offer, or one cell to be taken in and the four offers that come of it. A front without
offers is at its end, and its costs are the arrival field. So all ways of taking turns end at the
same field, which is the one that `solve` gives.
-/
namespace Egress
open Exact

namespace Front

variable {g : ZoneGrid Exact} {speed : Lattice Exact} {seeds : List Cell} {level : WithTop ℝ}
  {f f' : Front Exact} {t : Trial Exact} {rest : MinHeap (Trial Exact)}

/-- Offers are ranked by cost and then by the number of the cell. -/
theorem ranks_before : MinHeap.Ranks (@Trial.before Exact _) :=
  MinHeap.ranks_byCost Trial.cost Trial.key

lemma not_lt_of_not_before {t t' : Trial Exact} (h : Trial.before t' t = false) :
    ¬t'.cost < t.cost := by
  have hby : MinHeap.byCost Trial.cost Trial.key t' t = false := h
  exact MinHeap.not_lt_of_byCost hby

/-- A turn acts on an offer that no other one undercuts, however the others are arranged and
whichever of several such offers it is. -/
def Turn (g : ZoneGrid Exact) (speed : Lattice Exact) (f f' : Front Exact) : Prop :=
  ∃ t rest, f.queue.toList.Perm (t :: rest.toList) ∧ (∀ t' ∈ rest.toList, ¬t'.cost < t.cost) ∧
    f' = f.accept g speed t rest

/-- An offer is dropped if it is for a known cell or has been bettered. -/
lemma Inv.accept_eq (hf : Inv g speed seeds level [] f)
    (hq : f.queue.toList.Perm (t :: rest.toList)) :
    f.accept g speed t rest =
      if f.Known t.cell ∨ f.costOf t.cell < toCost t.cost then { f with queue := rest }
      else Front.expand g speed (f.mark t.cell rest) t.cell := by
  obtain ⟨hent, hcost, -⟩ := hf.queue t (hq.mem_iff.2 List.mem_cons_self)
  have hlt : f.cost.getD t.cell Scalar.infinity < t.cost ↔ f.costOf t.cell < toCost t.cost := by
    rw [← ofCost_lt_ofCost, ofCost_costOf (hf.isCost t.cell), hcost]
  unfold Front.accept
  congr 1
  simp only [Bool.or_eq_true, decide_eq_true_eq, hf.getD_known_iff hent.1, hlt]

theorem Inv.accept (hf : Inv g speed seeds level [] f) (hm : g.Measured speed)
    (hq : f.queue.toList.Perm (t :: rest.toList))
    (hmin : ∀ t' ∈ rest.toList, ¬t'.cost < t.cost) :
    ∃ level', Inv g speed seeds level' [] (f.accept g speed t rest) := by
  rw [hf.accept_eq hq]
  split
  · rename_i hstale
    exact ⟨level, hf.dropStale hq hstale⟩
  · rename_i hfresh
    obtain ⟨hk, hlt⟩ := not_or.1 hfresh
    have hle := (hf.queue t (hq.mem_iff.2 List.mem_cons_self)).2.2
    have hin := hf.takeIn hm hq hmin hk (le_antisymm hle (not_lt.1 hlt))
    rw [← List.append_nil (g.grid.neighbours t.cell)] at hin
    exact ⟨_, hin.offers hm⟩

theorem Inv.turn (hf : ∃ level, Inv g speed seeds level [] f) (hm : g.Measured speed)
    (h : Turn g speed f f') : ∃ level, Inv g speed seeds level [] f' := by
  obtain ⟨t, rest, hq, hmin, rfl⟩ := h
  obtain ⟨level, hf⟩ := hf
  exact hf.accept hm hq hmin

def unknown (g : ZoneGrid Exact) (f : Front Exact) : Finset Cell :=
  {c ∈ Finset.range g.grid.width ×ˢ Finset.range g.grid.height | ¬f.Known c}

/-- A bound on the turns that are left. -/
def work (g : ZoneGrid Exact) (f : Front Exact) : Nat :=
  f.queue.toList.length + 4 * (unknown g f).card

lemma mem_unknown {c : Cell} :
    c ∈ unknown g f ↔ g.grid.contains c = true ∧ ¬f.Known c := by
  simp [unknown, RectGrid.contains_iff]

/-- An offer does nothing, or it writes a better cost to a cell that has not been taken in and adds
one entry to the queue. -/
lemma offer_cases (g : ZoneGrid Exact) (speed : Lattice Exact) (f : Front Exact) (c : Cell) :
    f.offer g speed c = f ∨ ∃ e, e < f.cost.getD c Scalar.infinity ∧ ¬f.Known c ∧
      f.progress.Has c ∧ f.offer g speed c = f.write c e (g.grid.key c) := by
  unfold Front.offer
  split
  · exact .inl rfl
  · rename_i hskip
    have hread : f.progress.getD c .known ≠ .known := fun h => hskip (by simp [h])
    have hhas : f.progress.Has c := by
      by_contra hout
      exact hread (Lattice.getD_of_not_has _ hout _)
    have hk : ¬f.Known c := by
      rwa [Known, f.progress.getD_congr_default hhas .far .known]
    simp only
    split
    · split
      · exact .inr ⟨_, ‹_›, hk, hhas, rfl⟩
      · exact .inl rfl
    · exact .inl rfl

section
variable {P : Front Exact → Prop} (hP : ∀ f c, P f → P (f.offer g speed c))
include hP

/-- What offers keep, a cell that offers costs to its neighbours keeps. -/
lemma expand_induction (h : P f) (c : Cell) : P (f.expand g speed c) := by
  unfold Front.expand
  exact List.foldlRecOn _ _ h fun f hf c _ => hP f c hf

/-- What offers keep holds of the front at the seeds if it holds before anything is offered. -/
lemma start_induction (h : P (bare g seeds)) : P (Front.start g speed seeds) :=
  List.foldlRecOn seeds (Front.expand g speed) h fun _ hf c _ => expand_induction hP hf c

end

/-- An offer adds at most one entry to the queue and takes in no cell. -/
lemma offer_frame (g : ZoneGrid Exact) (speed : Lattice Exact) (f : Front Exact) (c : Cell) :
    (f.offer g speed c).queue.toList.length ≤ f.queue.toList.length + 1 ∧
      ∀ c', (f.offer g speed c).Known c' ↔ f.Known c' := by
  rcases offer_cases g speed f c with hsame | ⟨e, -, hk, hhas, hoffer⟩
  · rw [hsame]
    exact ⟨by omega, fun _ => Iff.rfl⟩
  · rw [hoffer]
    constructor
    · rw [write, (MinHeap.toList_push Trial.before f.queue _).length_eq, List.length_cons]
    · exact fun c' => known_write_iff hhas hk

lemma offers_frame (g : ZoneGrid Exact) (speed : Lattice Exact) (cs : List Cell)
    (f : Front Exact) :
    (cs.foldl (Front.offer g speed) f).queue.toList.length ≤ f.queue.toList.length + cs.length ∧
      ∀ c', (cs.foldl (Front.offer g speed) f).Known c' ↔ f.Known c' := by
  induction cs generalizing f with
  | nil => exact ⟨by simp, fun _ => Iff.rfl⟩
  | cons c cs ih =>
    obtain ⟨hlen, hknown⟩ := ih (f.offer g speed c)
    obtain ⟨hlen', hknown'⟩ := offer_frame g speed f c
    rw [List.foldl_cons, List.length_cons]
    exact ⟨by omega, fun c' => (hknown c').trans (hknown' c')⟩

lemma expand_frame (g : ZoneGrid Exact) (speed : Lattice Exact) (f : Front Exact) (c : Cell) :
    (f.expand g speed c).queue.toList.length ≤ f.queue.toList.length + 4 ∧
      ∀ c', (f.expand g speed c).Known c' ↔ f.Known c' := by
  have h := offers_frame g speed (g.grid.neighbours c) f
  have hfour := RectGrid.length_neighbours_le g.grid c
  exact ⟨h.1.trans (by omega), h.2⟩

lemma unknown_congr (h : ∀ c, f'.Known c ↔ f.Known c) : unknown g f' = unknown g f := by
  ext c
  rw [mem_unknown, mem_unknown, h]

theorem Inv.work_accept_lt (hf : Inv g speed seeds level [] f)
    (hq : f.queue.toList.Perm (t :: rest.toList)) :
    work g (f.accept g speed t rest) < work g f := by
  have hlen : f.queue.toList.length = rest.toList.length + 1 := by
    rw [hq.length_eq, List.length_cons]
  rw [hf.accept_eq hq]
  split
  · have hdrop : work g { f with queue := rest } =
        rest.toList.length + 4 * (unknown g f).card := rfl
    rw [hdrop, work]
    omega
  · rename_i hfresh
    have hk : ¬f.Known t.cell := fun h => hfresh (.inl h)
    have ht : g.grid.contains t.cell = true := (hf.queue t (hq.mem_iff.2 List.mem_cons_self)).1.1
    obtain ⟨hqueue, hknown⟩ := expand_frame g speed (f.mark t.cell rest) t.cell
    have hfewer : (unknown g (f.mark t.cell rest)).card + 1 = (unknown g f).card := by
      have herase : unknown g (f.mark t.cell rest) = (unknown g f).erase t.cell := by
        ext c
        rw [Finset.mem_erase, mem_unknown, mem_unknown, known_mark_iff (hf.has_progress ht)]
        tauto
      rw [herase]
      exact Finset.card_erase_add_one (mem_unknown.2 ⟨ht, hk⟩)
    have hrest : (f.mark t.cell rest).queue.toList.length = rest.toList.length := rfl
    rw [work, work, unknown_congr hknown]
    omega

lemma queue_start_le (g : ZoneGrid Exact) (speed : Lattice Exact) (seeds : List Cell) :
    (Front.start g speed seeds).queue.toList.length ≤ 4 * seeds.length := by
  have hqueue (cs : List Cell) (f : Front Exact) :
      (cs.foldl (Front.expand g speed) f).queue.toList.length ≤
        f.queue.toList.length + 4 * cs.length := by
    induction cs generalizing f with
    | nil => simp
    | cons c cs ih =>
      have hhead := (expand_frame g speed f c).1
      have htail := ih (f.expand g speed c)
      rw [List.foldl_cons, List.length_cons]
      omega
  have hbare : (bare g seeds).queue.toList.length = 0 := rfl
  have hstart := hqueue seeds (bare g seeds)
  rwa [hbare, Nat.zero_add] at hstart

lemma work_start_le (g : ZoneGrid Exact) (speed : Lattice Exact) (seeds : List Cell) :
    work g (Front.start g speed seeds) ≤ 4 * (g.grid.size + seeds.length) := by
  have hcells : (unknown g (Front.start g speed seeds)).card ≤ g.grid.size := by
    refine (Finset.card_filter_le _ _).trans ?_
    rw [Finset.card_product, Finset.card_range, Finset.card_range, RectGrid.size]
  have hstart := queue_start_le g speed seeds
  rw [work]
  omega

/-- Without offers all cells of finite cost have been taken in. -/
lemma Inv.costOf_eq_top (hf : Inv g speed seeds level [] f) (hq : f.queue.toList = []) {c : Cell}
    (hc : ¬f.Known c) : f.costOf c = ⊤ := by
  by_contra hfin
  obtain ⟨t, ht, -⟩ := hf.queued c hc hfin
  rw [hq] at ht
  exact absurd ht List.not_mem_nil

/-- Without offers the costs of a front are the arrival field. -/
theorem Inv.isArrival (hf : Inv g speed seeds level [] f) (hm : g.Measured speed)
    (hq : f.queue.toList = []) : g.IsArrival speed seeds f.cost := by
  have hall : f.knownCostOf = f.costOf := by
    ext1 c
    by_cases hc : f.Known c
    · exact knownCostOf_of_known hc
    · rw [knownCostOf_of_not_known hc, hf.costOf_eq_top hq hc]
  constructor
  case width_eq => exact hf.cost_shape.1
  case height_eq => exact hf.cost_shape.2
  case isCost => exact fun c _ => hf.isCost c
  case seed =>
    intro c hc
    rw [← ofCost_costOf (hf.isCost c), (hf.seed c hc).2, zero_eq]
    rfl
  case blocked =>
    intro c _ hseed hent
    rw [← ofCost_costOf (hf.isCost c), hf.blocked c hseed hent]
    rfl
  case update =>
    intro c hseed hent
    rw [ZoneGrid.upwind_costAt hm (fun c _ => hf.isCost c) hent, ← ofCost_costOf (hf.isCost c)]
    have heq : f.costOf c = trialCost g speed f c := by
      by_cases hc : f.Known c
      · exact hf.known c hc hseed
      · exact (hf.offered c hent hc).2 List.not_mem_nil
    rw [heq, trialCost, hall]
    rfl

lemma ordered_offer (h : f.queue.Ordered Trial.before) (c : Cell) :
    (f.offer g speed c).queue.Ordered Trial.before := by
  rcases offer_cases g speed f c with hsame | ⟨e, -, -, -, hoffer⟩
  · rwa [hsame]
  · rw [hoffer]
    exact MinHeap.ordered_push ranks_before h _

lemma ordered_expand (h : f.queue.Ordered Trial.before) (c : Cell) :
    (f.expand g speed c).queue.Ordered Trial.before :=
  expand_induction (P := fun f => f.queue.Ordered Trial.before) (fun _ c h => ordered_offer h c) h c

lemma ordered_start (g : ZoneGrid Exact) (speed : Lattice Exact) (seeds : List Cell) :
    (Front.start g speed seeds).queue.Ordered Trial.before :=
  start_induction (P := fun f => f.queue.Ordered Trial.before) (fun _ c h => ordered_offer h c)
    trivial

lemma ordered_accept (h : rest.Ordered Trial.before) (t : Trial Exact) :
    (f.accept g speed t rest).queue.Ordered Trial.before := by
  unfold Front.accept
  split
  · exact h
  · exact ordered_expand h t.cell

/-- With enough fuel a run takes turns until no offer is left. -/
theorem run_turns (hm : g.Measured speed) {fuel : Nat} (hf : Inv g speed seeds level [] f)
    (hq : f.queue.Ordered Trial.before) (hfuel : work g f ≤ fuel) :
    Relation.ReflTransGen (Turn g speed) f (Front.run g speed fuel f) ∧
      (Front.run g speed fuel f).queue.toList = [] := by
  induction fuel generalizing f level with
  | zero =>
    have hlen : f.queue.toList.length = 0 := by
      rw [work] at hfuel
      omega
    exact ⟨.refl, List.eq_nil_of_length_eq_zero hlen⟩
  | succ fuel ih =>
    rw [Front.run]
    cases hpop : f.queue.pop? Trial.before with
    | none => exact ⟨.refl, MinHeap.pop?_eq_none hpop⟩
    | some next =>
      obtain ⟨t, rest⟩ := next
      have hperm := MinHeap.toList_pop? hpop
      obtain ⟨hfirst, hrest⟩ := MinHeap.ordered_pop? ranks_before hq hpop
      have hmin : ∀ t' ∈ rest.toList, ¬t'.cost < t.cost :=
        fun t' ht' => not_lt_of_not_before (hfirst t' ht')
      obtain ⟨level', hf'⟩ := hf.accept hm hperm hmin
      have hless := hf.work_accept_lt hperm
      obtain ⟨hturns, hend⟩ := ih hf' (ordered_accept hrest t) (by omega)
      exact ⟨.head ⟨t, rest, hperm, hmin, rfl⟩ hturns, hend⟩

theorem isArrival_of_turns (hm : g.Measured speed)
    (hseeds : ∀ c ∈ seeds, g.grid.contains c = true)
    (h : Relation.ReflTransGen (Turn g speed) (Front.start g speed seeds) f)
    (hq : f.queue.toList = []) : g.IsArrival speed seeds f.cost := by
  have hinv : ∃ level, Inv g speed seeds level [] f := by
    clear hq
    induction h with
    | refl => exact ⟨0, inv_start hm hseeds⟩
    | tail _ hturn ih => exact Inv.turn ih hm hturn
  obtain ⟨level, hf⟩ := hinv
  exact hf.isArrival hm hq

end Front

namespace ZoneGrid

variable {g : ZoneGrid Exact} {speed : Lattice Exact} {seeds : List Cell}

/-- The run of `solve` is one way to take turns until no offer is left. -/
theorem solve_turns (hm : g.Measured speed) (hseeds : ∀ c ∈ seeds, g.grid.contains c = true) :
    ∃ f, Relation.ReflTransGen (Front.Turn g speed) (Front.start g speed seeds) f ∧
      f.queue.toList = [] ∧ f.cost = g.solve speed seeds := by
  obtain ⟨hturns, hend⟩ := Front.run_turns hm (Front.inv_start hm hseeds)
    (Front.ordered_start g speed seeds) (Front.work_start_le g speed seeds)
  exact ⟨_, hturns, hend, rfl⟩

theorem isArrival_solve (hm : g.Measured speed)
    (hseeds : ∀ c ∈ seeds, g.grid.contains c = true) :
    g.IsArrival speed seeds (g.solve speed seeds) := by
  obtain ⟨f, hturns, hend, hcost⟩ := solve_turns hm hseeds
  exact hcost ▸ Front.isArrival_of_turns hm hseeds hturns hend

/-- The front finds the one arrival field, in whatever order it meets its seeds and however it
chooses between equally cheap trial cells. -/
theorem solve_unique_arrival (hm : g.Measured speed)
    (hseeds : ∀ c ∈ seeds, g.grid.contains c = true) :
    g.IsArrival speed seeds (g.solve speed seeds) ∧
    (∀ T, g.IsArrival speed seeds T → T = g.solve speed seeds) ∧
    (∀ seeds', (∀ c, c ∈ seeds' ↔ c ∈ seeds) → g.solve speed seeds' = g.solve speed seeds) ∧
    ∀ seeds' f, (∀ c, c ∈ seeds' ↔ c ∈ seeds) →
      Relation.ReflTransGen (Front.Turn g speed) (Front.start g speed seeds') f →
      f.queue.toList = [] → f.cost = g.solve speed seeds := by
  have hsolve := isArrival_solve hm hseeds
  have hunique (T : Lattice Exact) (hT : g.IsArrival speed seeds T) :
      T = g.solve speed seeds := hT.unique hm hsolve
  have hsame {seeds' : List Cell} (h : ∀ c, c ∈ seeds' ↔ c ∈ seeds) {T : Lattice Exact}
      (hT : g.IsArrival speed seeds' T) : T = g.solve speed seeds :=
    hunique T (hT.congr_seeds h)
  have hgrid {seeds' : List Cell} (h : ∀ c, c ∈ seeds' ↔ c ∈ seeds) :
      ∀ c ∈ seeds', g.grid.contains c = true := fun c hc => hseeds c ((h c).1 hc)
  refine ⟨hsolve, hunique, ?_, ?_⟩
  · intro seeds' h
    exact hsame h (isArrival_solve hm (hgrid h))
  · intro seeds' f h hturns hend
    exact hsame h (Front.isArrival_of_turns hm (hgrid h) hturns hend)

/-- Two free cells in a row with a wall behind them. -/
noncomputable def deadEnd : ZoneGrid Exact where
  zone := .room 0
  grid := ⟨⟨0, 0⟩, 1, 3, 1⟩
  cells := .ofFn 3 1 fun c => if c.1 = 2 then .wall else .inside
  targets := .empty

/-- From the first cell of a dead end the front comes to the second at cost one and not to the
wall. -/
theorem solve_deadEnd : deadEnd.Measured deadEnd.evenSpeed ∧
    (∀ c ∈ [((0, 0) : Cell)], deadEnd.grid.contains c = true) ∧
    (deadEnd.solve deadEnd.evenSpeed [(0, 0)]).getD (1, 0) Scalar.infinity = 1 ∧
    (deadEnd.solve deadEnd.evenSpeed [(0, 0)]).getD (2, 0) Scalar.infinity = Scalar.infinity := by
  have hspeed {c : Cell} (hc : deadEnd.grid.contains c = true) :
      deadEnd.evenSpeed.getD c 0 = 1 := by
    rw [evenSpeed, Lattice.getD_constant_of_lt _ _ (RectGrid.contains_iff.1 hc)]
  have hm : deadEnd.Measured deadEnd.evenSpeed :=
    ⟨zero_lt_one, isFinite_iff.2 ⟨1, one_eq⟩, fun c hc => by simp [hspeed hc, one_eq]⟩
  have hseeds : ∀ c ∈ [((0, 0) : Cell)], deadEnd.grid.contains c = true := by decide
  obtain ⟨hT, -⟩ := solve_unique_arrival hm hseeds
  set T := deadEnd.solve deadEnd.evenSpeed [(0, 0)]
  have hsecond : deadEnd.Enterable deadEnd.evenSpeed (1, 0) := by
    refine ⟨by decide, by decide, ?_⟩
    rw [hspeed (by decide)]
    exact zero_lt_one
  have hwall : T.getD (2, 0) Scalar.infinity = Scalar.infinity :=
    hT.blocked (2, 0) (by decide) (by decide) fun h => absurd h.2.1 (by decide)
  refine ⟨hm, hseeds, ?_, hwall⟩
  have hleft : deadEnd.costAt T (1, 0) (-1) 0 = ofCost (0 : ℝ) :=
    (hT.seed (0, 0) (by decide)).trans zero_eq
  have hright : deadEnd.costAt T (1, 0) 1 0 = ofCost ⊤ := hwall
  have hlower : deadEnd.costAt T (1, 0) 0 (-1) = ofCost ⊤ := rfl
  have hupper : deadEnd.costAt T (1, 0) 0 1 = ofCost ⊤ := rfl
  have hstep : deadEnd.grid.cellSize / deadEnd.evenSpeed.getD (1, 0) 0 = real 1 := by
    rw [hspeed (by decide)]
    calc (1 : Exact) / 1 = real (1 / 1) := by rw [one_eq, real_div_real 1 one_ne_zero]
      _ = real 1 := by rw [div_one]
  have hone : Upwind.update (0 : ℝ) ⊤ 1 = (1 : ℝ) :=
    (Upwind.update_eq_coe_iff one_pos).2
      ⟨by simp, by rw [Upwind.steepness, Upwind.rise_coe, Upwind.rise_top]; norm_num⟩
  rw [hT.update (1, 0) (by decide) hsecond, hleft, hright, hlower, hupper, hstep, smaller_ofCost,
    smaller_ofCost, min_eq_left le_top, min_self, Upwind.upwind_ofCost _ _ one_pos, hone, one_eq]
  rfl

end ZoneGrid

end Egress
