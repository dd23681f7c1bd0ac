import Egress.Proofs.Field.Arrival
import Egress.Proofs.MinHeap

/-!
# The invariant of marching fronts

A front has taken in every cell that costs less than some level, and no cell that costs more. Each
cell that it has taken in, and each that it has not, costs exactly the update from the cells that
have been taken in, unless the cell is still to be offered its new cost. Taking in the cheapest
trial cell raises the level to its cost: costs below the level do not see the new cell, and no cost
falls below the level because of it.
-/
namespace Egress.Front
open Exact

/-- The cell has been taken in. -/
def Known (f : Front Exact) (c : Cell) : Prop := f.progress.getD c .far = .known

instance (f : Front Exact) (c : Cell) : Decidable (f.Known c) :=
  inferInstanceAs (Decidable (_ = _))

/-- Present cost of a cell. -/
noncomputable def costOf (f : Front Exact) (c : Cell) : WithTop ℝ := ZoneGrid.costs f.cost c

/-- Cost of a cell that has been taken in, infinite for any other. -/
noncomputable def knownCostOf (f : Front Exact) (c : Cell) : WithTop ℝ :=
  if f.Known c then f.costOf c else ⊤

/-- The update of a cell from the cells that have been taken in. -/
noncomputable def trialCost (g : ZoneGrid Exact) (speed : Lattice Exact) (f : Front Exact)
    (c : Cell) : WithTop ℝ :=
  arrival g.grid f.knownCostOf c (g.crossing speed c)

/-- What holds of a front between two steps, up to the cells of `pending`, which have not yet been
offered the cost that their neighbours give them. -/
structure Inv (g : ZoneGrid Exact) (speed : Lattice Exact) (seeds : List Cell) (level : WithTop ℝ)
    (pending : List Cell) (f : Front Exact) : Prop where
  cost_shape : f.cost.width = g.grid.width ∧ f.cost.height = g.grid.height
  progress_shape : f.progress.width = g.grid.width ∧ f.progress.height = g.grid.height
  isCost : ∀ c, (f.cost.getD c Scalar.infinity).IsCost
  seed : ∀ c ∈ seeds, f.Known c ∧ f.costOf c = 0
  enterable : ∀ c, f.Known c → c ∉ seeds → g.Enterable speed c
  blocked : ∀ c, c ∉ seeds → ¬g.Enterable speed c → f.costOf c = ⊤
  below : ∀ c, f.Known c → f.costOf c ≤ level
  above : ∀ c, g.Enterable speed c → ¬f.Known c → level ≤ trialCost g speed f c
  known : ∀ c, f.Known c → c ∉ seeds → f.costOf c = trialCost g speed f c
  offered : ∀ c, g.Enterable speed c → ¬f.Known c →
    trialCost g speed f c ≤ f.costOf c ∧ (c ∉ pending → f.costOf c = trialCost g speed f c)
  queue : ∀ t ∈ f.queue.toList,
    g.Enterable speed t.cell ∧ t.cost.IsCost ∧ f.costOf t.cell ≤ toCost t.cost
  queued : ∀ c, ¬f.Known c → f.costOf c ≠ ⊤ →
    ∃ t ∈ f.queue.toList, t.cell = c ∧ t.cost = f.cost.getD c Scalar.infinity

variable {g : ZoneGrid Exact} {speed : Lattice Exact} {seeds pending : List Cell}
  {level : WithTop ℝ} {f : Front Exact}

lemma ofCost_costOf {c : Cell} (hf : (f.cost.getD c Scalar.infinity).IsCost) :
    ofCost (f.costOf c) = f.cost.getD c Scalar.infinity := hf

lemma knownCostOf_of_known {c : Cell} (h : f.Known c) : f.knownCostOf c = f.costOf c := if_pos h

lemma knownCostOf_of_not_known {c : Cell} (h : ¬f.Known c) : f.knownCostOf c = ⊤ := if_neg h

lemma Inv.has_cost (hf : Inv g speed seeds level pending f) {c : Cell}
    (hc : g.grid.contains c = true) : f.cost.Has c := by
  have h := RectGrid.contains_iff.1 hc
  exact ⟨hf.cost_shape.1 ▸ h.1, hf.cost_shape.2 ▸ h.2⟩

lemma Inv.has_progress (hf : Inv g speed seeds level pending f) {c : Cell}
    (hc : g.grid.contains c = true) : f.progress.Has c := by
  have h := RectGrid.contains_iff.1 hc
  exact ⟨hf.progress_shape.1 ▸ h.1, hf.progress_shape.2 ▸ h.2⟩

/-- Inside the grid a cell reads as known whatever stands for cells beyond it. -/
lemma Inv.getD_known_iff (hf : Inv g speed seeds level pending f) {c : Cell}
    (hc : g.grid.contains c = true) : f.progress.getD c .known = .known ↔ f.Known c := by
  rw [Known, f.progress.getD_congr_default (hf.has_progress hc)]

lemma knownCost_eq (hcost : ∀ c, (f.cost.getD c Scalar.infinity).IsCost) (c : Cell)
    (di dj : Int) : f.knownCost g c di dj = ofCost (beside g.grid f.knownCostOf c (di, dj)) := by
  unfold knownCost beside
  cases g.grid.offset? c di dj with
  | none => rfl
  | some n =>
    by_cases hn : f.Known n
    · simp only [Option.map_some, Option.getD_some, knownCostOf_of_known hn]
      exact (if_pos hn).trans (ofCost_costOf (hcost n)).symm
    · simp only [Option.map_some, Option.getD_some, knownCostOf_of_not_known hn]
      exact if_neg hn

/-- What the front offers to a cell is the update from the cells that have been taken in. -/
lemma estimate_eq (hm : g.Measured speed)
    (hcost : ∀ c, (f.cost.getD c Scalar.infinity).IsCost) {c : Cell} (hc : g.Enterable speed c) :
    f.estimate g c (g.grid.cellSize / speed.getD c 0) = ofCost (trialCost g speed f c) := by
  obtain ⟨hs, hpos⟩ := hm.crossing_spec hc
  simp only [estimate, knownCost_eq hcost, smaller_ofCost, hs]
  exact Upwind.upwind_ofCost _ _ hpos

/-- What fronts with the same known cells and costs offer is the same. -/
lemma trialCost_congr {f f' : Front Exact} (hknown : ∀ c, f'.Known c ↔ f.Known c)
    (hcost : ∀ c, f.Known c → f'.costOf c = f.costOf c) :
    trialCost g speed f' = trialCost g speed f := by
  have h : f'.knownCostOf = f.knownCostOf := by
    ext1 c
    by_cases hc : f.Known c
    · rw [knownCostOf_of_known hc, knownCostOf_of_known ((hknown c).2 hc), hcost c hc]
    · rw [knownCostOf_of_not_known hc, knownCostOf_of_not_known fun h => hc ((hknown c).1 h)]
  unfold trialCost
  rw [h]

/-- The front with a cost written to a cell and added to the queue. -/
noncomputable def write (f : Front Exact) (c : Cell) (e : Exact) (key : ℕ) : Front Exact where
  cost := f.cost.set c e
  progress := f.progress.set c .trial
  queue := f.queue.push Trial.before ⟨e, key, c⟩

section
variable {c : Cell} {e : Exact} {key : ℕ}

lemma getD_cost_write (hc : f.cost.Has c) (n : Cell) :
    (f.write c e key).cost.getD n Scalar.infinity =
      if n = c then e else f.cost.getD n Scalar.infinity :=
  Lattice.getD_set _ hc n e _

lemma costOf_write_self (hc : f.cost.Has c) : (f.write c e key).costOf c = toCost e := by
  rw [costOf, ZoneGrid.costs, getD_cost_write hc, if_pos rfl]

lemma costOf_write_of_ne (hc : f.cost.Has c) {n : Cell} (hn : n ≠ c) :
    (f.write c e key).costOf n = f.costOf n := by
  rw [costOf, ZoneGrid.costs, getD_cost_write hc, if_neg hn, costOf, ZoneGrid.costs]

lemma known_write_iff (hc : f.progress.Has c) (hk : ¬f.Known c) {n : Cell} :
    (f.write c e key).Known n ↔ f.Known n := by
  rw [Known, write, Lattice.getD_set _ hc]
  by_cases hn : n = c
  · simpa [hn] using hk
  · rw [if_neg hn, Known]

lemma mem_queue_write {t : Trial Exact} :
    t ∈ (f.write c e key).queue.toList ↔ t = ⟨e, key, c⟩ ∨ t ∈ f.queue.toList :=
  (MinHeap.toList_push Trial.before f.queue _).mem_iff.trans List.mem_cons

/-- Updates see only the cells that have been taken in. -/
lemma Inv.trialCost_write (hf : Inv g speed seeds level pending f) (hc : g.Enterable speed c)
    (hk : ¬f.Known c) : trialCost g speed (f.write c e key) = trialCost g speed f := by
  apply trialCost_congr
  · exact fun n => known_write_iff (hf.has_progress hc.1) hk
  · intro n hn
    apply costOf_write_of_ne (hf.has_cost hc.1)
    rintro rfl
    exact hk hn

lemma Inv.offered_write (hf : Inv g speed seeds level (c :: pending) f) (hc : g.Enterable speed c)
    {n : Cell} (hent : g.Enterable speed n) (hn : ¬f.Known n) :
    trialCost g speed f n ≤ (f.write c (ofCost (trialCost g speed f c)) key).costOf n ∧
      (n ∉ pending → (f.write c (ofCost (trialCost g speed f c)) key).costOf n =
        trialCost g speed f n) := by
  by_cases hnc : n = c
  · rw [hnc, costOf_write_self (hf.has_cost hc.1), toCost_ofCost]
    exact ⟨le_rfl, fun _ => rfl⟩
  · rw [costOf_write_of_ne (hf.has_cost hc.1) hnc]
    obtain ⟨hle, hpast⟩ := hf.offered n hent hn
    exact ⟨hle, fun hp => hpast (by simp [hnc, hp])⟩

/-- Offers never undercut the cost of their cell. -/
lemma Inv.queue_write (hf : Inv g speed seeds level pending f) (hc : g.Enterable speed c)
    (hlt : trialCost g speed f c < f.costOf c) {t : Trial Exact}
    (ht : t ∈ (f.write c (ofCost (trialCost g speed f c)) key).queue.toList) :
    g.Enterable speed t.cell ∧ t.cost.IsCost ∧
      (f.write c (ofCost (trialCost g speed f c)) key).costOf t.cell ≤ toCost t.cost := by
  rcases mem_queue_write.1 ht with rfl | ht
  · exact ⟨hc, isCost_ofCost _, (costOf_write_self (hf.has_cost hc.1)).le⟩
  · obtain ⟨hent, hcost, hle⟩ := hf.queue t ht
    refine ⟨hent, hcost, ?_⟩
    by_cases htc : t.cell = c
    · rw [htc, costOf_write_self (hf.has_cost hc.1), toCost_ofCost]
      rw [htc] at hle
      exact hlt.le.trans hle
    · rwa [costOf_write_of_ne (hf.has_cost hc.1) htc]

lemma Inv.queued_write (hf : Inv g speed seeds level pending f) (hc : g.Enterable speed c)
    {n : Cell} (hn : ¬f.Known n) (hfin : (f.write c e key).costOf n ≠ ⊤) :
    ∃ t ∈ (f.write c e key).queue.toList,
      t.cell = n ∧ t.cost = (f.write c e key).cost.getD n Scalar.infinity := by
  rw [getD_cost_write (hf.has_cost hc.1)]
  by_cases hnc : n = c
  · exact ⟨_, mem_queue_write.2 (.inl rfl), hnc.symm, (if_pos hnc).symm⟩
  · rw [costOf_write_of_ne (hf.has_cost hc.1) hnc] at hfin
    obtain ⟨t, ht, htn, hcost⟩ := hf.queued n hn hfin
    exact ⟨t, mem_queue_write.2 (.inr ht), htn, by rw [if_neg hnc, hcost]⟩

/-- Writing a better cost to a cell settles that cell. -/
lemma Inv.improve (hf : Inv g speed seeds level (c :: pending) f) (hc : g.Enterable speed c)
    (hk : ¬f.Known c) (hlt : trialCost g speed f c < f.costOf c) (key : ℕ) :
    Inv g speed seeds level pending (f.write c (ofCost (trialCost g speed f c)) key) := by
  have hcost := hf.has_cost hc.1
  have hknown {n : Cell} :
      (f.write c (ofCost (trialCost g speed f c)) key).Known n ↔ f.Known n :=
    known_write_iff (hf.has_progress hc.1) hk
  have hne {n : Cell} (hn : f.Known n) : n ≠ c := fun h => hk (h ▸ hn)
  constructor
  case cost_shape => simpa [write] using hf.cost_shape
  case progress_shape => simpa [write] using hf.progress_shape
  case isCost =>
    intro n
    rw [getD_cost_write hcost]
    split
    · exact isCost_ofCost _
    · exact hf.isCost n
  case seed =>
    intro n hn
    rw [hknown, costOf_write_of_ne hcost (hne (hf.seed n hn).1)]
    exact hf.seed n hn
  case enterable => exact fun n hn => hf.enterable n (hknown.1 hn)
  case blocked =>
    intro n hn hent
    have hnc : n ≠ c := fun h => hent (h ▸ hc)
    rw [costOf_write_of_ne hcost hnc]
    exact hf.blocked n hn hent
  case below =>
    intro n hn
    rw [costOf_write_of_ne hcost (hne (hknown.1 hn))]
    exact hf.below n (hknown.1 hn)
  case above =>
    intro n hent hn
    rw [hf.trialCost_write hc hk]
    exact hf.above n hent (mt hknown.2 hn)
  case known =>
    intro n hn hseed
    rw [hf.trialCost_write hc hk, costOf_write_of_ne hcost (hne (hknown.1 hn))]
    exact hf.known n (hknown.1 hn) hseed
  case offered =>
    intro n hent hn
    rw [hf.trialCost_write hc hk]
    exact hf.offered_write hc hent (mt hknown.2 hn)
  case queue => exact fun t ht => hf.queue_write hc hlt ht
  case queued => exact fun n hn hfin => hf.queued_write hc (mt hknown.2 hn) hfin

end

/-- A cell whose cost is its update already need not be offered it again. -/
lemma Inv.drop {c : Cell} (hf : Inv g speed seeds level (c :: pending) f)
    (h : g.Enterable speed c → ¬f.Known c → f.costOf c ≤ trialCost g speed f c) :
    Inv g speed seeds level pending f :=
  { hf with
    offered := fun c' hent hc' => by
      have hold := hf.offered c' hent hc'
      refine ⟨hold.1, fun hp => ?_⟩
      by_cases hcc : c' = c
      · subst hcc
        exact le_antisymm (h hent hc') hold.1
      · exact hold.2 (by simp [hcc, hp]) }

/-- Nothing is offered to a cell that cannot be entered. -/
lemma Inv.offer_of_not_enterable {c : Cell} (hf : Inv g speed seeds level pending f)
    (hc : ¬g.Enterable speed c) : f.offer g speed c = f := by
  unfold Front.offer
  by_cases hcg : g.grid.contains c = true
  · by_cases hpass : g.isPassable c = true
    · have hv : ¬0 < speed.getD c 0 := fun hv => hc ⟨hcg, hpass, hv⟩
      simp only [if_neg hv, ite_self]
    · exact if_pos (by simp [hpass])
  · have hout : ¬f.progress.Has c := by
      rwa [Lattice.Has, hf.progress_shape.1, hf.progress_shape.2, ← RectGrid.contains_iff]
    exact if_pos (by simp [Lattice.getD_of_not_has _ hout])

theorem Inv.offer {c : Cell} (hf : Inv g speed seeds level (c :: pending) f)
    (hm : g.Measured speed) : Inv g speed seeds level pending (f.offer g speed c) := by
  by_cases hc : g.Enterable speed c
  · have hread := hf.getD_known_iff hc.1
    unfold Front.offer
    by_cases hk : f.Known c
    · rw [if_pos (by simp [hread.2 hk])]
      exact hf.drop fun _ h => absurd hk h
    · rw [if_neg (by simp [hread, hk, hc.2.1])]
      simp only [if_pos hc.2.2, estimate_eq hm hf.isCost hc]
      have hlt : ofCost (trialCost g speed f c) < f.cost.getD c Scalar.infinity ↔
          trialCost g speed f c < f.costOf c := by
        rw [← ofCost_costOf (hf.isCost c), ofCost_lt_ofCost]
      split
      · rename_i h
        exact hf.improve hc hk (hlt.1 h) _
      · rename_i h
        exact hf.drop fun _ _ => not_lt.1 fun h' => h (hlt.2 h')
  · rw [hf.offer_of_not_enterable hc]
    exact hf.drop fun h => absurd h hc

theorem Inv.offers {cs : List Cell} (hf : Inv g speed seeds level (cs ++ pending) f)
    (hm : g.Measured speed) :
    Inv g speed seeds level pending (cs.foldl (Front.offer g speed) f) := by
  induction cs generalizing f with
  | nil => exact hf
  | cons c cs ih => exact ih (hf.offer hm)

/-- The front at the seeds before anything has been offered. -/
noncomputable def bare (g : ZoneGrid Exact) (seeds : List Cell) : Front Exact where
  cost := seeds.foldl (fun l c => l.set c 0)
    (.constant g.grid.width g.grid.height Scalar.infinity)
  progress := seeds.foldl (fun l c => l.set c .known)
    (.constant g.grid.width g.grid.height .far)
  queue := .nil

lemma known_bare_iff (hseeds : ∀ c ∈ seeds, g.grid.contains c = true) (c : Cell) :
    (bare g seeds).Known c ↔ c ∈ seeds := by
  have hhas : ∀ c ∈ seeds, (Lattice.constant g.grid.width g.grid.height Progress.far).Has c :=
    fun c hc => RectGrid.contains_iff.1 (hseeds c hc)
  rw [Known, bare, Lattice.getD_foldl_set hhas, Lattice.getD_constant]
  by_cases hc : c ∈ seeds <;> simp [hc]

lemma getD_cost_bare (hseeds : ∀ c ∈ seeds, g.grid.contains c = true) (c : Cell) :
    (bare g seeds).cost.getD c Scalar.infinity = if c ∈ seeds then 0 else Scalar.infinity := by
  have hhas : ∀ c ∈ seeds,
      (Lattice.constant g.grid.width g.grid.height (Scalar.infinity : Exact)).Has c :=
    fun c hc => RectGrid.contains_iff.1 (hseeds c hc)
  rw [bare, Lattice.getD_foldl_set hhas, Lattice.getD_constant]

lemma costOf_bare (hseeds : ∀ c ∈ seeds, g.grid.contains c = true) (c : Cell) :
    (bare g seeds).costOf c = if c ∈ seeds then 0 else ⊤ := by
  rw [costOf, ZoneGrid.costs, getD_cost_bare hseeds]
  split
  · rw [zero_eq]; rfl
  · rfl

/-- A cell without a neighbour among the known cells is offered no cost. -/
lemma trialCost_eq_top {c : Cell} (hc : g.Enterable speed c) (hm : g.Measured speed)
    (h : ∀ n ∈ g.grid.neighbours c, ¬f.Known n) : trialCost g speed f c = ⊤ := by
  have htop : ⊤ ≤ trialCost g speed f c :=
    le_arrival (hm.crossing_spec hc).2 fun n hn => (knownCostOf_of_not_known (h n hn)).ge
  exact top_le_iff.1 htop

lemma inv_bare (hm : g.Measured speed) (hseeds : ∀ c ∈ seeds, g.grid.contains c = true) :
    Inv g speed seeds 0 (seeds.flatMap g.grid.neighbours) (bare g seeds) := by
  have hknown := known_bare_iff hseeds
  have hcost := costOf_bare hseeds
  constructor
  case cost_shape => simp [bare]
  case progress_shape => simp [bare]
  case isCost =>
    intro c
    rw [getD_cost_bare hseeds]
    split
    · rw [zero_eq]
      exact isCost_real 0
    · exact isCost_posInf
  case seed =>
    intro c hc
    exact ⟨(hknown c).2 hc, by rw [hcost, if_pos hc]⟩
  case enterable => exact fun c hc hseed => absurd ((hknown c).1 hc) hseed
  case blocked =>
    intro c hseed _
    rw [hcost, if_neg hseed]
  case below =>
    intro c hc
    rw [hcost, if_pos ((hknown c).1 hc)]
  case above =>
    intro c hent _
    refine le_arrival (hm.crossing_spec hent).2 fun n _ => ?_
    unfold knownCostOf
    split
    · rw [hcost]
      split <;> simp
    · exact le_top
  case known => exact fun c hc hseed => absurd ((hknown c).1 hc) hseed
  case offered =>
    intro c hent hc
    have hseed : c ∉ seeds := fun h => hc ((hknown c).2 h)
    rw [hcost, if_neg hseed]
    refine ⟨le_top, fun hp => (trialCost_eq_top hent hm fun n hn hkn => hp ?_).symm⟩
    exact List.mem_flatMap.2 ⟨n, (hknown n).1 hkn, RectGrid.mem_neighbours_comm hent.1 hn⟩
  case queue =>
    intro t ht
    simp [bare, MinHeap.toList] at ht
  case queued =>
    intro c hc hfin
    rw [hcost, if_neg fun h => hc ((hknown c).2 h)] at hfin
    exact absurd rfl hfin

theorem inv_start (hm : g.Measured speed) (hseeds : ∀ c ∈ seeds, g.grid.contains c = true) :
    Inv g speed seeds 0 [] (Front.start g speed seeds) := by
  have expandAll (cs : List Cell) {f : Front Exact}
      (hf : Inv g speed seeds 0 (cs.flatMap g.grid.neighbours) f) :
      Inv g speed seeds 0 [] (cs.foldl (Front.expand g speed) f) := by
    induction cs generalizing f with
    | nil => exact hf
    | cons c cs ih => exact ih (hf.offers hm)
  exact expandAll seeds (inv_bare hm hseeds)

variable {t : Trial Exact} {rest : MinHeap (Trial Exact)}

/-- An offer that has been bettered can be dropped. -/
lemma Inv.dropStale (hf : Inv g speed seeds level [] f)
    (hq : f.queue.toList.Perm (t :: rest.toList))
    (hstale : f.Known t.cell ∨ f.costOf t.cell < toCost t.cost) :
    Inv g speed seeds level [] { f with queue := rest } :=
  { hf with
    queue := fun t' ht' => hf.queue t' (hq.mem_iff.2 (List.mem_cons_of_mem t ht'))
    queued := by
      intro c hc hfin
      obtain ⟨t', ht', htc, hcost⟩ := hf.queued c hc hfin
      rcases List.mem_cons.1 (hq.mem_iff.1 ht') with rfl | ht'
      · rcases hstale with hk | hlt
        · exact absurd (htc ▸ hk) hc
        · rw [hcost, htc] at hlt
          exact absurd hlt (lt_irrefl _)
      · exact ⟨t', ht', htc, hcost⟩ }

/-- The first offer bounds the costs of all cells that have not been taken in. -/
lemma Inv.first_le (hf : Inv g speed seeds level [] f)
    (hq : f.queue.toList.Perm (t :: rest.toList))
    (hmin : ∀ t' ∈ rest.toList, ¬t'.cost < t.cost) {c : Cell} (hc : ¬f.Known c) :
    toCost t.cost ≤ f.costOf c := by
  by_cases hfin : f.costOf c = ⊤
  · rw [hfin]
    exact le_top
  · obtain ⟨t', ht', -, hcost⟩ := hf.queued c hc hfin
    have ht : t.cost.IsCost := (hf.queue t (hq.mem_iff.2 List.mem_cons_self)).2.1
    rcases List.mem_cons.1 (hq.mem_iff.1 ht') with rfl | ht'
    · rw [hcost]
      exact le_rfl
    · have hnot := hmin t' ht'
      rw [hcost, ← ofCost_costOf (hf.isCost c), ← ht, ofCost_lt_ofCost] at hnot
      exact not_lt.1 hnot

/-- The front with one more cell taken in and other offers left. -/
def mark (f : Front Exact) (c : Cell) (rest : MinHeap (Trial Exact)) : Front Exact :=
  { f with progress := f.progress.set c .known, queue := rest }

section
variable {c n : Cell}

lemma known_mark_iff (hc : f.progress.Has c) : (f.mark c rest).Known n ↔ n = c ∨ f.Known n := by
  rw [Known, mark, Lattice.getD_set _ hc]
  by_cases hn : n = c <;> simp [hn, Known]

lemma knownCostOf_mark_self (hc : f.progress.Has c) :
    (f.mark c rest).knownCostOf c = f.costOf c :=
  knownCostOf_of_known ((known_mark_iff hc).2 (.inl rfl))

lemma knownCostOf_mark_of_ne (hc : f.progress.Has c) (hn : n ≠ c) :
    (f.mark c rest).knownCostOf n = f.knownCostOf n := by
  have hiff : (f.mark c rest).Known n ↔ f.Known n := by simp [known_mark_iff hc, hn]
  by_cases hk : f.Known n
  · rw [knownCostOf_of_known hk, knownCostOf_of_known (hiff.2 hk)]
    rfl
  · rw [knownCostOf_of_not_known hk, knownCostOf_of_not_known (mt hiff.1 hk)]

/-- Up to its cost nothing is seen of the new cell. -/
lemma knownCostOf_mark_agree (hc : f.progress.Has c) (hk : ¬f.Known c) {u : WithTop ℝ}
    (hu : u ≤ f.costOf c) (n : Cell) : f.knownCostOf n = (f.mark c rest).knownCostOf n ∨
      u ≤ f.knownCostOf n ∧ u ≤ (f.mark c rest).knownCostOf n := by
  by_cases hn : n = c
  · rw [hn, knownCostOf_mark_self hc, knownCostOf_of_not_known hk]
    exact .inr ⟨le_top, hu⟩
  · exact .inl (knownCostOf_mark_of_ne hc hn).symm

lemma trialCost_mark_of_le (hm : g.Measured speed) (hc : f.progress.Has c) (hk : ¬f.Known c)
    (hent : g.Enterable speed n) (hle : trialCost g speed f n ≤ f.costOf c) :
    trialCost g speed (f.mark c rest) n = trialCost g speed f n :=
  arrival_congr (hm.crossing_spec hent).2 rfl fun m _ => knownCostOf_mark_agree hc hk hle m

/-- No update falls below the cost of the new cell because of it. -/
lemma le_trialCost_mark (hm : g.Measured speed) (hc : f.progress.Has c) (hk : ¬f.Known c)
    (hent : g.Enterable speed n) (hle : f.costOf c ≤ trialCost g speed f n) :
    f.costOf c ≤ trialCost g speed (f.mark c rest) n := by
  by_contra hlt
  have hlt := not_le.1 hlt
  have hback : trialCost g speed f n = trialCost g speed (f.mark c rest) n := by
    refine arrival_congr (hm.crossing_spec hent).2 rfl fun m _ => ?_
    rcases knownCostOf_mark_agree hc hk hlt.le m with h | ⟨h, h'⟩
    · exact .inl h.symm
    · exact .inr ⟨h', h⟩
  rw [← hback] at hlt
  exact absurd hle (not_le.2 hlt)

lemma trialCost_mark_le (hm : g.Measured speed) (hc : f.progress.Has c) (hk : ¬f.Known c)
    (hent : g.Enterable speed n) :
    trialCost g speed (f.mark c rest) n ≤ trialCost g speed f n := by
  refine arrival_mono (hm.crossing_spec hent).2 fun m _ => ?_
  by_cases hmc : m = c
  · rw [hmc, knownCostOf_of_not_known hk]
    exact le_top
  · exact (knownCostOf_mark_of_ne hc hmc).le

/-- Cells that are not next to the new one do not see it at all. -/
lemma trialCost_mark_of_far (hm : g.Measured speed) (hc : f.progress.Has c)
    (hent : g.Enterable speed n) (hfar : n ∉ g.grid.neighbours c) :
    trialCost g speed (f.mark c rest) n = trialCost g speed f n := by
  refine arrival_congr (hm.crossing_spec hent).2 rfl fun m hmn => .inl ?_
  have hmc : m ≠ c := by
    rintro rfl
    exact hfar (RectGrid.mem_neighbours_comm hent.1 hmn)
  exact (knownCostOf_mark_of_ne hc hmc).symm

end

/-- Between two steps a cell that has not been taken in costs its update. -/
lemma Inv.costOf_eq_trialCost (hf : Inv g speed seeds level [] f) {c : Cell}
    (hc : g.Enterable speed c) (hk : ¬f.Known c) : f.costOf c = trialCost g speed f c :=
  (hf.offered c hc hk).2 List.not_mem_nil

/-- Taking in the cell of the first offer raises the level to its cost. -/
lemma Inv.takeIn (hf : Inv g speed seeds level [] f) (hm : g.Measured speed)
    (hq : f.queue.toList.Perm (t :: rest.toList))
    (hmin : ∀ t' ∈ rest.toList, ¬t'.cost < t.cost) (hk : ¬f.Known t.cell)
    (hcost : f.costOf t.cell = toCost t.cost) :
    Inv g speed seeds (f.costOf t.cell) (g.grid.neighbours t.cell) (f.mark t.cell rest) := by
  have ht : g.Enterable speed t.cell := (hf.queue t (hq.mem_iff.2 List.mem_cons_self)).1
  have hhas : f.progress.Has t.cell := hf.has_progress ht.1
  have hfirst {c : Cell} (hc : ¬f.Known c) : f.costOf t.cell ≤ f.costOf c :=
    hcost ▸ hf.first_le hq hmin hc
  have hself := hf.costOf_eq_trialCost ht hk
  have hlevel : level ≤ f.costOf t.cell := hself ▸ hf.above _ ht hk
  have hunknown {c : Cell} (hc : ¬(f.mark t.cell rest).Known c) : c ≠ t.cell ∧ ¬f.Known c := by
    rwa [known_mark_iff hhas, not_or] at hc
  constructor
  case cost_shape => exact hf.cost_shape
  case progress_shape => simpa [mark] using hf.progress_shape
  case isCost => exact hf.isCost
  case seed =>
    intro c hc
    obtain ⟨hkc, hzero⟩ := hf.seed c hc
    exact ⟨(known_mark_iff hhas).2 (.inr hkc), hzero⟩
  case enterable =>
    intro c hc hseed
    rcases (known_mark_iff hhas).1 hc with rfl | hc
    · exact ht
    · exact hf.enterable c hc hseed
  case blocked => exact hf.blocked
  case below =>
    intro c hc
    rcases (known_mark_iff hhas).1 hc with rfl | hc
    · exact le_rfl
    · exact (hf.below c hc).trans hlevel
  case above =>
    intro c hent hc
    obtain ⟨-, hkc⟩ := hunknown hc
    apply le_trialCost_mark hm hhas hk hent
    rw [← hf.costOf_eq_trialCost hent hkc]
    exact hfirst hkc
  case known =>
    intro c hc hseed
    rcases (known_mark_iff hhas).1 hc with rfl | hc
    · rw [trialCost_mark_of_le hm hhas hk ht hself.ge]
      exact hself
    · have heq := hf.known c hc hseed
      have hle : trialCost g speed f c ≤ f.costOf t.cell := heq ▸ (hf.below c hc).trans hlevel
      rw [trialCost_mark_of_le hm hhas hk (hf.enterable c hc hseed) hle]
      exact heq
  case offered =>
    intro c hent hc
    obtain ⟨-, hkc⟩ := hunknown hc
    have heq := hf.costOf_eq_trialCost hent hkc
    refine ⟨(trialCost_mark_le hm hhas hk hent).trans heq.ge, fun hfar => ?_⟩
    rw [trialCost_mark_of_far hm hhas hent hfar]
    exact heq
  case queue => exact fun t' ht' => hf.queue t' (hq.mem_iff.2 (List.mem_cons_of_mem t ht'))
  case queued =>
    intro c hc hfin
    obtain ⟨hne, hkc⟩ := hunknown hc
    obtain ⟨t', ht', htc, hcost'⟩ := hf.queued c hkc hfin
    rcases List.mem_cons.1 (hq.mem_iff.1 ht') with rfl | ht'
    · exact absurd htc.symm hne
    · exact ⟨t', ht', htc, hcost'⟩

end Egress.Front
