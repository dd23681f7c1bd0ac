import Egress.Proofs.Field.Reach

/-!
# Labels that are set once

A front labels cells with costs and sets one label at a time. In any run of turns a cell is taken in
once, at no lower cost than those before it, and its cost stays. Between turns each trial cell has
the update from the cells that have been taken in, and the queue holds an offer of just that cost. A
turn drops an offer or takes in one cell, which adds four offers at most, so that a run comes to its
end, and when no offer is left there is no trial cell either.
-/
namespace Egress.Front
open Exact

variable {g : ZoneGrid Exact} {speed : Lattice Exact} {seeds : List Cell} {level : WithTop ℝ}
  {f f' : Front Exact} {n : ℕ} {fs : ℕ → Front Exact}

/-- The cells that have been taken in stay so, and keep their costs. -/
def Keeps (f f' : Front Exact) : Prop :=
  ∀ c, f.Known c →
    f'.Known c ∧ f'.cost.getD c Scalar.infinity = f.cost.getD c Scalar.infinity

lemma Keeps.refl (f : Front Exact) : f.Keeps f := fun _ hc => ⟨hc, rfl⟩

lemma Keeps.trans {f'' : Front Exact} (h : f.Keeps f') (h' : f'.Keeps f'') : f.Keeps f'' := by
  intro c hc
  obtain ⟨hknown, hcost⟩ := h c hc
  obtain ⟨hknown', hcost'⟩ := h' c hknown
  exact ⟨hknown', hcost'.trans hcost⟩

lemma keeps_offer (g : ZoneGrid Exact) (speed : Lattice Exact) (f : Front Exact) (c : Cell) :
    f.Keeps (f.offer g speed c) := by
  rcases offer_cases g speed f c with hsame | ⟨e, -, hk, hhas, hoffer⟩
  · rw [hsame]
    exact .refl f
  · intro c' hc'
    have hne : c' ≠ c := by
      rintro rfl
      exact hk hc'
    rw [hoffer]
    exact ⟨(known_write_iff hhas hk).2 hc', Lattice.getD_set_of_ne _ hne _ _⟩

lemma keeps_expand (g : ZoneGrid Exact) (speed : Lattice Exact) (f : Front Exact) (c : Cell) :
    f.Keeps (f.expand g speed c) :=
  expand_induction (P := f.Keeps) (fun f' c h => h.trans (keeps_offer g speed f' c)) (.refl f) c

/-- Offers to the cells of a list add at most one entry each to the queue. -/
lemma exists_offered (g : ZoneGrid Exact) (speed : Lattice Exact) (cs : List Cell)
    (f : Front Exact) : ∃ offered, offered.length ≤ cs.length ∧
      (cs.foldl (Front.offer g speed) f).queue.toList.Perm (offered ++ f.queue.toList) := by
  induction cs generalizing f with
  | nil => exact ⟨[], le_rfl, .refl _⟩
  | cons c cs ih =>
    obtain ⟨offered, hlen, hperm⟩ := ih (f.offer g speed c)
    rw [List.foldl_cons]
    rcases offer_cases g speed f c with hsame | ⟨e, -, -, -, hoffer⟩
    · rw [hsame] at hperm ⊢
      exact ⟨offered, by simp; omega, hperm⟩
    · have hpush : (f.offer g speed c).queue.toList.Perm
          (⟨e, g.grid.key c, c⟩ :: f.queue.toList) := by
        rw [hoffer]
        exact MinHeap.toList_push Trial.before f.queue _
      refine ⟨offered ++ [⟨e, g.grid.key c, c⟩], by simp; omega, hperm.trans ?_⟩
      simpa using hpush.append_left offered

/-- A cell is a trial cell only once a cost has been found for it. -/
structure Banded (f : Front Exact) : Prop where
  width_eq : f.cost.width = f.progress.width
  height_eq : f.cost.height = f.progress.height
  reached : ∀ c, f.progress.getD c .far = .trial →
    f.cost.getD c Scalar.infinity ≠ Scalar.infinity

lemma Banded.offer (hf : f.Banded) (c : Cell) : (f.offer g speed c).Banded := by
  rcases offer_cases g speed f c with hsame | ⟨e, hlt, -, hhas, hoffer⟩
  · rwa [hsame]
  · rw [hoffer]
    have hcost : f.cost.Has c := by
      rwa [Lattice.Has, hf.width_eq, hf.height_eq]
    refine ⟨by simpa [write] using hf.width_eq, by simpa [write] using hf.height_eq,
      fun c' hc' => ?_⟩
    rw [getD_cost_write hcost]
    split
    · rintro rfl
      exact not_posInf_lt _ hlt
    · rename_i hne
      rw [write, Lattice.getD_set_of_ne _ hne] at hc'
      exact hf.reached c' hc'

lemma Banded.expand (hf : f.Banded) (c : Cell) : (f.expand g speed c).Banded :=
  expand_induction (P := Banded) (fun _ c h => h.offer c) hf c

lemma banded_start (hseeds : ∀ c ∈ seeds, g.grid.contains c = true) :
    (Front.start g speed seeds).Banded := by
  refine start_induction (P := Banded) (fun _ c h => h.offer c) ⟨by simp [bare], by simp [bare], ?_⟩
  intro c hc
  have hhas : ∀ c ∈ seeds, (Lattice.constant g.grid.width g.grid.height Progress.far).Has c :=
    fun c hc => RectGrid.contains_iff.1 (hseeds c hc)
  rw [bare, Lattice.getD_foldl_set hhas, Lattice.getD_constant] at hc
  split at hc <;> cases hc

lemma Banded.accept (hf : f.Banded) (t : Trial Exact) (rest : MinHeap (Trial Exact)) :
    (f.accept g speed t rest).Banded := by
  unfold Front.accept
  split
  · exact ⟨hf.width_eq, hf.height_eq, hf.reached⟩
  · refine Banded.expand ⟨?_, ?_, fun c hc => ?_⟩ t.cell
    · simpa using hf.width_eq
    · simpa using hf.height_eq
    · by_cases hct : c = t.cell
      · -- inside the grid the cell is known now, and outside there are no trial cells
        by_cases hhas : f.progress.Has t.cell
        · rw [hct, Lattice.getD_set_self _ hhas] at hc
          cases hc
        · have hout : ¬(f.progress.set t.cell .known).Has c := by
            simpa [Lattice.Has, hct] using hhas
          rw [Lattice.getD_of_not_has _ hout] at hc
          cases hc
      · rw [Lattice.getD_set_of_ne _ hct] at hc
        exact hf.reached c hc

/-- The turn drops an offer for a cell that is known, or that has been offered less since. -/
structure Drops (f f' : Front Exact) (t : Trial Exact) (rest : List (Trial Exact)) : Prop where
  queue : f.queue.toList.Perm (t :: rest)
  stale : f.Known t.cell ∨ f.cost.getD t.cell Scalar.infinity < t.cost
  cost_eq : f'.cost = f.cost
  progress_eq : f'.progress = f.progress
  left : f'.queue.toList = rest

/-- The turn takes in the cell of an offer at the cost that is offered, and no other cell. -/
structure TakesIn (f f' : Front Exact) (t : Trial Exact) (rest : List (Trial Exact)) : Prop where
  queue : f.queue.toList.Perm (t :: rest)
  fresh : ¬f.Known t.cell
  cost_eq : f.cost.getD t.cell Scalar.infinity = t.cost
  known_iff : ∀ c, f'.Known c ↔ c = t.cell ∨ f.Known c
  accepted : f'.cost.getD t.cell Scalar.infinity = t.cost
  /-- Four offers come of it at most. -/
  offered : ∃ offered, offered.length ≤ 4 ∧ f'.queue.toList.Perm (offered ++ rest)

/-- A turn drops an offer or takes in one cell. -/
theorem Inv.turn_cases (hf : Inv g speed seeds level [] f) (h : Turn g speed f f') :
    ∃ t rest, f.Drops f' t rest ∨ f.TakesIn f' t rest := by
  obtain ⟨t, rest, hq, -, rfl⟩ := h
  obtain ⟨hent, hcost, hle⟩ := hf.queue t (hq.mem_iff.2 List.mem_cons_self)
  have hlt : f.cost.getD t.cell Scalar.infinity < t.cost ↔ f.costOf t.cell < toCost t.cost := by
    rw [← ofCost_lt_ofCost, ofCost_costOf (hf.isCost t.cell), hcost]
  refine ⟨t, rest.toList, ?_⟩
  rw [hf.accept_eq hq]
  split
  · rename_i hstale
    exact .inl ⟨hq, hstale.imp_right hlt.2, rfl, rfl, rfl⟩
  · rename_i hfresh
    obtain ⟨hk, hnot⟩ := not_or.1 hfresh
    have hknown (c : Cell) : (f.mark t.cell rest).Known c ↔ c = t.cell ∨ f.Known c :=
      known_mark_iff (hf.has_progress hent.1)
    have heq : f.cost.getD t.cell Scalar.infinity = t.cost := by
      rw [← ofCost_costOf (hf.isCost t.cell), le_antisymm hle (not_lt.1 hnot)]
      exact hcost
    obtain ⟨offered, hlen, hperm⟩ :=
      exists_offered g speed (g.grid.neighbours t.cell) (f.mark t.cell rest)
    have hkept :=
      keeps_expand g speed (f.mark t.cell rest) t.cell t.cell ((hknown _).2 (.inl rfl))
    have hfour := RectGrid.length_neighbours_le g.grid t.cell
    refine .inr ⟨hq, hk, heq, fun c => ?_, hkept.2.trans heq, offered, by omega, hperm⟩
    exact ((expand_frame g speed (f.mark t.cell rest) t.cell).2 c).trans (hknown c)

/-- Turns change nothing about cells that have been taken in. -/
theorem Inv.keeps_turn (hf : Inv g speed seeds level [] f) (h : Turn g speed f f') :
    f.Keeps f' := by
  obtain ⟨t, rest, hq, -, rfl⟩ := h
  rw [hf.accept_eq hq]
  split
  · exact .refl f
  · have hent := (hf.queue t (hq.mem_iff.2 List.mem_cons_self)).1
    have hmark : f.Keeps (f.mark t.cell rest) := fun c hc =>
      ⟨(known_mark_iff (hf.has_progress hent.1)).2 (.inr hc), rfl⟩
    exact hmark.trans (keeps_expand g speed (f.mark t.cell rest) t.cell)

lemma Inv.cost_le (hf : Inv g speed seeds level [] f) {c d : Cell} (hc : f.Known c)
    (hd : ¬f.Known d) (hent : g.Enterable speed d) :
    f.cost.getD c Scalar.infinity ≤ f.cost.getD d Scalar.infinity := by
  rw [← ofCost_costOf (hf.isCost c), ← ofCost_costOf (hf.isCost d), ofCost_le_ofCost]
  calc f.costOf c ≤ level := hf.below c hc
    _ ≤ trialCost g speed f d := hf.above d hent hd
    _ = f.costOf d := ((hf.offered d hent hd).2 List.not_mem_nil).symm

/-- A trial cell has the update from the cells that have been taken in, which is offered to it. -/
lemma Inv.trial_spec (hf : Inv g speed seeds level [] f) (hm : g.Measured speed) (hb : f.Banded)
    {c : Cell} (hc : f.progress.getD c .far = .trial) :
    f.cost.getD c Scalar.infinity = f.estimate g c (g.grid.cellSize / speed.getD c 0) ∧
      ∃ t ∈ f.queue.toList, t.cell = c ∧ t.cost = f.cost.getD c Scalar.infinity := by
  have hk : ¬f.Known c := by
    simp [Known, hc]
  have hfin : f.costOf c ≠ ⊤ := by
    intro htop
    apply hb.reached c hc
    rw [← ofCost_costOf (hf.isCost c), htop]
    rfl
  have hent : g.Enterable speed c := by
    by_contra hnot
    exact hfin (hf.blocked c (fun hseed => hk (hf.seed c hseed).1) hnot)
  refine ⟨?_, hf.queued c hk hfin⟩
  rw [estimate_eq hm hf.isCost hent, ← ofCost_costOf (hf.isCost c),
    (hf.offered c hent hk).2 List.not_mem_nil]

/-- The fronts of a run of `n` turns from the seeds. -/
structure IsRun (g : ZoneGrid Exact) (speed : Lattice Exact) (seeds : List Cell) (n : ℕ)
    (fs : ℕ → Front Exact) : Prop where
  start : fs 0 = Front.start g speed seeds
  turn : ∀ i < n, Turn g speed (fs i) (fs (i + 1))

/-- The cell is taken in by the turn after the first `i` of them. -/
def TakenAt (fs : ℕ → Front Exact) (i : ℕ) (c : Cell) : Prop :=
  ¬(fs i).Known c ∧ (fs (i + 1)).Known c

lemma IsRun.inv (hrun : IsRun g speed seeds n fs) (hm : g.Measured speed)
    (hseeds : ∀ c ∈ seeds, g.grid.contains c = true) {i : ℕ} (hi : i ≤ n) :
    (∃ level, Inv g speed seeds level [] (fs i)) ∧ (fs i).Banded := by
  induction i with
  | zero =>
    rw [hrun.start]
    exact ⟨⟨0, inv_start hm hseeds⟩, banded_start hseeds⟩
  | succ i ih =>
    obtain ⟨hinv, hband⟩ := ih (by omega)
    have hturn := hrun.turn i (by omega)
    refine ⟨Inv.turn hinv hm hturn, ?_⟩
    obtain ⟨t, rest, -, -, hnext⟩ := hturn
    rw [hnext]
    exact hband.accept t rest

lemma IsRun.keeps (hrun : IsRun g speed seeds n fs) (hm : g.Measured speed)
    (hseeds : ∀ c ∈ seeds, g.grid.contains c = true) {i j : ℕ} (hij : i ≤ j) (hj : j ≤ n) :
    (fs i).Keeps (fs j) := by
  induction j, hij using Nat.le_induction with
  | base => exact .refl _
  | succ j _ ih =>
    obtain ⟨⟨level, hinv⟩, -⟩ := hrun.inv hm hseeds (show j ≤ n by omega)
    exact (ih (by omega)).trans (hinv.keeps_turn (hrun.turn j (by omega)))

lemma IsRun.add_work_le (hrun : IsRun g speed seeds n fs) (hm : g.Measured speed)
    (hseeds : ∀ c ∈ seeds, g.grid.contains c = true) {i : ℕ} (hi : i ≤ n) :
    i + work g (fs i) ≤ 4 * (g.grid.size + seeds.length) := by
  induction i with
  | zero =>
    rw [hrun.start, Nat.zero_add]
    exact work_start_le g speed seeds
  | succ i ih =>
    have hbefore := ih (by omega)
    obtain ⟨⟨level, hinv⟩, -⟩ := hrun.inv hm hseeds (show i ≤ n by omega)
    obtain ⟨t, rest, hq, -, hnext⟩ := hrun.turn i (by omega)
    have hless := hinv.work_accept_lt hq
    rw [hnext]
    omega

lemma exists_isRun (h : Relation.ReflTransGen (Turn g speed) (Front.start g speed seeds) f) :
    ∃ n fs, IsRun g speed seeds n fs ∧ fs n = f := by
  induction h with
  | refl => exact ⟨0, fun _ => Front.start g speed seeds, ⟨rfl, by omega⟩, rfl⟩
  | @tail f f' _ hturn ih =>
    obtain ⟨n, fs, hrun, rfl⟩ := ih
    refine ⟨n + 1, fun i => if i ≤ n then fs i else f', ⟨?_, fun i hi => ?_⟩, by simp⟩
    · simpa using hrun.start
    · rcases Nat.lt_succ_iff_lt_or_eq.1 hi with hlt | rfl
      · simpa [hlt.le, Nat.succ_le_of_lt hlt] using hrun.turn i hlt
      · simpa using hturn

/-- What a run of `n` turns does to the labels of the cells. -/
structure SetsLabels (g : ZoneGrid Exact) (speed : Lattice Exact) (seeds : List Cell) (n : ℕ)
    (fs : ℕ → Front Exact) : Prop where
  /-- At first the seeds have been taken in at no cost, and each of them, counted as often as it is
  listed, has added four offers at most. -/
  outset : (∀ c, (fs 0).Known c ↔ c ∈ seeds) ∧
    (∀ c ∈ seeds, (fs 0).cost.getD c Scalar.infinity = 0) ∧
    (fs 0).queue.toList.length ≤ 4 * seeds.length
  /-- Every turn drops an offer or takes in one cell, which adds four offers at most. -/
  turn : ∀ i < n, ∃ t rest, (fs i).Drops (fs (i + 1)) t rest ∨ (fs i).TakesIn (fs (i + 1)) t rest
  /-- No cell is taken in twice. -/
  once : ∀ i j c, i < n → j < n → TakenAt fs i c → TakenAt fs j c → i = j
  /-- Cells that have been taken in stay so, and keep their costs. -/
  keeps : ∀ i j, i ≤ j → j ≤ n → (fs i).Keeps (fs j)
  /-- A cell is taken in at no lower cost than any that has been taken in before. -/
  ascending : ∀ i j c d, i ≤ j → j < n → (fs i).Known c → TakenAt fs j d →
    (fs i).cost.getD c Scalar.infinity ≤ (fs (j + 1)).cost.getD d Scalar.infinity
  /-- Between turns the cost of a trial cell is the update from the cells that have been taken in,
  and is offered to it. -/
  trial : ∀ i ≤ n, ∀ c, (fs i).progress.getD c .far = .trial →
    (fs i).cost.getD c Scalar.infinity =
        (fs i).estimate g c (g.grid.cellSize / speed.getD c 0) ∧
      ∃ t ∈ (fs i).queue.toList, t.cell = c ∧ t.cost = (fs i).cost.getD c Scalar.infinity
  /-- There is an end to all turns. -/
  bounded : n ≤ 4 * (g.grid.size + seeds.length)
  /-- Without offers there is no trial cell. -/
  exhausted : ∀ i ≤ n, (fs i).queue.toList = [] → ∀ c, (fs i).progress.getD c .far ≠ .trial

lemma known_start_iff (hseeds : ∀ c ∈ seeds, g.grid.contains c = true) (c : Cell) :
    (Front.start g speed seeds).Known c ↔ c ∈ seeds := by
  refine start_induction (P := fun f => f.Known c ↔ c ∈ seeds) ?_ (known_bare_iff hseeds c)
  intro f c' hf
  exact ((offer_frame g speed f c').2 c).trans hf

lemma cost_start (hm : g.Measured speed) (hseeds : ∀ c ∈ seeds, g.grid.contains c = true) :
    ∀ c ∈ seeds, (Front.start g speed seeds).cost.getD c Scalar.infinity = 0 := by
  have hstart := inv_start hm hseeds
  intro c hc
  rw [← ofCost_costOf (hstart.isCost c), (hstart.seed c hc).2, zero_eq]
  rfl

/-- What is known later on and was not at first has been taken in by one of the turns. -/
lemma exists_takenAt {c : Cell} (hfirst : ¬(fs 0).Known c) (hlast : (fs n).Known c) :
    ∃ i < n, TakenAt fs i c := by
  induction n with
  | zero => exact absurd hlast hfirst
  | succ n ih =>
    by_cases hbefore : (fs n).Known c
    · obtain ⟨i, hi, htaken⟩ := ih hbefore
      exact ⟨i, by omega, htaken⟩
    · exact ⟨n, by omega, hbefore, hlast⟩

/-- A turn that takes in a cell does not drop an offer. -/
lemma IsRun.exists_takesIn (hrun : IsRun g speed seeds n fs) (hm : g.Measured speed)
    (hseeds : ∀ c ∈ seeds, g.grid.contains c = true) {i : ℕ} (hi : i < n) {c : Cell}
    (h : TakenAt fs i c) : ∃ t rest, (fs i).TakesIn (fs (i + 1)) t rest ∧ t.cell = c := by
  obtain ⟨⟨level, hinv⟩, -⟩ := hrun.inv hm hseeds hi.le
  obtain ⟨t, rest, hdrop | htake⟩ := hinv.turn_cases (hrun.turn i hi)
  · have hknown := h.2
    rw [Known, hdrop.progress_eq] at hknown
    exact absurd hknown h.1
  · exact ⟨t, rest, htake, (((htake.known_iff c).1 h.2).resolve_right h.1).symm⟩

lemma IsRun.ascending (hrun : IsRun g speed seeds n fs) (hm : g.Measured speed)
    (hseeds : ∀ c ∈ seeds, g.grid.contains c = true) {i j : ℕ} {c d : Cell} (hij : i ≤ j)
    (hj : j < n) (hc : (fs i).Known c) (hd : TakenAt fs j d) :
    (fs i).cost.getD c Scalar.infinity ≤ (fs (j + 1)).cost.getD d Scalar.infinity := by
  obtain ⟨⟨level, hinv⟩, -⟩ := hrun.inv hm hseeds hj.le
  obtain ⟨t, rest, htake, rfl⟩ := hrun.exists_takesIn hm hseeds hj hd
  obtain ⟨hknown, hkept⟩ := hrun.keeps hm hseeds hij hj.le c hc
  have hent := (hinv.queue t (htake.queue.mem_iff.2 List.mem_cons_self)).1
  rw [← hkept, htake.accepted, ← htake.cost_eq]
  exact hinv.cost_le hknown hd.1 hent

theorem IsRun.setsLabels (hrun : IsRun g speed seeds n fs) (hm : g.Measured speed)
    (hseeds : ∀ c ∈ seeds, g.grid.contains c = true) : SetsLabels g speed seeds n fs := by
  -- a cell that one turn has taken in is known to all later ones
  have later {i j : ℕ} {c : Cell} (hj : j < n) (hlt : i < j) (hi : TakenAt fs i c) :
      ¬TakenAt fs j c :=
    fun h => h.1 (hrun.keeps hm hseeds (show i + 1 ≤ j by omega) hj.le c hi.2).1
  constructor
  case outset =>
    rw [hrun.start]
    exact ⟨known_start_iff hseeds, cost_start hm hseeds, queue_start_le g speed seeds⟩
  case turn =>
    intro i hi
    obtain ⟨⟨level, hinv⟩, -⟩ := hrun.inv hm hseeds hi.le
    exact hinv.turn_cases (hrun.turn i hi)
  case once =>
    intro i j c hi hj hci hcj
    rcases lt_trichotomy i j with hlt | heq | hlt
    · exact absurd hcj (later hj hlt hci)
    · exact heq
    · exact absurd hci (later hi hlt hcj)
  case keeps => exact fun i j hij hj => hrun.keeps hm hseeds hij hj
  case ascending => exact fun i j c d hij hj => hrun.ascending hm hseeds hij hj
  case trial =>
    intro i hi c hc
    obtain ⟨⟨level, hinv⟩, hband⟩ := hrun.inv hm hseeds hi
    exact hinv.trial_spec hm hband hc
  case bounded =>
    have hwork := hrun.add_work_le hm hseeds le_rfl
    omega
  case exhausted =>
    intro i hi hq c hc
    obtain ⟨⟨level, hinv⟩, hband⟩ := hrun.inv hm hseeds hi
    obtain ⟨-, t, ht, -⟩ := hinv.trial_spec hm hband hc
    rw [hq] at ht
    cases ht

end Egress.Front

namespace Egress.ZoneGrid
open Exact

variable {g : ZoneGrid Exact} {speed : Lattice Exact} {seeds : List Cell}

/-- Every run of turns sets labels: each cell is taken in once, by ascending cost, and keeps its
cost, while trial cells have the update from the cells that have been taken in and an offer of it.
No run goes on for ever, and `solve` is one that goes on until no offer is left. -/
theorem solve_setsLabels (hm : g.Measured speed) (hseeds : ∀ c ∈ seeds, g.grid.contains c = true) :
    (∀ n fs, Front.IsRun g speed seeds n fs → Front.SetsLabels g speed seeds n fs) ∧
    ∃ n fs, Front.IsRun g speed seeds n fs ∧ (fs n).queue.toList = [] ∧
      (fs n).cost = g.solve speed seeds := by
  obtain ⟨f, hturns, hend, hcost⟩ := solve_turns hm hseeds
  obtain ⟨n, fs, hrun, rfl⟩ := Front.exists_isRun hturns
  exact ⟨fun n fs hrun => hrun.setsLabels hm hseeds, n, fs, hrun, hend, hcost⟩

/-- A run from the first of the three cells takes in the second one, ends after twenty turns at most
and leaves no trial cell. -/
theorem solve_setsLabels_divided : divided.Measured divided.evenSpeed ∧
    (∀ c ∈ [((0, 0) : Cell)], divided.grid.contains c = true) ∧
    ∃ n fs, Front.IsRun divided divided.evenSpeed [(0, 0)] n fs ∧ n ≤ 20 ∧
      (∃ i < n, Front.TakenAt fs i (1, 0)) ∧ ∀ c, (fs n).progress.getD c .far ≠ .trial := by
  have hseeds : ∀ c ∈ [((0, 0) : Cell)], divided.grid.contains c = true := by decide
  obtain ⟨hall, n, fs, hrun, hend, hcost⟩ := solve_setsLabels measured_divided hseeds
  have hlabels := hall n fs hrun
  refine ⟨measured_divided, hseeds, n, fs, hrun, hlabels.bounded, ?_, ?_⟩
  · apply Front.exists_takenAt
    · rw [hlabels.outset.1]
      decide
    · obtain ⟨⟨level, hinv⟩, -⟩ := hrun.inv measured_divided hseeds le_rfl
      have hT := isArrival_solve measured_divided hseeds
      have hreached := (hT.costs_ne_top_iff measured_divided hseeds).2 ⟨_, isPath_divided⟩
      rw [← hcost] at hreached
      by_contra hunknown
      exact hreached (hinv.costOf_eq_top hend hunknown)
  · exact hlabels.exhausted n le_rfl hend

end Egress.ZoneGrid
