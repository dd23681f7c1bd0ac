import Egress.MinHeap
import Egress.Proofs.Exact

/-!
# Order in priority queues

A heap is ordered if no entry comes before the top of a subtree that holds it. Adding an entry and
taking the first one keep a heap ordered, provided that `before` orders entries up to ties; then
the entry that is taken comes before or ties with all that are left. The same is so of the entry
that is left when a list is gone through once.
-/
namespace Egress.MinHeap

variable {ε : Type} {before : ε → ε → Bool}

/-- A strict order in which entries may tie. -/
structure Ranks (before : ε → ε → Bool) : Prop where
  asymm : ∀ {a b}, before a b = true → before b a = false
  trans : ∀ {a b c}, before b a = false → before c b = false → before c a = false

theorem Ranks.of_lt {κ : Type*} [LinearOrder κ] (key : ε → κ)
    (h : ∀ a b, before a b = true ↔ key a < key b) : Ranks before := by
  have hfalse (a b : ε) : before a b = false ↔ key b ≤ key a := by
    rw [← Bool.not_eq_true, h, not_lt]
  constructor
  · intro a b hab
    exact (hfalse b a).2 ((h a b).1 hab).le
  · intro a b c hab hbc
    exact (hfalse c a).2 (((hfalse b a).1 hab).trans ((hfalse c b).1 hbc))

/-- No entry comes before the top of a subtree that holds it. -/
def Ordered (before : ε → ε → Bool) : MinHeap ε → Prop
  | .nil => True
  | .node _ x l r =>
    (∀ y ∈ l.toList ++ r.toList, before y x = false) ∧ Ordered before l ∧ Ordered before r

lemma ordered_join {x : ε} {a b : MinHeap ε} (hx : ∀ y ∈ a.toList ++ b.toList, before y x = false)
    (ha : Ordered before a) (hb : Ordered before b) : Ordered before (join x a b) := by
  unfold join
  split
  · exact ⟨hx, ha, hb⟩
  · refine ⟨fun y hy => hx y ?_, hb, ha⟩
    exact List.perm_append_comm.mem_iff.1 hy

lemma ordered_mergeNode (hb : Ranks before) {rank : Nat} {x : ε} {l r : MinHeap ε}
    (hxlr : Ordered before (.node rank x l r))
    (hmerge : ∀ h, Ordered before h → Ordered before (merge before r h)) {h : MinHeap ε}
    (hh : Ordered before h) :
    Ordered before (mergeNode before rank x l r (merge before r) h) := by
  obtain ⟨hx, hl, hr⟩ := hxlr
  induction h with
  | nil => exact ⟨hx, hl, hr⟩
  | node s y l' r' _ ih =>
    obtain ⟨hy, hl', hr'⟩ := hh
    simp only [mergeNode]
    split
    · rename_i hyx
      refine ordered_join (fun e he => ?_) hl' (ih hr')
      have hperm := toList_mergeNode before rank x l r _ (toList_merge before r) r'
      have hxy : before x y = false := hb.asymm hyx
      rcases List.mem_append.1 he with he | he
      · exact hy e (List.mem_append_left _ he)
      · rcases List.mem_append.1 (hperm.mem_iff.1 he) with he | he
        · rcases List.mem_cons.1 he with rfl | he
          · exact hxy
          · exact hb.trans hxy (hx e he)
        · exact hy e (List.mem_append_right _ he)
    · rename_i hyx
      have hyx : before y x = false := by simpa using hyx
      refine ordered_join (fun e he => ?_) hl (hmerge _ ⟨hy, hl', hr'⟩)
      rcases List.mem_append.1 he with he | he
      · exact hx e (List.mem_append_left _ he)
      · rcases List.mem_append.1 ((toList_merge before r _).mem_iff.1 he) with he | he
        · exact hx e (List.mem_append_right _ he)
        · rcases List.mem_cons.1 he with rfl | he
          · exact hyx
          · exact hb.trans hyx (hy e he)

theorem ordered_merge (hb : Ranks before) {a b : MinHeap ε} (ha : Ordered before a)
    (hb' : Ordered before b) : Ordered before (merge before a b) := by
  induction a generalizing b with
  | nil => exact hb'
  | node rank x l r _ ih => exact ordered_mergeNode hb ha (fun _ hh => ih ha.2.2 hh) hb'

theorem ordered_push (hb : Ranks before) {h : MinHeap ε} (hh : Ordered before h) (x : ε) :
    Ordered before (push before h x) := by
  refine ordered_merge hb ⟨?_, trivial, trivial⟩ hh
  simp [toList]

/-- The entry that is taken from an ordered heap is a first one, and what is left is ordered. -/
theorem ordered_pop? (hb : Ranks before) {h rest : MinHeap ε} {x : ε} (hh : Ordered before h)
    (hp : h.pop? before = some (x, rest)) :
    (∀ y ∈ rest.toList, before y x = false) ∧ Ordered before rest := by
  cases h with
  | nil => simp [pop?] at hp
  | node rank y l r =>
    simp only [pop?, Option.some.injEq, Prod.mk.injEq] at hp
    obtain ⟨rfl, rfl⟩ := hp
    refine ⟨fun e he => hh.1 e ?_, ordered_merge hb hh.2.1 hh.2.2⟩
    exact (toList_merge before l r).mem_iff.1 he

theorem pop?_eq_none {h : MinHeap ε} (hp : h.pop? before = none) : h.toList = [] := by
  cases h with
  | nil => rfl
  | node => simp [pop?] at hp

lemma foldl_mem (before : ε → ε → Bool) (x : ε) (xs : List ε) :
    xs.foldl (fun best y => if before y best then y else best) x ∈ x :: xs := by
  induction xs generalizing x with
  | nil => exact List.mem_singleton_self x
  | cons y ys ih =>
    rw [List.foldl_cons]
    split
    · exact List.mem_cons_of_mem x (ih y)
    · rcases List.mem_cons.1 (ih x) with h | h
      · rw [h]
        exact List.mem_cons_self
      · exact List.mem_cons_of_mem x (List.mem_cons_of_mem y h)

/-- Keeping of two entries the one that comes before the other, one keeps a first one. -/
theorem Ranks.foldl_first (hb : Ranks before) (x : ε) (xs : List ε) : ∀ y ∈ x :: xs,
    before y (xs.foldl (fun best y => if before y best then y else best) x) = false := by
  induction xs generalizing x with
  | nil =>
    have hself : before x x = false := by
      cases h : before x x with
      | false => rfl
      | true => exact h.symm.trans (hb.asymm h)
    simpa using hself
  | cons y ys ih =>
    simp only [List.foldl_cons, List.forall_mem_cons] at ih ⊢
    obtain ⟨hkept, hrest⟩ := ih (if before y x then y else x)
    cases hyx : before y x with
    | true =>
      simp only [hyx, if_true] at hkept hrest ⊢
      exact ⟨hb.trans hkept (hb.asymm hyx), hkept, hrest⟩
    | false =>
      simp only [hyx, Bool.false_eq_true, if_false] at hkept hrest ⊢
      exact ⟨hkept, hb.trans hkept hyx, hrest⟩

/-- The order by cost in which equally costly entries come by number. -/
noncomputable def byCost (cost : ε → Exact) (number : ε → ℕ) (a b : ε) : Bool :=
  Scalar.precedes (cost a) (cost b) ||
    (!Scalar.precedes (cost b) (cost a) && decide (number a < number b))

lemma byCost_iff {cost : ε → Exact} {number : ε → ℕ} {a b : ε} :
    byCost cost number a b = true ↔ (cost a).place < (cost b).place ∨
      ¬(cost b).place < (cost a).place ∧ number a < number b := by
  simp only [byCost, Bool.or_eq_true, Bool.and_eq_true, Bool.not_eq_true', decide_eq_true_eq,
    ← Bool.not_eq_true, Exact.precedes_iff]

lemma byCost_eq_false_iff {cost : ε → Exact} {number : ε → ℕ} {a b : ε} :
    byCost cost number a b = false ↔ (cost b).place ≤ (cost a).place ∧
      ((cost a).place ≤ (cost b).place → number b ≤ number a) := by
  rw [← Bool.not_eq_true, byCost_iff, not_or, not_and, not_lt, not_lt, not_lt]

theorem ranks_byCost (cost : ε → Exact) (number : ε → ℕ) : Ranks (byCost cost number) := by
  refine .of_lt (fun a => toLex ((cost a).place, number a)) fun a b => ?_
  rw [byCost_iff, Prod.Lex.toLex_lt_toLex]
  constructor
  · rintro (h | ⟨h, hnumber⟩)
    · exact .inl h
    · rcases (not_lt.1 h).lt_or_eq with h | h
      · exact .inl h
      · exact .inr ⟨h, hnumber⟩
  · rintro (h | ⟨h, hnumber⟩)
    · exact .inl h
    · exact .inr ⟨h.not_gt, hnumber⟩

lemma not_lt_of_byCost {cost : ε → Exact} {number : ε → ℕ} {a b : ε}
    (h : byCost cost number a b = false) : ¬cost a < cost b := by
  intro hlt
  simp [byCost, Scalar.precedes, hlt] at h

end Egress.MinHeap
