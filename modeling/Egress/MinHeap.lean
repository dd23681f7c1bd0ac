/-!
# Priority queues

A leftist heap: every subtree keeps the shorter right spine, so that merging, adding and taking
the first entry walk right spines only. The order is a parameter `before` of the operations. The
entries of a heap are its `toList`; merging and adding permute them and taking removes one.
-/
namespace Egress

/-- Entries arranged so that one before which no other comes is on top. -/
inductive MinHeap (ε : Type) where
  | nil
  | node (rank : Nat) (top : ε) (left right : MinHeap ε)

namespace MinHeap

variable {ε : Type}

instance : Inhabited (MinHeap ε) := ⟨.nil⟩

/-- Length of the right spine. -/
def rank : MinHeap ε → Nat
  | .nil => 0
  | .node r _ _ _ => r

/-- The entries, each subtree's top first. -/
def toList : MinHeap ε → List ε
  | .nil => []
  | .node _ x l r => x :: (l.toList ++ r.toList)

/-- A node over two heaps, the one with the longer right spine on the left. -/
def join (x : ε) (a b : MinHeap ε) : MinHeap ε :=
  if b.rank ≤ a.rank then .node (b.rank + 1) x a b else .node (a.rank + 1) x b a

/-- Merges a node with a second heap, given how the node's right child merges. -/
@[specialize] def mergeNode (before : ε → ε → Bool) (rank : Nat) (x : ε) (l r : MinHeap ε)
    (mergeRight : MinHeap ε → MinHeap ε) : MinHeap ε → MinHeap ε
  | .nil => .node rank x l r
  | .node s y l' r' =>
    if before y x then join y l' (mergeNode before rank x l r mergeRight r')
    else join x l (mergeRight (.node s y l' r'))

/-- The entries of both heaps. -/
@[specialize] def merge (before : ε → ε → Bool) : MinHeap ε → MinHeap ε → MinHeap ε
  | .nil => fun h => h
  | .node rank x l r => mergeNode before rank x l r (merge before r)

@[specialize] def push (before : ε → ε → Bool) (h : MinHeap ε) (x : ε) : MinHeap ε :=
  merge before (.node 1 x .nil .nil) h

/-- The top entry and the heap without it. -/
@[specialize] def pop? (before : ε → ε → Bool) : MinHeap ε → Option (ε × MinHeap ε)
  | .nil => none
  | .node _ x l r => some (x, merge before l r)

theorem toList_join (x : ε) (a b : MinHeap ε) :
    (join x a b).toList.Perm (x :: (a.toList ++ b.toList)) := by
  unfold join
  split
  · exact .refl _
  · exact (List.perm_append_comm).cons x

theorem toList_mergeNode (before : ε → ε → Bool) (rank : Nat) (x : ε) (l r : MinHeap ε)
    (mergeRight : MinHeap ε → MinHeap ε)
    (hr : ∀ h, (mergeRight h).toList.Perm (r.toList ++ h.toList)) (h : MinHeap ε) :
    (mergeNode before rank x l r mergeRight h).toList.Perm
      (x :: (l.toList ++ r.toList) ++ h.toList) := by
  induction h with
  | nil => simp [mergeNode, toList]
  | node s y l' r' _ ih =>
    simp only [mergeNode]
    split
    · refine (toList_join _ _ _).trans ?_
      refine ((ih.append_left l'.toList).cons y).trans ?_
      simp only [toList]
      refine List.Perm.trans ?_ List.perm_middle.symm
      refine List.Perm.cons y ?_
      rw [← List.append_assoc, ← List.append_assoc]
      exact List.perm_append_comm.append_right r'.toList
    · refine (toList_join _ _ _).trans ?_
      simp only [List.cons_append, List.append_assoc]
      exact ((hr _).append_left l.toList).cons x

theorem toList_merge (before : ε → ε → Bool) (a b : MinHeap ε) :
    (merge before a b).toList.Perm (a.toList ++ b.toList) := by
  induction a generalizing b with
  | nil => exact .refl _
  | node rank x l r _ ih => exact toList_mergeNode before rank x l r _ ih b

theorem toList_push (before : ε → ε → Bool) (h : MinHeap ε) (x : ε) :
    (push before h x).toList.Perm (x :: h.toList) :=
  toList_merge before _ h

theorem toList_pop? {before : ε → ε → Bool} {h rest : MinHeap ε} {x : ε}
    (hp : h.pop? before = some (x, rest)) : h.toList.Perm (x :: rest.toList) := by
  cases h with
  | nil => simp [pop?] at hp
  | node rank y l r =>
    simp only [pop?, Option.some.injEq, Prod.mk.injEq] at hp
    obtain ⟨rfl, rfl⟩ := hp
    exact ((toList_merge before l r).symm).cons y

end MinHeap

end Egress
