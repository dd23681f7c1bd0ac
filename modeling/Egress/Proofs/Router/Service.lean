import Egress.Proofs.Router.Knowledge

/-!
# What a router answers

Everything that happens to a router is answered. Two ways of serving that answer alike and leave
alike what was alike before do so however long they serve.
-/
namespace Egress.Router

/-- What comes back from an operation. -/
inductive Response (α : Type) where
  | noted
  /-- The person as the person has become, and the door. -/
  | sent (a : Pedestrian α) (result : Except (RouterError α) DoorId)
  /-- For how many people the periodic sensors all finished. -/
  | updated (count : Nat)
  /-- The map that the person had. -/
  | forgotten (m : Option (CognitiveMap α))

/-- A way to serve operations. -/
abbrev Service (α : Type) := Router α → Operation α → Router α × Response α

/-- What several operations one after another make of a router, and all that is answered. -/
def Service.run {α : Type} (f : Service α) : Router α → List (Operation α) →
    Router α × List (Response α)
  | r, [] => (r, [])
  | r, op :: ops =>
    let (r', response) := f r op
    let (r'', responses) := f.run r' ops
    (r'', response :: responses)

/-- What is kept by each operation is kept by all of them, and so are the answers. -/
theorem Service.run_related {α : Type} {f f' : Service α} {R : Router α → Router α → Prop}
    {O : Operation α → Operation α → Prop} {A : Response α → Response α → Prop}
    (hstep : ∀ r r' op op', R r r' → O op op' →
      R (f r op).1 (f' r' op').1 ∧ A (f r op).2 (f' r' op').2)
    {r r' : Router α} (hr : R r r') {ops ops' : List (Operation α)} (hops : ops.Forall₂ O ops') :
    R (f.run r ops).1 (f'.run r' ops').1 ∧ (f.run r ops).2.Forall₂ A (f'.run r' ops').2 := by
  induction hops generalizing r r' with
  | nil => exact ⟨hr, .nil⟩
  | @cons op op' _ _ hop _ ih =>
    obtain ⟨hr', hresponse⟩ := hstep r r' op op' hr hop
    obtain ⟨hlast, hresponses⟩ := ih hr'
    exact ⟨hlast, .cons hresponse hresponses⟩

variable {α : Type} [Scalar α]

/-- What the updates of single people keep, a periodic update keeps, and so it does their number. -/
theorem periodic_related {R : Router α → Router α → Prop} {time : α}
    (hstep : ∀ r r' a, R r r' → R (r.periodicFor a time).1 (r'.periodicFor a time).1 ∧
      (r.periodicFor a time).2 = (r'.periodicFor a time).2)
    {r r' : Router α} {agents : List (Pedestrian α)} (h : R (r.noting agents) (r'.noting agents)) :
    R (r.periodic agents time).1 (r'.periodic agents time).1 ∧
      (r.periodic agents time).2 = (r'.periodic agents time).2 := by
  have hfold (left : List (Pedestrian α)) (q q' : Router α) (n : ℕ) (hq : R q q') :
      R (left.foldl (tally time) (q, n)).1 (left.foldl (tally time) (q', n)).1 ∧
        (left.foldl (tally time) (q, n)).2 = (left.foldl (tally time) (q', n)).2 := by
    induction left generalizing q q' n with
    | nil => exact ⟨hq, rfl⟩
    | cons a left ih =>
      obtain ⟨hq', hdone⟩ := hstep q q' a hq
      simp only [List.foldl_cons, tally, ← hdone]
      exact ih _ _ _ hq'
  exact hfold agents _ _ 0 h

/-- How the router serves. -/
def serve : Service α
  | r, .withHazard hazard => (r.withHazard hazard, .noted)
  | r, .findExit a time =>
    let (r', a', result) := r.findExit a time
    (r', .sent a' result)
  | r, .periodic agents time =>
    let (r', count) := r.periodic agents time
    (r', .updated count)
  | r, .removeAgent id =>
    let (r', m) := r.removeAgent id
    (r', .forgotten m)

lemma serve_fst (r : Router α) (op : Operation α) : (serve r op).1 = r.perform op := by
  cases op <;> rfl

theorem run_serve_fst (r : Router α) (ops : List (Operation α)) :
    (Service.run serve r ops).1 = r.after ops := by
  induction ops generalizing r with
  | nil => rfl
  | cons op ops ih =>
    rw [after, List.foldl_cons, ← serve_fst]
    exact ih (serve r op).1

end Egress.Router
