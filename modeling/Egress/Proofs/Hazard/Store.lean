import Egress.Proofs.Lattice
import Egress.Proofs.MinHeap
import Egress.Proofs.OrderedMap
import Egress.Hazard.Store

/-!
# What a store of hazard meshes answers

A store holds the mesh that was put in last for each quantity, height, door and time that it tells
apart. A question is answered from the meshes of its quantity and time: from those for its door if
there are any, and otherwise from those for all doors. Of these the nearest in height is read, the
lower one of two equally near ones.
-/
namespace Egress

/-- A mesh and what it was computed for. -/
structure HazardSlice (α : Type) where
  quantity : HazardQuantity
  /-- Height in meters. -/
  elevation : α
  /-- The door that is judged by the mesh, `none` for all doors. -/
  door : Option DoorId
  /-- Simulation time in seconds. -/
  time : α
  mesh : HazardMesh α

namespace HazardStore

variable {α : Type} [Scalar α] {s : HazardStore α} {params : HazardParams α} {q : HazardQuery α}
  {k k' : HazardKey} {mesh : HazardMesh α}

/-- The key that a slice is stored under. -/
def keyOf (s : HazardStore α) (d : HazardSlice α) : HazardKey :=
  s.key d.quantity d.elevation d.door d.time

/-- The store with one more slice, which takes the place of one with the same key. -/
def add (s : HazardStore α) (d : HazardSlice α) : HazardStore α := s.insert (s.keyOf d) d.mesh

/-- The store after several slices have been put in. -/
def addAll (s : HazardStore α) (slices : List (HazardSlice α)) : HazardStore α :=
  slices.foldl add s

lemma addAll_eq (s : HazardStore α) (slices : List (HazardSlice α)) :
    s.addAll slices = ⟨s.params,
      (slices.map fun d => (s.keyOf d, d.mesh)).foldl (fun m e => m.insert e.1 e.2) s.meshes⟩ := by
  induction slices generalizing s with
  | nil => rfl
  | cons d slices ih => exact ih (s.add d)

lemma keyOf_addAll (s : HazardStore α) (slices : List (HazardSlice α)) (d : HazardSlice α) :
    (s.addAll slices).keyOf d = s.keyOf d := by
  rw [addAll_eq]
  rfl

lemma meshes_addAll_empty (params : HazardParams α) (slices : List (HazardSlice α)) :
    ((empty params).addAll slices).meshes =
      .ofList (slices.map fun d => ((empty params).keyOf d, d.mesh)) := by
  rw [addAll_eq]
  rfl

theorem find?_addAll_empty (params : HazardParams α) (slices : List (HazardSlice α)) :
    ((empty params).addAll slices).meshes.find? k = some mesh ↔
      ∃ before d after, slices = before ++ d :: after ∧ (empty params).keyOf d = k ∧
        d.mesh = mesh ∧ ∀ d' ∈ after, (empty params).keyOf d' ≠ k := by
  rw [meshes_addAll_empty]
  constructor
  · intro h
    obtain ⟨es₁, es₂, heq, hlater⟩ := OrderedMap.exists_of_find?_ofList h
    obtain ⟨before, rest, rfl, rfl, hrest⟩ := List.map_eq_append_iff.1 heq
    obtain ⟨d, after, rfl, hd, rfl⟩ := List.map_eq_cons_iff.1 hrest
    obtain ⟨hkey, hmesh⟩ := Prod.mk.inj hd
    exact ⟨before, d, after, rfl, hkey, hmesh, fun d' hd' => hlater _ (List.mem_map_of_mem hd')⟩
  · rintro ⟨before, d, after, rfl, rfl, rfl, hlater⟩
    rw [List.map_append, List.map_cons]
    refine OrderedMap.find?_ofList_append fun e he => ?_
    obtain ⟨d', hd', rfl⟩ := List.mem_map.1 he
    exact hlater d' hd'

theorem add_comm (s : HazardStore α) {d d' : HazardSlice α} (h : s.keyOf d ≠ s.keyOf d') :
    (s.add d).add d' = (s.add d').add d :=
  congrArg (HazardStore.mk s.params) (s.meshes.insert_comm h d.mesh d'.mesh)

/-- The height in buckets at which a question is asked. -/
def target (s : HazardStore α) (q : HazardQuery α) : Int :=
  elevationBucket s.params (q.elevation + s.params.eyeHeight)

/-- The stored keys for the quantity and time of a question and a door. -/
def keysFor (s : HazardStore α) (q : HazardQuery α) (door : Option DoorId) : Set HazardKey :=
  {k | (∃ mesh, s.meshes.find? k = some mesh) ∧ k.quantity = q.quantity ∧ k.door = door ∧
    k.timeBucket = timeBucket s.params q.time}

/-- The keys that a question is answered from: those for its door, or those for all doors if there
are none. -/
def candidates (s : HazardStore α) (q : HazardQuery α) : Set HazardKey :=
  {k | k ∈ s.keysFor q q.door ∨ s.keysFor q q.door = ∅ ∧ k ∈ s.keysFor q none}

/-- The first key is nearer in height to `target`, or as near and lower. -/
def Nearer (target : Int) (k k' : HazardKey) : Prop :=
  (k.elevationBucket - target).natAbs < (k'.elevationBucket - target).natAbs ∨
    (k.elevationBucket - target).natAbs = (k'.elevationBucket - target).natAbs ∧
      k.elevationBucket < k'.elevationBucket

/-- The key is nearer to the question than all others that it may be answered from. -/
structure IsNearest (s : HazardStore α) (q : HazardQuery α) (k : HazardKey) : Prop where
  mem : k ∈ s.candidates q
  nearer : ∀ k' ∈ s.candidates q, k' ≠ k → Nearer (s.target q) k k'

lemma nearerBucket_iff {t : Int} :
    nearerBucket t k.elevationBucket k'.elevationBucket = true ↔ Nearer t k k' :=
  decide_eq_true_iff

lemma ranks_nearerBucket (t : Int) : MinHeap.Ranks fun k k' : HazardKey =>
    nearerBucket t k.elevationBucket k'.elevationBucket := by
  refine .of_lt (fun k => toLex ((k.elevationBucket - t).natAbs, k.elevationBucket))
    fun k k' => ?_
  rw [nearerBucket_iff, Prod.Lex.toLex_lt_toLex]
  rfl

/-- Keys for one quantity, door and time differ in height, so of any two one is nearer. -/
lemma nearer_of_not_nearerBucket {door : Option DoorId} (hk : k ∈ s.keysFor q door)
    (hk' : k' ∈ s.keysFor q door) (hne : k' ≠ k) {t : Int}
    (h : nearerBucket t k'.elevationBucket k.elevationBucket = false) : Nearer t k k' := by
  obtain ⟨quantity, e, door', time⟩ := k
  obtain ⟨quantity', e', door'', time'⟩ := k'
  obtain ⟨-, rfl, rfl, rfl⟩ := hk
  obtain ⟨-, rfl, rfl, rfl⟩ := hk'
  have hheight : e' ≠ e := by
    rintro rfl
    exact hne rfl
  rw [← Bool.not_eq_true, nearerBucket_iff] at h
  simp only [Nearer] at h ⊢
  omega

/-- Going through the keys finds the nearest one if there are any. -/
lemma nearestKey?_cases (s : HazardStore α) (q : HazardQuery α) (door : Option DoorId) :
    s.keysFor q door = ∅ ∧
      s.nearestKey? q.quantity door (timeBucket s.params q.time) (s.target q) = none ∨
    ∃ k ∈ s.keysFor q door,
      s.nearestKey? q.quantity door (timeBucket s.params q.time) (s.target q) = some k ∧
        ∀ k' ∈ s.keysFor q door, k' ≠ k → Nearer (s.target q) k k' := by
  have hmem (k : HazardKey) : (k ∈ s.meshes.keys.filter fun k => k.quantity = q.quantity ∧
      k.door = door ∧ k.timeBucket = timeBucket s.params q.time) ↔ k ∈ s.keysFor q door := by
    simp only [List.mem_filter, OrderedMap.mem_keys_iff, decide_eq_true_eq, keysFor,
      Set.mem_ofPred_eq]
  unfold nearestKey?
  cases hkeys : s.meshes.keys.filter fun k => k.quantity = q.quantity ∧ k.door = door ∧
      k.timeBucket = timeBucket s.params q.time with
  | nil =>
    refine .inl ⟨Set.eq_empty_iff_forall_notMem.2 fun k hk => ?_, rfl⟩
    rw [← hmem, hkeys] at hk
    exact List.not_mem_nil hk
  | cons k ks =>
    rw [hkeys] at hmem
    have hfirst := (ranks_nearerBucket (s.target q)).foldl_first k ks
    have hbest := (hmem _).1 (MinHeap.foldl_mem (fun k k' : HazardKey =>
      nearerBucket (s.target q) k.elevationBucket k'.elevationBucket) k ks)
    refine .inr ⟨_, hbest, rfl, fun k' hk' hne => ?_⟩
    exact nearer_of_not_nearerBucket hbest hk' hne (hfirst k' ((hmem k').2 hk'))

omit [Scalar α] in
lemma keyFor?_eq (s : HazardStore α) (q : HazardQuery α) (time : Nat) (t : Int) :
    s.keyFor? q time t =
      (s.nearestKey? q.quantity q.door time t).or (s.nearestKey? q.quantity none time t) := by
  unfold keyFor?
  cases q.door with
  | some door => rfl
  | none => exact Option.or_self.symm

/-- There is a nearest key for a question that may be answered from any at all. -/
lemma keyFor?_cases (s : HazardStore α) (q : HazardQuery α) :
    s.candidates q = ∅ ∧ s.keyFor? q (timeBucket s.params q.time) (s.target q) = none ∨
      ∃ k, s.IsNearest q k ∧
        s.keyFor? q (timeBucket s.params q.time) (s.target q) = some k := by
  rw [keyFor?_eq]
  rcases nearestKey?_cases s q q.door with ⟨hown, hnone⟩ | ⟨k, hk, hsome, hnearer⟩
  · have hshared : s.candidates q = s.keysFor q none := by
      ext k
      simp [candidates, hown]
    rw [hnone, Option.none_or]
    rcases nearestKey?_cases s q none with ⟨hempty, hnone'⟩ | ⟨k, hk, hsome, hnearer⟩
    · exact .inl ⟨hshared.trans hempty, hnone'⟩
    · exact .inr ⟨k, ⟨hshared ▸ hk, hshared ▸ hnearer⟩, hsome⟩
  · have hown : s.candidates q = s.keysFor q q.door := by
      ext k'
      simp [candidates, Set.nonempty_iff_ne_empty.1 ⟨k, hk⟩]
    rw [hsome, Option.some_or]
    exact .inr ⟨k, ⟨hown ▸ hk, hown ▸ hnearer⟩, rfl⟩

/-- A question is answered by the mesh under the nearest key, and not at all if there is none. -/
theorem lookup_cases (s : HazardStore α) (q : HazardQuery α) :
    s.candidates q = ∅ ∧ s.lookup q =
      .error (.notFound ⟨q.quantity, s.target q, q.door, timeBucket s.params q.time⟩) ∨
    ∃ k mesh, s.IsNearest q k ∧ s.meshes.find? k = some mesh ∧
      s.lookup q = .ok (Scalar.sanitize (mesh.valueAt q.position)) := by
  rcases keyFor?_cases s q with ⟨hempty, hnone⟩ | ⟨k, hnearest, hsome⟩
  · refine .inl ⟨hempty, ?_⟩
    unfold target at hnone ⊢
    simp only [lookup, hnone]
  · obtain ⟨mesh, hmesh⟩ : ∃ mesh, s.meshes.find? k = some mesh := by
      rcases hnearest.mem with ⟨hstored, -⟩ | ⟨-, hstored, -⟩
      · exact hstored
      · exact hstored
    refine .inr ⟨k, mesh, hnearest, hmesh, ?_⟩
    unfold target at hsome
    simp only [lookup, hsome, hmesh]

/-- A mesh for the door of the question at the very height is read. -/
lemma lookup_of_target (hk : k ∈ s.keysFor q q.door) (ht : k.elevationBucket = s.target q)
    (hmesh : s.meshes.find? k = some mesh) :
    s.lookup q = .ok (Scalar.sanitize (mesh.valueAt q.position)) := by
  have hmem : k ∈ s.candidates q := .inl hk
  rcases lookup_cases s q with ⟨hempty, -⟩ | ⟨k', mesh', hnearest, hmesh', hlookup⟩
  · rw [hempty] at hmem
    cases hmem
  · obtain rfl : k = k' := by
      by_contra hne
      have hnearer := hnearest.nearer k hmem hne
      simp only [Nearer, ht] at hnearer
      omega
    obtain rfl : mesh = mesh' := Option.some.inj (hmesh.symm.trans hmesh')
    exact hlookup

end HazardStore

section
open Exact

namespace HazardStore

variable {params : HazardParams Exact}

/-- The question at `p` that a slice has been computed for, asked by somebody whose eyes are at its
height. -/
noncomputable def questionAt (params : HazardParams Exact) (d : HazardSlice Exact)
    (p : Point Exact) : HazardQuery Exact :=
  ⟨p, d.elevation - params.eyeHeight, d.time, d.quantity, d.door⟩

/-- Eyes at the height of a slice are in its bucket. -/
lemma elevationBucket_eyes {e : Exact}
    (heyes : Scalar.isFinite e = true → Scalar.isFinite params.eyeHeight = true) :
    elevationBucket params (e - params.eyeHeight + params.eyeHeight) =
      elevationBucket params e := by
  cases hfinite : Scalar.isFinite e with
  | true =>
    obtain ⟨x, rfl⟩ := isFinite_iff.1 hfinite
    obtain ⟨y, hy⟩ := isFinite_iff.1 (heyes hfinite)
    rw [hy, real_sub_real, real_add_real, sub_add_cancel]
  | false =>
    have hlost : Scalar.isFinite (e - params.eyeHeight + params.eyeHeight) = false := by
      rw [← Bool.not_eq_true, isFinite_iff]
      rintro ⟨z, hz⟩
      obtain ⟨⟨y, hy⟩, -⟩ := real_of_add hz
      obtain ⟨⟨x, rfl⟩, -⟩ := real_of_sub hy
      cases hfinite
    simp only [elevationBucket, hlost, hfinite, Bool.and_false, Bool.false_eq_true, if_false]

/-- A store that has been filled with slices holds under each key the mesh of the last slice with
the key. A question is refused exactly if there is no slice that may answer it, and otherwise
answered by the nearest one with a real number that is not negative. So a slice that has not been
replaced answers the question that it was computed for, as long as subtracting the height of the
eyes and adding it again changes nothing. Slices with different keys may be put in in either
order. -/
theorem lookup_addAll (params : HazardParams Exact) (slices : List (HazardSlice Exact)) :
    let s := (empty params).addAll slices
    (∀ k mesh, s.meshes.find? k = some mesh ↔ ∃ before d after,
      slices = before ++ d :: after ∧ s.keyOf d = k ∧ d.mesh = mesh ∧
        ∀ d' ∈ after, s.keyOf d' ≠ k) ∧
    (∀ q, s.candidates q = ∅ ∧ s.lookup q =
        .error (.notFound ⟨q.quantity, s.target q, q.door, timeBucket params q.time⟩) ∨
      ∃ k mesh x, s.IsNearest q k ∧ s.meshes.find? k = some mesh ∧ s.lookup q = .ok (real x) ∧
        Scalar.sanitize (mesh.valueAt q.position) = real x ∧ 0 ≤ x) ∧
    (∀ before d after p, slices = before ++ d :: after →
      (∀ d' ∈ after, s.keyOf d' ≠ s.keyOf d) →
      (Scalar.isFinite d.elevation = true → Scalar.isFinite params.eyeHeight = true) →
      s.lookup (questionAt params d p) = .ok (Scalar.sanitize (d.mesh.valueAt p))) ∧
    ∀ d d', s.keyOf d ≠ s.keyOf d' → (s.add d).add d' = (s.add d').add d := by
  intro s
  have hparams : s.params = params := congrArg HazardStore.params (addAll_eq _ slices)
  have hstored (k : HazardKey) (mesh : HazardMesh Exact) :
      s.meshes.find? k = some mesh ↔ ∃ before d after, slices = before ++ d :: after ∧
        s.keyOf d = k ∧ d.mesh = mesh ∧ ∀ d' ∈ after, s.keyOf d' ≠ k := by
    simp only [s, keyOf_addAll]
    exact find?_addAll_empty params slices
  refine ⟨hstored, fun q => ?_, fun before d after p hslices hlater heyes => ?_,
    fun d d' => s.add_comm⟩
  · rcases lookup_cases s q with ⟨hempty, hlookup⟩ | ⟨k, mesh, hnearest, hmesh, hlookup⟩
    · rw [hparams] at hlookup
      exact .inl ⟨hempty, hlookup⟩
    · obtain ⟨x, hx, hsanitize⟩ := exists_sanitize (mesh.valueAt q.position)
      rw [hsanitize] at hlookup
      exact .inr ⟨k, mesh, x, hnearest, hmesh, hlookup, hsanitize, hx⟩
  · have hmesh := (hstored (s.keyOf d) d.mesh).2 ⟨before, d, after, hslices, rfl, rfl, hlater⟩
    refine lookup_of_target (q := questionAt params d p) ⟨⟨d.mesh, hmesh⟩, rfl, rfl, rfl⟩ ?_ hmesh
    unfold keyOf key target questionAt
    rw [hparams, elevationBucket_eyes heyes]

/-- Smoke at eye height at the start, the same everywhere. -/
noncomputable def smoke (door : Option DoorId) (x : ℝ) : HazardSlice Exact where
  quantity := .smokeDensity
  elevation := real 1
  door := door
  time := 0
  mesh := ⟨⟨0, 0⟩, real 1, .constant 1 1 (real x)⟩

noncomputable def evenParams : HazardParams Exact := ⟨real 1, real 1, real 1, real 1⟩

lemma valueAt_smoke (door : Option DoorId) (x : ℝ) (p : Point Exact) :
    (smoke door x).mesh.valueAt p = real x := by
  have hknot (v : Exact) : (smoke door x).mesh.knotAt v 1 = 0 := by
    simp [HazardMesh.knotAt]
  calc (smoke door x).mesh.valueAt p
      = (Lattice.constant 1 1 (real x)).getD ((smoke door x).mesh.knotAt (p.y - 0) 1,
          (smoke door x).mesh.knotAt (p.x - 0) 1) 0 := rfl
    _ = (Lattice.constant 1 1 (real x)).getD (0, 0) 0 := by rw [hknot, hknot]
    _ = real x := rfl

/-- Smoke that was computed for a door is read at the door although the mesh for all doors was
stored later. -/
theorem lookup_addAll_smoke :
    let s := (empty evenParams).addAll [smoke (some 3) 1, smoke none 0]
    (∀ d' ∈ [smoke none 0], s.keyOf d' ≠ s.keyOf (smoke (some 3) 1)) ∧
    Scalar.isFinite evenParams.eyeHeight = true ∧
    s.lookup (questionAt evenParams (smoke (some 3) 1) ⟨0, 0⟩) = .ok (real 1) ∧
    (s.add (smoke (some 3) 0)).add (smoke none 1) =
      (s.add (smoke none 1)).add (smoke (some 3) 0) := by
  intro s
  have hne (x y : ℝ) : s.keyOf (smoke none x) ≠ s.keyOf (smoke (some 3) y) := by
    intro h
    cases congrArg HazardKey.door h
  have hlater : ∀ d' ∈ [smoke none 0], s.keyOf d' ≠ s.keyOf (smoke (some 3) 1) := by
    intro d' hd'
    rw [List.mem_singleton.1 hd']
    exact hne 0 1
  obtain ⟨-, -, hread, hcomm⟩ := lookup_addAll evenParams [smoke (some 3) 1, smoke none 0]
  refine ⟨hlater, rfl, ?_, hcomm _ _ (hne 1 0).symm⟩
  rw [hread [] _ _ _ rfl hlater fun _ => rfl, valueAt_smoke]
  rw [sanitize_real, max_eq_left zero_le_one]

end HazardStore

end

end Egress
