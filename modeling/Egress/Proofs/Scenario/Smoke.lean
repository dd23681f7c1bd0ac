import Egress.Proofs.Geometry
import Egress.Proofs.Hazard.Store
import Egress.Proofs.Outcome
import Egress.Scenario.Office

/-!
# Smoke at every time

The smoke of the office is computed by adding up update intervals, and times are looked up by
dividing them by the interval. Without rounding the two agree: each turn of the computation fills a
bucket of its own, and no time has another bucket than these, be it negative, infinite or no number.
Smoke grows from bucket to bucket at every knot, so nobody sees it become thinner.
-/
namespace Egress
open Exact

/-- A time held between zero and the final time, at which what is no number is held too. -/
noncomputable def Exact.held (final : ℝ) : Exact → ℝ
  | real x => max (min x final) 0
  | negInf => 0
  | posInf | nan => final

section
variable {final : ℝ} {time time' : Exact}

lemma Exact.held_spec (hfinal : 0 ≤ final) (time : Exact) :
    Scalar.larger (Scalar.smaller time (real final)) 0 = real (held final time) ∧
      0 ≤ held final time ∧ held final time ≤ final := by
  have hlast : Scalar.larger (real final) 0 = real final := by
    rw [zero_eq, larger_real, max_eq_left hfinal]
  cases time with
  | real x =>
    rw [smaller_real, zero_eq, larger_real]
    exact ⟨rfl, le_max_right _ _, max_le (min_le_right _ _) hfinal⟩
  | posInf =>
    have hsmaller : Scalar.smaller posInf (real final) = real final := if_pos (real_lt_posInf final)
    rw [hsmaller]
    exact ⟨hlast, hfinal, le_rfl⟩
  | negInf =>
    have hsmaller : Scalar.smaller negInf (real final) = negInf := if_neg (not_lt_negInf _)
    rw [hsmaller, zero_eq]
    exact ⟨if_pos (negInf_lt_real 0), le_rfl, hfinal⟩
  | nan => exact ⟨hlast, hfinal, le_rfl⟩

lemma Exact.held_mono (hfinal : 0 ≤ final) (h : time ≤ time') :
    held final time ≤ held final time' := by
  cases time with
  | real x =>
    cases time' with
    | real y => exact max_le_max (min_le_min (real_le_real.1 h) le_rfl) le_rfl
    | posInf => exact (held_spec hfinal (real x)).2.2
    | negInf | nan => exact False.elim h
  | posInf => cases time' <;> first | exact le_rfl | exact False.elim h
  | negInf => exact (held_spec hfinal time').2.1
  | nan => cases time' <;> exact False.elim h

end

namespace HazardStore

/-- The number of whole intervals up to a time, none if the interval is not positive. -/
noncomputable def bucketOf (interval t : ℝ) : ℕ := if 0 < interval then ⌊t / interval⌋₊ else 0

variable {interval final t t' : ℝ} {eyes height : Exact} {n : ℕ}

lemma bucketOf_mono (h : t ≤ t') : bucketOf interval t ≤ bucketOf interval t' := by
  unfold bucketOf
  split
  · rename_i hpos
    exact Nat.floor_mono (div_le_div_of_nonneg_right h hpos.le)
  · exact le_rfl

/-- The times of the turns up to a time are no later. -/
lemma mul_le_of_le_bucketOf (ht : 0 ≤ t) (h : n ≤ bucketOf interval t) : n * interval ≤ t := by
  unfold bucketOf at h
  split at h
  · rename_i hpos
    rw [← le_div_iff₀ hpos]
    exact (Nat.le_floor_iff (div_nonneg ht hpos.le)).1 h
  · obtain rfl : n = 0 := by omega
    simpa using ht

lemma lt_mul_of_bucketOf_lt (hpos : 0 < interval) (h : bucketOf interval t < n) :
    t < n * interval := by
  rw [bucketOf, if_pos hpos] at h
  rw [← div_lt_iff₀ hpos]
  exact Nat.lt_of_floor_lt h

lemma bucketOf_le_toCount (interval t : ℝ) :
    bucketOf interval t ≤ Scalar.toCount (real t / real interval) := by
  unfold bucketOf
  split
  · rename_i hpos
    rw [real_div_real _ hpos.ne']
    exact le_rfl
  · omega

lemma bucketOf_mul (hpos : 0 < interval) (n : ℕ) : bucketOf interval (n * interval) = n := by
  rw [bucketOf, if_pos hpos, mul_div_cancel_right₀ _ hpos.ne', Nat.floor_natCast]

/-- The later a time is, the later is the turn whose bucket it has. -/
lemma bucketOf_mul_mono (h : t ≤ t') :
    bucketOf interval t * interval ≤ bucketOf interval t' * interval := by
  by_cases hpos : 0 < interval
  · exact mul_le_mul_of_nonneg_right (Nat.cast_le.2 (bucketOf_mono h)) hpos.le
  · simp [bucketOf, hpos]

lemma bucketOf_mul_nonneg : 0 ≤ bucketOf interval t * interval := by
  by_cases hpos : 0 < interval
  · positivity
  · simp [bucketOf, hpos]

/-- No time has a bucket after that of the final time. -/
lemma bucketOf_held_le (hfinal : 0 ≤ final) (time : Exact) :
    bucketOf interval (held final time) ≤ bucketOf interval final :=
  bucketOf_mono (held_spec hfinal time).2.2

section
variable (hfinal : 0 ≤ final) (hcount : 0 < interval → final < wordCount 32 * interval)

include hfinal hcount

/-- The bucket of any time at all is that of a time between zero and the final time. -/
lemma timeBucket_eq (time : Exact) : timeBucket ⟨real interval, real final, eyes, height⟩ time =
    bucketOf interval (held final time) := by
  obtain ⟨hheld, -, hle⟩ := held_spec hfinal time
  have hnumber : Scalar.isNaN (real (held final time)) = false := rfl
  rw [zero_eq] at hheld
  unfold timeBucket bucketOf
  by_cases hpos : 0 < interval
  · have hcut : ⌊held final time / interval⌋₊ ≤ wordCount 32 - 1 := by
      have hlt : ⌊held final time / interval⌋₊ < wordCount 32 := by
        rw [Nat.floor_lt' (by decide), div_lt_iff₀ hpos]
        exact hle.trans_lt (hcount hpos)
      omega
    simp only [zero_eq, real_lt_real, hpos, if_true, hheld, hnumber, Bool.false_eq_true, if_false,
      real_div_real _ hpos.ne', Scalar.toCount32, toCount_floor]
    exact min_eq_left hcut
  · simp only [zero_eq, real_lt_real, hpos, if_false]

/-- Each turn up to the final time has the bucket that counts it. -/
lemma timeBucket_turn (hn : n ≤ bucketOf interval final) :
    timeBucket ⟨real interval, real final, eyes, height⟩ (real (n * interval)) = n := by
  rw [timeBucket_eq hfinal hcount]
  by_cases hpos : 0 < interval
  · have hturn := mul_le_of_le_bucketOf hfinal hn
    have hnonneg : 0 ≤ n * interval := by positivity
    rw [held, min_eq_left hturn, max_eq_left hnonneg, bucketOf_mul hpos]
  · simp only [bucketOf, hpos, if_false] at hn ⊢
    omega

lemma timeBucket_final : timeBucket ⟨real interval, real final, eyes, height⟩ (real final) =
    bucketOf interval final := by
  rw [timeBucket_eq hfinal hcount, held, min_self, max_eq_left hfinal]

end

end HazardStore

namespace Office
open HazardStore

variable {interval final t t' : ℝ} {eyes height : Exact} {n : ℕ}

/-- The share to which the smoke has grown. -/
noncomputable def growth (final t : ℝ) : ℝ := min (t / max final 1) 1

lemma growth_mono (h : t ≤ t') : growth final t ≤ growth final t' := by
  have hpos : 0 < max final 1 := lt_max_of_lt_right one_pos
  exact min_le_min (div_le_div_of_nonneg_right h hpos.le) le_rfl

lemma growth_nonneg (h : 0 ≤ t) : 0 ≤ growth final t := by
  have hpos : 0 < max final 1 := lt_max_of_lt_right one_pos
  exact le_min (div_nonneg h hpos.le) zero_le_one

/-- How far a knot is from the source of the smoke. -/
noncomputable def fromSource (c : ℕ × ℕ) : ℝ :=
  Dist.dist (⟨c.2, c.1⟩ : ℂ) ⟨(17 : ℕ), (3 : ℕ)⟩

/-- The mesh of smoke that has grown to a share. -/
noncomputable def plume (share : ℝ) : HazardMesh Exact :=
  ⟨⟨0, 0⟩, 1, .ofFn 13 18 fun c => thickness (real share) (real (fromSource c))⟩

lemma thickness_real (share distance : ℝ) : thickness (real share) (real distance) =
    real ((3 : ℕ) * Real.exp (-distance / (4 : ℕ)) * share) := by
  have hfour : ((4 : ℕ) : ℝ) ≠ 0 := Nat.cast_ne_zero.2 (by omega)
  show real (3 : ℕ) * real share * Scalar.exp (-real distance / real (4 : ℕ)) = _
  rw [neg_real, real_div_real _ hfour, exp_real, real_mul_real, real_mul_real, mul_right_comm]

lemma smokeMesh_eq (t : ℝ) : smokeMesh ⟨real interval, real final, eyes, height⟩ (real t) =
    .ok (plume (growth final t)) := by
  have hgrowth : Scalar.smaller (real t / Scalar.larger (real final) 1) 1 =
      real (growth final t) := by
    have hpos : 0 < max final 1 := lt_max_of_lt_right one_pos
    rw [one_eq, larger_real, real_div_real _ hpos.ne', smaller_real, growth]
  obtain ⟨source, hmesh, hsource⟩ : ∃ source : Point Exact,
      smokeMesh ⟨real interval, real final, eyes, height⟩ (real t) =
        HazardMesh.new ⟨0, 0⟩ 1 (.ofFn 13 18 fun c =>
          thickness (Scalar.smaller (real t / Scalar.larger (real final) 1) 1)
            ((⟨(c.2 : Exact), (c.1 : Exact)⟩ : Point Exact).dist source)) ∧
      source = ⟨real (17 : ℕ), real (3 : ℕ)⟩ := ⟨_, rfl, rfl⟩
  have hdist (c : ℕ × ℕ) : (⟨(c.2 : Exact), (c.1 : Exact)⟩ : Point Exact).dist source =
      real (fromSource c) := by
    rw [hsource, natCast_eq, natCast_eq, Point.dist_eq_real, fromSource]
  have hcell : (0 : Exact) < 1 ∧ Scalar.isFinite (1 : Exact) = true := ⟨zero_lt_one, rfl⟩
  simp only [hmesh, hgrowth, hdist]
  simp [HazardMesh.new, hcell, plume]

/-- What a position reads grows in proportion with the smoke. -/
lemma exists_valueAt_plume (p : Point Exact) :
    ∃ x, 0 ≤ x ∧ ∀ share, (plume share).valueAt p = real (x * share) := by
  have hknot (share : ℝ) (v : Exact) (n : ℕ) :
      (plume share).knotAt v n = (plume 0).knotAt v n := by
    unfold HazardMesh.knotAt
    rfl
  obtain ⟨c, hc⟩ : ∃ c, ∀ share, (plume share).valueAt p = (plume share).values.getD c 0 := by
    refine ⟨((plume 0).knotAt (p.y - 0) 13, (plume 0).knotAt (p.x - 0) 18), fun share => ?_⟩
    rw [← hknot share, ← hknot share]
    rfl
  by_cases hmem : c.1 < 13 ∧ c.2 < 18
  · refine ⟨(3 : ℕ) * Real.exp (-fromSource c / (4 : ℕ)), by positivity, fun share => ?_⟩
    rw [hc, plume, Lattice.getD_ofFn _ hmem, thickness_real]
  · refine ⟨0, le_rfl, fun share => ?_⟩
    have hnot : ¬(plume share).values.Has c := hmem
    rw [hc, Lattice.getD_of_not_has _ hnot, zero_mul, zero_eq]

/-- What the turn with a number stores. -/
noncomputable def turnSlice (interval final : ℝ) (eyes : Exact) (n : ℕ) : HazardSlice Exact where
  quantity := .smokeDensity
  elevation := eyes
  door := none
  time := real (n * interval)
  mesh := plume (growth final (n * interval))

/-- The store after a turn for each bucket up to that of the final time. -/
noncomputable def smokeStore (interval final : ℝ) (eyes height : Exact) : HazardStore Exact :=
  (HazardStore.empty ⟨real interval, real final, eyes, height⟩).addAll
    ((List.range (bucketOf interval final + 1)).map (turnSlice interval final eyes))

/-- A turn stores its slice, and is the last one without an interval. -/
lemma addSmoke_turn {store : HazardStore Exact} (fuel : ℕ)
    (hparams : store.params = ⟨real interval, real final, eyes, height⟩)
    (hturn : n * interval ≤ final) :
    addSmoke (fuel + 1) store (real (n * interval)) = if 0 < interval then
      addSmoke fuel (store.add (turnSlice interval final eyes n)) (real ((n + 1 : ℕ) * interval))
      else .ok (store.add (turnSlice interval final eyes n)) := by
  have htime : real (n * interval) + real interval = real ((n + 1 : ℕ) * interval) := by
    rw [real_add_real, Nat.cast_succ, add_one_mul]
  have hadd : store.insert (store.key .smokeDensity eyes none (real (n * interval)))
      (plume (growth final (n * interval))) = store.add (turnSlice interval final eyes n) := rfl
  have hinterval : (store.add (turnSlice interval final eyes n)).params.updateInterval =
      real interval := congrArg HazardParams.updateInterval hparams
  rw [addSmoke, hparams, if_pos (real_le_real.2 hturn)]
  simp only [smokeMesh_eq, ok_bind, hadd, hinterval, htime, zero_eq, real_lt_real]
  rfl

/-- The turns from one on store their slices, and then end by themselves. -/
lemma addSmoke_eq {store : HazardStore Exact} {fuel : ℕ} (hfinal : 0 ≤ final) (hpos : 0 < interval)
    (hparams : store.params = ⟨real interval, real final, eyes, height⟩)
    (hfuel : bucketOf interval final + 2 ≤ fuel + n) (hn : n ≤ bucketOf interval final + 1) :
    addSmoke fuel store (real (n * interval)) = .ok (store.addAll
      ((List.range' n (bucketOf interval final + 1 - n)).map (turnSlice interval final eyes))) := by
  induction fuel generalizing store n with
  | zero => omega
  | succ fuel ih =>
    by_cases hlast : n = bucketOf interval final + 1
    · have hlate : ¬real (n * interval) ≤ store.params.finalTime := by
        rw [hparams, real_le_real, not_le]
        exact lt_mul_of_bucketOf_lt hpos (by omega)
      rw [addSmoke, if_neg hlate, hlast, Nat.sub_self]
      rfl
    · have hle : n ≤ bucketOf interval final := by omega
      have hrest : bucketOf interval final + 1 - n = bucketOf interval final + 1 - (n + 1) + 1 := by
        omega
      have hnext := @ih (n + 1) (store.add (turnSlice interval final eyes n)) hparams (by omega)
        (by omega)
      rw [addSmoke_turn fuel hparams (mul_le_of_le_bucketOf hfinal hle), if_pos hpos, hnext, hrest,
        List.range'_succ, List.map_cons]
      rfl

lemma addSmoke_eq_smokeStore {fuel : ℕ} (hfinal : 0 ≤ final)
    (hfuel : bucketOf interval final + 2 ≤ fuel) :
    addSmoke fuel (.empty ⟨real interval, real final, eyes, height⟩) 0 =
      .ok (smokeStore interval final eyes height) := by
  have hstart : (0 : Exact) = real ((0 : ℕ) * interval) := by rw [Nat.cast_zero, zero_mul, zero_eq]
  rw [hstart]
  by_cases hpos : 0 < interval
  · rw [addSmoke_eq hfinal hpos rfl (by omega) (by omega), smokeStore, Nat.sub_zero,
      List.range_eq_range']
  · obtain ⟨fuel, rfl⟩ : ∃ fuel', fuel = fuel' + 1 := ⟨fuel - 1, by omega⟩
    have hone : bucketOf interval final = 0 := if_neg hpos
    rw [addSmoke_turn fuel rfl (by simpa using hfinal), if_neg hpos, smokeStore, hone]
    rfl

/-- The key of the mesh of a turn. -/
noncomputable def turnKey (interval final : ℝ) (eyes height : Exact) (n : ℕ) : HazardKey :=
  ⟨.smokeDensity, elevationBucket ⟨real interval, real final, eyes, height⟩ eyes, none, n⟩

lemma params_smokeStore : (smokeStore interval final eyes height).params =
    ⟨real interval, real final, eyes, height⟩ := by
  rw [smokeStore, addAll_eq, HazardStore.empty]

section
variable (hfinal : 0 ≤ final) (hcount : 0 < interval → final < wordCount 32 * interval)

include hfinal hcount

lemma keyOf_turnSlice (hn : n ≤ bucketOf interval final) :
    (HazardStore.empty ⟨real interval, real final, eyes, height⟩).keyOf
      (turnSlice interval final eyes n) = turnKey interval final eyes height n := by
  have hturn : timeBucket ⟨real interval, real final, eyes, height⟩ (real (n * interval)) = n :=
    timeBucket_turn hfinal hcount hn
  simp only [keyOf, HazardStore.key, HazardStore.empty, turnSlice, hturn, turnKey]

lemma mem_turns_iff {key : HazardKey} {mesh : HazardMesh Exact} :
    (key, mesh) ∈ (((List.range (bucketOf interval final + 1)).map
      (turnSlice interval final eyes)).map fun d =>
        ((HazardStore.empty ⟨real interval, real final, eyes, height⟩).keyOf d, d.mesh)) ↔
    ∃ n ≤ bucketOf interval final, key = turnKey interval final eyes height n ∧
      mesh = plume (growth final (n * interval)) := by
  constructor
  · intro h
    obtain ⟨d, hd, heq⟩ := List.mem_map.1 h
    obtain ⟨n, hn, rfl⟩ := List.mem_map.1 hd
    obtain ⟨rfl, rfl⟩ := Prod.mk.inj heq
    have hle : n ≤ bucketOf interval final := Nat.lt_succ_iff.1 (List.mem_range.1 hn)
    exact ⟨n, hle, keyOf_turnSlice hfinal hcount hle, rfl⟩
  · rintro ⟨n, hn, rfl, rfl⟩
    rw [← keyOf_turnSlice hfinal hcount hn]
    apply List.mem_map_of_mem (f := fun d : HazardSlice Exact => (_, d.mesh))
    apply List.mem_map_of_mem
    simpa [Nat.lt_succ_iff] using hn

/-- The store has the mesh of each turn, and nothing else. -/
lemma find?_smokeStore {key : HazardKey} {mesh : HazardMesh Exact} :
    (smokeStore interval final eyes height).meshes.find? key = some mesh ↔
      ∃ n ≤ bucketOf interval final, key = turnKey interval final eyes height n ∧
        mesh = plume (growth final (n * interval)) := by
  rw [smokeStore, meshes_addAll_empty]
  constructor
  · intro h
    exact (mem_turns_iff hfinal hcount).1 (OrderedMap.mem_of_find?_ofList h)
  · intro h
    obtain ⟨mesh', hmesh'⟩ :=
      OrderedMap.exists_find?_ofList ((mem_turns_iff hfinal hcount).2 h)
    -- what is found under the key is of the same turn, for turns differ in their buckets
    obtain ⟨n', -, rfl, rfl⟩ :=
      (mem_turns_iff hfinal hcount).1 (OrderedMap.mem_of_find?_ofList hmesh')
    obtain ⟨n, -, hsame, rfl⟩ := h
    obtain rfl : n' = n := congrArg HazardKey.timeBucket hsame
    exact hmesh'

lemma mem_keys_smokeStore {key : HazardKey} :
    key ∈ (smokeStore interval final eyes height).meshes.keys ↔
      ∃ n ≤ bucketOf interval final, key = turnKey interval final eyes height n := by
  rw [OrderedMap.mem_keys_iff]
  constructor
  · rintro ⟨mesh, hmesh⟩
    obtain ⟨n, hn, hkey, -⟩ := (find?_smokeStore hfinal hcount).1 hmesh
    exact ⟨n, hn, hkey⟩
  · rintro ⟨n, hn, hkey⟩
    exact ⟨_, (find?_smokeStore hfinal hcount).2 ⟨n, hn, hkey, rfl⟩⟩

lemma nodup_timeBuckets :
    ((smokeStore interval final eyes height).meshes.keys.map (·.timeBucket)).Nodup := by
  apply List.Nodup.map_on _ (OrderedMap.nodup_keys _)
  intro key hkey key' hkey' hsame
  obtain ⟨n, -, rfl⟩ := (mem_keys_smokeStore hfinal hcount).1 hkey
  obtain ⟨n', -, rfl⟩ := (mem_keys_smokeStore hfinal hcount).1 hkey'
  obtain rfl : n = n' := hsame
  rfl

/-- The buckets with a mesh are those that times have. -/
lemma mem_timeBuckets_iff :
    n ∈ (smokeStore interval final eyes height).meshes.keys.map (·.timeBucket) ↔
      ∃ time, timeBucket ⟨real interval, real final, eyes, height⟩ time = n := by
  rw [List.mem_map]
  constructor
  · rintro ⟨key, hkey, rfl⟩
    obtain ⟨n, hn, rfl⟩ := (mem_keys_smokeStore hfinal hcount).1 hkey
    exact ⟨real (n * interval), timeBucket_turn hfinal hcount hn⟩
  · rintro ⟨time, rfl⟩
    rw [timeBucket_eq hfinal hcount]
    exact ⟨_, (mem_keys_smokeStore hfinal hcount).2 ⟨_, bucketOf_held_le hfinal time, rfl⟩, rfl⟩

/-- A question about smoke may be answered from some mesh: from one for all doors, should there be
none for its door. -/
lemma candidates_smokeStore_ne_empty {q : HazardQuery Exact} (hq : q.quantity = .smokeDensity) :
    (smokeStore interval final eyes height).candidates q ≠ ∅ := by
  intro hnone
  have hshared : turnKey interval final eyes height (bucketOf interval (held final q.time)) ∈
      (smokeStore interval final eyes height).keysFor q none := by
    refine ⟨OrderedMap.mem_keys_iff.1 ?_, hq.symm, rfl, ?_⟩
    · exact (mem_keys_smokeStore hfinal hcount).2 ⟨_, bucketOf_held_le hfinal q.time, rfl⟩
    · rw [params_smokeStore, timeBucket_eq hfinal hcount, turnKey]
  by_cases hown : (smokeStore interval final eyes height).keysFor q q.door = ∅
  · exact Set.eq_empty_iff_forall_notMem.1 hnone _ (.inr ⟨hown, hshared⟩)
  · obtain ⟨key, hkey⟩ := Set.nonempty_iff_ne_empty.2 hown
    exact Set.eq_empty_iff_forall_notMem.1 hnone key (.inl hkey)

/-- Smoke is read from the mesh of the turn whose bucket the time has, whatever the height and the
door. -/
lemma lookup_smokeStore {q : HazardQuery Exact} (hq : q.quantity = .smokeDensity) :
    (smokeStore interval final eyes height).lookup q =
      .ok (Scalar.sanitize ((plume (growth final
        (bucketOf interval (held final q.time) * interval))).valueAt q.position)) := by
  rcases lookup_cases (smokeStore interval final eyes height) q with
    ⟨hnone, -⟩ | ⟨key, mesh, hnearest, hmesh, hlookup⟩
  · exact absurd hnone (candidates_smokeStore_ne_empty hfinal hcount hq)
  · obtain ⟨n, -, rfl, rfl⟩ := (find?_smokeStore hfinal hcount).1 hmesh
    have htime : n = timeBucket (smokeStore interval final eyes height).params q.time := by
      rcases hnearest.mem with hown | ⟨-, hshared⟩
      · exact hown.2.2.2
      · exact hshared.2.2.2
    rw [hlookup, htime, params_smokeStore, timeBucket_eq hfinal hcount]

/-- At a position smoke is read in proportion to its growth. -/
lemma exists_lookup_smokeStore (p : Point Exact) :
    ∃ x, 0 ≤ x ∧ ∀ q, q.quantity = .smokeDensity → q.position = p →
      (smokeStore interval final eyes height).lookup q = .ok (real (x * growth final
        (bucketOf interval (held final q.time) * interval))) := by
  obtain ⟨x, hx, hvalue⟩ := exists_valueAt_plume p
  refine ⟨x, hx, ?_⟩
  rintro q hq rfl
  rw [lookup_smokeStore hfinal hcount hq, hvalue, sanitize_real, max_eq_left]
  exact mul_nonneg hx (growth_nonneg bucketOf_mul_nonneg)

/-- Smoke that is read later at the same position is no thinner. -/
lemma lookup_smokeStore_mono {q q' : HazardQuery Exact} {v v' : Exact}
    (hq : q.quantity = .smokeDensity) (hq' : q'.quantity = .smokeDensity)
    (hposition : q'.position = q.position) (htime : q.time ≤ q'.time)
    (hv : (smokeStore interval final eyes height).lookup q = .ok v)
    (hv' : (smokeStore interval final eyes height).lookup q' = .ok v') : v ≤ v' := by
  obtain ⟨x, hx, hlookup⟩ := exists_lookup_smokeStore hfinal hcount q.position
  rw [hlookup q hq rfl, Except.ok.injEq] at hv
  rw [hlookup q' hq' hposition, Except.ok.injEq] at hv'
  rw [← hv, ← hv', real_le_real]
  apply mul_le_mul_of_nonneg_left _ hx
  exact growth_mono (bucketOf_mul_mono (held_mono hfinal htime))

end

/-- The computation of the smoke ends by itself, however many more turns it may take, and stores one
mesh for each bucket that any time has. So every question about smoke is answered, with a real
number that is not negative, and at each position with no smaller one at a later time, be the
update interval positive or not and whether or not it divides the final time. -/
theorem smoke_covers {params : HazardParams Exact}
    (hinterval : Scalar.isFinite params.updateInterval = true)
    (hfinite : Scalar.isFinite params.finalTime = true) (hfinal : 0 ≤ params.finalTime)
    (hcount : 0 < params.updateInterval →
      params.finalTime < (wordCount 32 : Exact) * params.updateInterval) :
    ∃ store, smoke params = .ok store ∧ store.params = params ∧
      (∀ fuel, timeBucket params params.finalTime + 2 ≤ fuel →
        addSmoke fuel (.empty params) 0 = .ok store) ∧
      (store.meshes.keys.map (·.timeBucket)).Nodup ∧
      (∀ n, n ∈ store.meshes.keys.map (·.timeBucket) ↔ ∃ time, timeBucket params time = n) ∧
      (∀ q, q.quantity = .smokeDensity → ∃ x, 0 ≤ x ∧ store.lookup q = .ok (real x)) ∧
      ∀ q q' v v', q.quantity = .smokeDensity → q'.quantity = .smokeDensity →
        q'.position = q.position → q.time ≤ q'.time →
        store.lookup q = .ok v → store.lookup q' = .ok v' → v ≤ v' := by
  obtain ⟨_, _, eyes, height⟩ := params
  obtain ⟨interval, rfl⟩ := isFinite_iff.1 hinterval
  obtain ⟨final, rfl⟩ := isFinite_iff.1 hfinite
  rw [zero_eq, real_le_real] at hfinal
  rw [zero_eq, natCast_eq, real_mul_real, real_lt_real, real_lt_real] at hcount
  refine ⟨smokeStore interval final eyes height, ?_, params_smokeStore, ?_,
    nodup_timeBuckets hfinal hcount, fun n => mem_timeBuckets_iff hfinal hcount, ?_,
    fun q q' v v' => lookup_smokeStore_mono hfinal hcount⟩
  · have hfuel : bucketOf interval final + 2 ≤
        2 * Scalar.toCount (real final / real interval) + 2 := by
      have hle := bucketOf_le_toCount interval final
      omega
    exact addSmoke_eq_smokeStore hfinal hfuel
  · intro fuel hfuel
    rw [timeBucket_final hfinal hcount] at hfuel
    exact addSmoke_eq_smokeStore hfinal hfuel
  · intro q hq
    obtain ⟨x, hx, hlookup⟩ := exists_lookup_smokeStore hfinal hcount q.position
    exact ⟨_, mul_nonneg hx (growth_nonneg bucketOf_mul_nonneg), hlookup q hq rfl⟩

/-- With an interval of two seconds and a final time of five, the mesh for four seconds is the last
one, and answers for all later times. -/
theorem smoke_covers_five : Scalar.isFinite (real 2) = true ∧ Scalar.isFinite (real 5) = true ∧
    0 ≤ real 5 ∧ (0 < real 2 → real 5 < (wordCount 32 : Exact) * real 2) ∧
    ∃ store v v', smoke ⟨real 2, real 5, real 1, real 1⟩ = .ok store ∧
      2 ∈ store.meshes.keys.map (·.timeBucket) ∧ 3 ∉ store.meshes.keys.map (·.timeBucket) ∧
      store.lookup ⟨⟨0, 0⟩, 0, real 1, .smokeDensity, some 3⟩ = .ok v ∧
      store.lookup ⟨⟨0, 0⟩, 1, real 60, .smokeDensity, none⟩ = .ok v' ∧ v ≤ v' := by
  have hfinal : (0 : ℝ) ≤ 5 := by norm_num
  have hnonneg : (0 : Exact) ≤ real 5 := by rwa [zero_eq, real_le_real]
  have hcount : (5 : ℝ) < wordCount 32 * 2 := by
    rw [wordCount]
    norm_num
  have hcount' : (0 : Exact) < real 2 → real 5 < (wordCount 32 : Exact) * real 2 := by
    intro _
    rwa [natCast_eq, real_mul_real, real_lt_real]
  have htwo : bucketOf 2 5 = 2 := by
    rw [bucketOf, if_pos two_pos, Nat.floor_eq_iff (by norm_num)]
    norm_num
  let params : HazardParams Exact := ⟨real 2, real 5, real 1, real 1⟩
  have hbucket (time : Exact) : timeBucket params time = bucketOf 2 (held 5 time) :=
    timeBucket_eq hfinal (fun _ => hcount) time
  have hlast : timeBucket params (real 5) = 2 :=
    (timeBucket_final hfinal fun _ => hcount).trans htwo
  have hle (time : Exact) : timeBucket params time ≤ 2 := by
    rw [hbucket, ← htwo]
    exact bucketOf_held_le hfinal time
  obtain ⟨store, hsmoke, -, -, -, hbuckets, hread, hmono⟩ :=
    @smoke_covers params rfl rfl hnonneg hcount'
  let q : HazardQuery Exact := ⟨⟨0, 0⟩, 0, real 1, .smokeDensity, some 3⟩
  let q' : HazardQuery Exact := ⟨⟨0, 0⟩, 1, real 60, .smokeDensity, none⟩
  obtain ⟨x, -, hx⟩ := hread q rfl
  obtain ⟨x', -, hx'⟩ := hread q' rfl
  have htimes : q.time ≤ q'.time := real_le_real.2 (by norm_num)
  refine ⟨rfl, rfl, hnonneg, hcount', store, real x, real x', hsmoke, (hbuckets 2).2 ⟨_, hlast⟩, ?_,
    hx, hx', hmono q q' _ _ rfl rfl rfl htimes hx hx'⟩
  intro hthree
  obtain ⟨time, htime⟩ := (hbuckets 3).1 hthree
  have htwo' := hle time
  omega

end Office
end Egress
