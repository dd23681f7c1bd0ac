import Egress.Field.FloorFields
import Egress.Proofs.Field.Target

/-!
# Fields solved by several workers

The doors of a zone are dealt out to workers in turn, each of which solves the fields towards its
share. Whatever their number is, every door is in one share, so the fields are those that are
solved one after the other. Where a plan has been laid out none of them fails, since every door of
it has cells to start from.
-/
namespace Egress

namespace ZoneFields

section
variable {β : Type} {workers : ℕ}

/-- What has numbers below `n`, number by number, is all of it in another order. -/
lemma perm_flatMap_filter (n : ℕ) (number : β → ℕ) (xs : List β) :
    ((List.range n).flatMap fun k => xs.filter fun x => number x = k).Perm
      (xs.filter fun x => number x < n) := by
  induction n with
  | zero => simp
  | succ n ih =>
    have hlower : (xs.filter fun x => number x < n + 1).filter (fun x => number x < n) =
        xs.filter fun x => number x < n := by
      rw [List.filter_filter]
      refine List.filter_congr fun x _ => ?_
      rw [← Bool.decide_and, decide_eq_decide]
      omega
    have hlast : (xs.filter fun x => number x < n + 1).filter (fun x => !decide (number x < n)) =
        xs.filter fun x => number x = n := by
      rw [List.filter_filter]
      refine List.filter_congr fun x _ => ?_
      rw [← decide_not, ← Bool.decide_and, decide_eq_decide]
      omega
    rw [List.range_succ, List.flatMap_append, List.flatMap_singleton, ← hlast]
    refine (ih.append_right _).trans ?_
    rw [← hlower]
    exact List.filter_append_perm _ _

/-- The shares of all workers make up what is shared out. -/
theorem perm_flatMap_share (hworkers : 0 < workers) (xs : List β) :
    ((List.range workers).flatMap fun k => share workers k xs).Perm xs := by
  have hall : (xs.zipIdx.filter fun x => x.2 % workers < workers) = xs.zipIdx :=
    List.filter_eq_self.2 fun x _ => decide_eq_true (Nat.mod_lt x.2 hworkers)
  have hdealt := (perm_flatMap_filter workers (fun x => x.2 % workers) xs.zipIdx).map Prod.fst
  rw [List.map_flatMap, hall, List.zipIdx_map_fst] at hdealt
  exact hdealt

lemma mem_iff_exists_share (hworkers : 0 < workers) {xs : List β} {x : β} :
    x ∈ xs ↔ ∃ k < workers, x ∈ share workers k xs := by
  rw [← (perm_flatMap_share hworkers xs).mem_iff]
  simp only [List.mem_flatMap, List.mem_range]

end

variable {α : Type} [Scalar α] {processors : ℕ} {g : ZoneGrid α} {speed : Lattice α}
  {params : FieldParams α} {mode : SeedMode} {fields : OrderedMap DoorId (DoorField α)}

/-- Solves the fields towards all doors of a zone one after the other. -/
def solveInTurn (g : ZoneGrid α) (speed : Lattice α) (mode : SeedMode) :
    Except (FieldError α) (OrderedMap DoorId (DoorField α)) := do
  let solved ← g.targets.keys.mapM fun d => g.solveTarget speed d mode
  return .ofList (solved.map fun f => (f.target, f))

lemma target_of_solveTarget {d : DoorId} {field : DoorField α}
    (h : g.solveTarget speed d mode = .ok field) : field.target = d := by
  unfold ZoneGrid.solveTarget at h
  split at h
  · cases h
  · simp only at h
    split at h
    · cases h
    · rw [← Except.ok.inj h]

/-- Only towards targets of the zone are fields solved. -/
lemma mem_keys_of_solveTarget {d : DoorId} {field : DoorField α}
    (h : g.solveTarget speed d mode = .ok field) : d ∈ g.targets.keys := by
  unfold ZoneGrid.solveTarget at h
  split at h
  · cases h
  · rename_i line hline
    exact OrderedMap.mem_keys_iff.2 ⟨line, hline⟩

/-- Whatever order the fields of all targets are stored in, each target has its own. -/
lemma find?_ofList_solved {solved : List (DoorField α)}
    (hsolved : ∀ f ∈ solved, ∃ d, g.solveTarget speed d mode = .ok f)
    (hall : ∀ d ∈ g.targets.keys, ∃ f ∈ solved, g.solveTarget speed d mode = .ok f) (d : DoorId) :
    (OrderedMap.ofList (solved.map fun f => (f.target, f))).find? d =
      (g.solveTarget speed d mode).toOption := by
  have hstored {field : DoorField α}
      (h : (OrderedMap.ofList (solved.map fun f => (f.target, f))).find? d = some field) :
      g.solveTarget speed d mode = .ok field := by
    obtain ⟨f, hf, heq⟩ := List.mem_map.1 (OrderedMap.mem_of_find?_ofList h)
    obtain ⟨rfl, rfl⟩ := Prod.mk.inj heq
    obtain ⟨d, hd⟩ := hsolved f hf
    rw [target_of_solveTarget hd, hd]
  cases hd : g.solveTarget speed d mode with
  | error e =>
    rw [Except.toOption, Option.eq_none_iff_forall_ne_some]
    intro field hfield
    cases hd.symm.trans (hstored hfield)
  | ok field =>
    obtain ⟨f, hf, hdf⟩ := hall d (mem_keys_of_solveTarget hd)
    have hentry : (d, f) ∈ solved.map fun f => (f.target, f) :=
      List.mem_map.2 ⟨f, hf, by rw [target_of_solveTarget hdf]⟩
    obtain ⟨field', hfield'⟩ := OrderedMap.exists_find?_ofList hentry
    rw [hfield', Except.toOption, ← Except.ok.inj (hd.symm.trans (hstored hfield'))]

lemma find?_solveInTurn (h : solveInTurn g speed mode = .ok fields) (d : DoorId) :
    fields.find? d = (g.solveTarget speed d mode).toOption := by
  obtain ⟨solved, hsolved, h⟩ := bind_eq_ok_iff.1 h
  obtain rfl := Except.ok.inj h
  refine find?_ofList_solved (fun f hf => ?_) (fun d hd => exists_mem_of_mapM hsolved hd) d
  obtain ⟨d, -, hd⟩ := exists_of_mem_mapM hsolved hf
  exact ⟨d, hd⟩

lemma exists_solveInTurn_iff : (∃ fields, solveInTurn g speed mode = .ok fields) ↔
    ∀ d ∈ g.targets.keys, ∃ field, g.solveTarget speed d mode = .ok field := by
  constructor
  · rintro ⟨fields, h⟩ d hd
    obtain ⟨solved, hsolved, -⟩ := bind_eq_ok_iff.1 h
    obtain ⟨field, -, hfield⟩ := exists_mem_of_mapM hsolved hd
    exact ⟨field, hfield⟩
  · intro h
    obtain ⟨solved, hsolved⟩ := exists_mapM h
    exact ⟨_, bind_eq_ok_iff.2 ⟨solved, hsolved, rfl⟩⟩

theorem exists_field_of_solveInTurn (h : solveInTurn g speed mode = .ok fields) {d : DoorId}
    (hd : d ∈ g.targets.keys) :
    ∃ field, fields.find? d = some field ∧ g.solveTarget speed d mode = .ok field := by
  obtain ⟨field, hfield⟩ := exists_solveInTurn_iff.1 ⟨fields, h⟩ d hd
  exact ⟨field, by rw [find?_solveInTurn h, hfield]; rfl, hfield⟩

lemma keys_solveInTurn (h : solveInTurn g speed mode = .ok fields) :
    fields.keys = g.targets.keys := by
  refine OrderedMap.keys_eq_of_mem_iff fun d => ⟨fun hd => ?_, fun hd => ?_⟩
  · obtain ⟨field, hfield⟩ := OrderedMap.mem_keys_iff.1 hd
    rw [find?_solveInTurn h] at hfield
    cases hsolved : g.solveTarget speed d mode with
    | error e => simp [hsolved, Except.toOption] at hfield
    | ok field => exact mem_keys_of_solveTarget hsolved
  · obtain ⟨field, hfield, -⟩ := exists_field_of_solveInTurn h hd
    exact OrderedMap.mem_keys_iff.2 ⟨field, hfield⟩

lemma workerCount_pos (processors workers n : ℕ) : 0 < workerCount processors workers n :=
  lt_max_of_lt_right one_pos

lemma find?_solveFields (h : solveFields processors g speed params = .ok fields) (d : DoorId) :
    fields.find? d = (g.solveTarget speed d params.seedMode).toOption := by
  obtain ⟨batches, hbatches, h⟩ := bind_eq_ok_iff.1 h
  obtain rfl := Except.ok.inj h
  refine find?_ofList_solved (fun f hf => ?_) (fun d hd => ?_) d
  · obtain ⟨batch, hbatch, hmem⟩ := List.mem_flatten.1 hf
    obtain ⟨k, -, hsolved⟩ := exists_of_mem_mapM hbatches hbatch
    obtain ⟨d, -, hd⟩ := exists_of_mem_mapM hsolved hmem
    exact ⟨d, hd⟩
  · obtain ⟨k, hk, hshare⟩ := (mem_iff_exists_share (workerCount_pos _ _ _)).1 hd
    obtain ⟨batch, hbatch, hsolved⟩ := exists_mem_of_mapM hbatches (List.mem_range.2 hk)
    obtain ⟨field, hmem, hfield⟩ := exists_mem_of_mapM hsolved hshare
    exact ⟨field, List.mem_flatten.2 ⟨batch, hbatch, hmem⟩, hfield⟩

lemma exists_solveFields_iff : (∃ fields, solveFields processors g speed params = .ok fields) ↔
    ∀ d ∈ g.targets.keys, ∃ field, g.solveTarget speed d params.seedMode = .ok field := by
  constructor
  · rintro ⟨fields, h⟩ d hd
    obtain ⟨batches, hbatches, -⟩ := bind_eq_ok_iff.1 h
    obtain ⟨k, hk, hshare⟩ := (mem_iff_exists_share (workerCount_pos _ _ _)).1 hd
    obtain ⟨batch, -, hsolved⟩ := exists_mem_of_mapM hbatches (List.mem_range.2 hk)
    obtain ⟨field, -, hfield⟩ := exists_mem_of_mapM hsolved hshare
    exact ⟨field, hfield⟩
  · intro h
    obtain ⟨batches, hbatches⟩ := exists_mapM fun k hk => exists_mapM fun d hd =>
      h d ((mem_iff_exists_share (workerCount_pos processors params.workers
        g.targets.keys.length)).2 ⟨k, List.mem_range.1 hk, hd⟩)
    exact ⟨_, bind_eq_ok_iff.2 ⟨batches, hbatches, rfl⟩⟩

/-- Where all fields can be solved, the workers give those that are solved one after the other. -/
theorem solveFields_eq_ok_iff : solveFields processors g speed params = .ok fields ↔
    solveInTurn g speed params.seedMode = .ok fields := by
  constructor
  · intro h
    obtain ⟨fields', h'⟩ := exists_solveInTurn_iff.2 (exists_solveFields_iff.1 ⟨fields, h⟩)
    rw [h']
    refine congrArg Except.ok (OrderedMap.ext_find? fun d => ?_)
    rw [find?_solveInTurn h', find?_solveFields h]
  · intro h
    obtain ⟨fields', h'⟩ : ∃ fields', solveFields processors g speed params = .ok fields' :=
      exists_solveFields_iff.2 (exists_solveInTurn_iff.1 ⟨fields, h⟩)
    rw [h']
    refine congrArg Except.ok (OrderedMap.ext_find? fun d => ?_)
    rw [find?_solveFields h', find?_solveInTurn h]

/-- Neither the number of workers nor that of processors has a say in the speed. -/
lemma exists_ofGridOn_eq (g : ZoneGrid α) (params : FieldParams α) :
    ∃ speed, ∀ processors workers fields,
      solveFields processors g speed { params with workers := workers } = .ok fields →
        ofGridOn processors g { params with workers := workers } =
          .ok ⟨g, speed, g.wallDistance, g.descent g.wallDistance, fields⟩ := by
  unfold ofGridOn
  cases params.speedMode with
  | even =>
    refine ⟨g.evenSpeed, fun processors workers fields h => ?_⟩
    exact bind_eq_ok_iff.2 ⟨fields, h, rfl⟩
  | wallAvoid =>
    refine ⟨wallAvoidSpeed g.wallDistance params.wallAvoidDistance,
      fun processors workers fields h => ?_⟩
    exact bind_eq_ok_iff.2 ⟨fields, h, rfl⟩

end ZoneFields

namespace FloorPlan

variable {α : Type} [Scalar α] {plan : FloorPlan α} {h : α} {g : ZoneGrid α}

/-- A door of a plan that has been laid out is never blocked. -/
theorem exists_solveTarget (hg : plan.rasterize h = .ok g)
    (hw : Scalar.CountsBelow α g.grid.width) (hh : Scalar.CountsBelow α g.grid.height)
    (speed : Lattice α) (mode : SeedMode) {d : DoorId} (hd : d ∈ g.targets.keys) :
    ∃ field, g.solveTarget speed d mode = .ok field := by
  obtain ⟨line, hline⟩ := OrderedMap.mem_keys_iff.1 hd
  have hdoor := ZoneGrid.doorCells_ne_nil (exists_free_cell hg hw hh hline)
  have hempty : (g.doorCells line).isEmpty = false := by
    simpa [List.isEmpty_eq_false_iff] using hdoor
  simp only [ZoneGrid.solveTarget, hline, hempty]
  exact ⟨_, rfl⟩

/-- A plan that has been laid out is solved, in the same way whatever the number of workers. -/
theorem exists_ofGridOn (hg : plan.rasterize h = .ok g)
    (hw : Scalar.CountsBelow α g.grid.width) (hh : Scalar.CountsBelow α g.grid.height)
    (params : FieldParams α) :
    ∃ z, (∀ processors workers,
        ZoneFields.ofGridOn processors g { params with workers := workers } = .ok z) ∧
      z.grid = g ∧ ZoneFields.solveInTurn g z.speed params.seedMode = .ok z.fields := by
  obtain ⟨speed, hspeed⟩ := ZoneFields.exists_ofGridOn_eq g params
  obtain ⟨fields, hfields⟩ := ZoneFields.exists_solveInTurn_iff.2 fun d hd =>
    exists_solveTarget hg hw hh speed params.seedMode hd
  refine ⟨⟨g, speed, g.wallDistance, g.descent g.wallDistance, fields⟩,
    fun processors workers => ?_, rfl, hfields⟩
  exact hspeed processors workers fields (ZoneFields.solveFields_eq_ok_iff.2 hfields)

lemma exists_ofGrid {plan : FloorPlan Exact} {h : Exact} {g : ZoneGrid Exact}
    (hg : plan.rasterize h = .ok g) (params : FieldParams Exact) :
    ∃ z, ZoneFields.ofGrid g params = .ok z := by
  obtain ⟨z, hz, -⟩ := exists_ofGridOn hg (Exact.countsBelow _) (Exact.countsBelow _) params
  exact ⟨z, hz _ params.workers⟩

/-- A plan that has been laid out is solved whatever the number of workers: with the field towards
each of its doors that is solved for that door alone, and with no other. -/
theorem ofGridOn_inTurn (hg : plan.rasterize h = .ok g)
    (hw : Scalar.CountsBelow α g.grid.width) (hh : Scalar.CountsBelow α g.grid.height)
    (params : FieldParams α) :
    ∃ z, (∀ processors workers,
        ZoneFields.ofGridOn processors g { params with workers := workers } = .ok z) ∧
      z.grid = g ∧ ZoneFields.solveInTurn g z.speed params.seedMode = .ok z.fields ∧
      z.fields.keys = plan.targets.keys ∧
      ∀ d ∈ plan.targets.keys, ∃ field, z.field d = .ok field ∧
        g.solveTarget z.speed d params.seedMode = .ok field := by
  obtain ⟨z, hz, hgrid, hfields⟩ := exists_ofGridOn hg hw hh params
  obtain ⟨-, -, -, htargets⟩ := rasterize_spec hg
  refine ⟨z, hz, hgrid, hfields, ?_, fun d hd => ?_⟩
  · rw [← htargets]
    exact ZoneFields.keys_solveInTurn hfields
  · obtain ⟨field, hfield, hsolved⟩ :=
      ZoneFields.exists_field_of_solveInTurn hfields (htargets ▸ hd)
    exact ⟨field, by simp only [ZoneFields.field, hfield], hsolved⟩

section
open Exact

/-- A square room with a door along each of three sides. -/
noncomputable def cloister (side : ℝ) : FloorPlan Exact where
  zone := .room 0
  areas := [.rectangle ⟨real 0, real 0⟩ ⟨real side, real side⟩]
  walls := []
  obstacles := []
  targets := .ofList [(0, ⟨⟨real 0, real 0⟩, ⟨real side, real 0⟩⟩),
    (1, ⟨⟨real 0, real side⟩, ⟨real side, real side⟩⟩),
    (2, ⟨⟨real 0, real 0⟩, ⟨real 0, real side⟩⟩)]

lemma values_cloister (side : ℝ) : (cloister side).targets.values =
    [⟨⟨real 0, real 0⟩, ⟨real side, real 0⟩⟩, ⟨⟨real 0, real side⟩, ⟨real side, real side⟩⟩,
      ⟨⟨real 0, real 0⟩, ⟨real 0, real side⟩⟩] := rfl

lemma boundingBox_cloister :
    Point.boundingBox (cloister 2).corners = some (⟨real 0, real 0⟩, ⟨real 2, real 2⟩) := by
  rw [corners, values_cloister]
  simp [cloister, Polygon.rectangle, Point.boundingBox, larger_real, smaller_real]

/-- The middle of the room is on none of the doors. -/
lemma kindAt_cloister : (cloister 2).kindAt squareGrid (2, 2) = .inside := by
  have hlower : (2, 2) ∉ squareGrid.cellsOn ⟨⟨real 0, real 0⟩, ⟨real 2, real 0⟩⟩ := by
    rw [cellsOn_square]
    decide
  have hupper : (2, 2) ∉ squareGrid.cellsOn ⟨⟨real 0, real 2⟩, ⟨real 2, real 2⟩⟩ := by
    have hstart : squareGrid.nearestCell ⟨real 0, real 2⟩ = (1, 3) :=
      nearestCell_square (by norm_num) (by norm_num)
    have hstop : squareGrid.nearestCell ⟨real 2, real 2⟩ = (3, 3) :=
      nearestCell_square (by norm_num) (by norm_num)
    rw [RectGrid.cellsOn, hstart, hstop]
    decide
  have hleft : (2, 2) ∉ squareGrid.cellsOn ⟨⟨real 0, real 0⟩, ⟨real 0, real 2⟩⟩ := by
    have hstart : squareGrid.nearestCell ⟨real 0, real 0⟩ = (1, 1) :=
      nearestCell_square (by norm_num) (by norm_num)
    have hstop : squareGrid.nearestCell ⟨real 0, real 2⟩ = (1, 3) :=
      nearestCell_square (by norm_num) (by norm_num)
    rw [RectGrid.cellsOn, hstart, hstop]
    decide
  have hareas : ∃ a ∈ (cloister 2).areas, a.contains (squareGrid.centre (2, 2)) = true :=
    areas_square
  rw [kindAt_eq, values_cloister, if_neg (by simp [hlower, hupper, hleft]),
    if_neg (by simp [cloister]), if_pos hareas]

lemma rasterize_cloister : (cloister 2).rasterize (real 1) =
    .ok ⟨.room 0, squareGrid, (cloister 2).layout squareGrid, (cloister 2).targets⟩ := by
  rw [rasterize_of_covering rfl boundingBox_cloister covering_square]
  exact if_neg (count_layout_ne_zero_iff.2 ⟨(2, 2), rfl, kindAt_cloister⟩)

/-- One worker, two that share out the three doors and a worker for each of four processors solve
the room alike, with a field towards each door. -/
theorem ofGridOn_cloister : ∃ g z, (cloister 2).rasterize (real 1) = .ok g ∧
    ZoneFields.workerCount 4 2 3 = 2 ∧ ZoneFields.share 2 0 g.targets.keys = [0, 2] ∧
    ZoneFields.share 2 1 g.targets.keys = [1] ∧
    ZoneFields.ofGridOn 4 g { FieldParams.standard with workers := 1 } = .ok z ∧
    ZoneFields.ofGridOn 4 g { FieldParams.standard with workers := 2 } = .ok z ∧
    ZoneFields.ofGridOn 4 g { FieldParams.standard with workers := 0 } = .ok z ∧
    z.fields.keys = [0, 1, 2] ∧ ∀ d ∈ [0, 1, 2], ∃ field, z.field d = .ok field ∧
      g.solveTarget z.speed d .wholeLine = .ok field := by
  obtain ⟨z, hz, -, -, hkeys, hfields⟩ :=
    ofGridOn_inTurn rasterize_cloister (countsBelow _) (countsBelow _) .standard
  exact ⟨_, z, rasterize_cloister, rfl, rfl, rfl, hz 4 1, hz 4 2, hz 4 0, hkeys, hfields⟩

end

end FloorPlan

end Egress
