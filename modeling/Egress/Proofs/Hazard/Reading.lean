import Egress.Proofs.Exact
import Egress.Proofs.Outcome
import Egress.Hazard.Mesh

/-!
# Reading hazard meshes

A mesh is read record by record. The header tells how many records there are to be, and how many
values in each. Both counts have to fit a word, and so has the number of bytes of all values: where
it does not, reading stops at the header, without a mesh and without an error.
-/
namespace Egress.HazardMesh

variable {α : Type} [Scalar α] {number : String → Option α} {columns : ℕ}
  {records : List (Option (List String))} {d : Header α} {m : HazardMesh α}

omit [Scalar α] in
lemma numberIn_eq_ok_iff {field : String} {v : α} :
    numberIn number field = .ok v ↔ number field = some v := by
  unfold numberIn
  cases number field with
  | none => simp
  | some w => simp

omit [Scalar α] in
/-- A record that is read is one of fields that hold numbers. -/
lemma numbers_eq_ok_iff {record : Option (List String)} {values : List α} :
    numbers number record = .ok values ↔ ∃ fields, record = some fields ∧
      List.Forall₂ (fun field v => number field = some v) fields values := by
  cases record with
  | none => simp [numbers]
  | some fields => simp [numbers, mapM_eq_ok_iff_forall₂, numberIn_eq_ok_iff]

lemma readHeader_eq_ok_iff {record : Option (List String)} :
    readHeader number record = .ok d ↔
      numbers number record = .ok [d.cellSize, d.xLow, d.xHigh, d.yLow, d.yHigh] ∧
        0 < d.cellSize ∧ ¬d.xHigh < d.xLow ∧ ¬d.yHigh < d.yLow := by
  obtain ⟨h, xLow, xHigh, yLow, yHigh⟩ := d
  rw [readHeader, bind_eq_ok_iff]
  constructor
  · rintro ⟨values, hvalues, hd⟩
    split at hd
    · split at hd
      · cases hd
      · rename_i hchecks
        simp only [not_or, not_not] at hchecks
        cases hd
        exact ⟨hvalues, hchecks⟩
    · cases hd
  · rintro ⟨hvalues, hchecks⟩
    refine ⟨_, hvalues, ?_⟩
    simp [hchecks]

omit [Scalar α] in
lemma readRows_eq_ok_iff {k : ℕ} {rows : List (List α)} :
    readRows number columns k records = .ok rows ↔
      List.Forall₂ (fun record row => numbers number record = .ok row ∧ row.length = columns)
        records rows := by
  induction records generalizing k rows with
  | nil => simp [readRows, eq_comm]
  | cons record rest ih =>
    simp only [readRows, bind_eq_ok_iff, List.forall₂_cons_left_iff]
    constructor
    · rintro ⟨row, hrow, hrest⟩
      split at hrest
      · cases hrest
      · rename_i hlength
        obtain ⟨rows', hrows', heq⟩ := bind_eq_ok_iff.1 hrest
        exact ⟨row, rows', ⟨hrow, not_not.1 hlength⟩, ih.1 hrows', (Except.ok.inj heq).symm⟩
    · rintro ⟨row, rows', ⟨hrow, hlength⟩, hrows', rfl⟩
      refine ⟨row, hrow, ?_⟩
      rw [if_neg (not_not.2 hlength)]
      exact bind_eq_ok_iff.2 ⟨rows', ih.2 hrows', rfl⟩

lemma ofRows_eq_ok_iff : ofRows number d records = .ok m ↔ ∃ rows,
    readRows number d.columns 0 records = .ok rows ∧ rows.length = d.rows ∧
      new ⟨d.xLow, d.yLow⟩ d.cellSize (.ofLists d.columns 0 rows) = .ok m := by
  rw [ofRows, bind_eq_ok_iff]
  refine exists_congr fun rows => and_congr_right fun _ => ?_
  by_cases hlength : rows.length = d.rows
  · simp [hlength]
  · simp [hlength]

/-- The meshes with knots and with cells of a positive finite size. -/
structure Accepted (m : HazardMesh α) : Prop where
  pos : 0 < m.cellSize
  finite : Scalar.isFinite m.cellSize = true
  rows_pos : 0 < m.values.width
  columns_pos : 0 < m.values.height

lemma new_eq_ok_iff {origin : Point α} {cellSize : α} {values : Lattice α} :
    new origin cellSize values = .ok m ↔ m = ⟨origin, cellSize, values⟩ ∧ m.Accepted := by
  unfold new
  constructor
  · intro h
    split at h
    · cases h
    · rename_i hsize
      split at h
      · cases h
      · rename_i hknots
        obtain rfl := Except.ok.inj h
        obtain ⟨hpos, hfin⟩ := not_not.1 hsize
        obtain ⟨hrows, hcolumns⟩ := Nat.mul_ne_zero_iff.1 hknots
        exact ⟨rfl, hpos, hfin, Nat.pos_of_ne_zero hrows, Nat.pos_of_ne_zero hcolumns⟩
  · rintro ⟨rfl, hpos, hfin, hrows, hcolumns⟩
    rw [if_neg (not_not.2 ⟨hpos, hfin⟩), if_neg (Nat.mul_pos hrows hcolumns).ne']

lemma knotCount_pos (low high h : α) : 0 < knotCount low high h := Nat.succ_pos _

/-- Memory can be asked for as long as there are fewer than `2 ^ 60` values. -/
lemma Header.canHold_iff : d.canHold = true ↔ d.rows * d.columns < wordCount 60 := by
  have hbytes : wordCount 63 = 8 * wordCount 60 := rfl
  simp only [Header.canHold, fitsWord, decide_eq_true_eq]
  omega

/-- Where memory can be asked for, nothing has been counted that a word does not hold. -/
lemma Header.counts_lt (h : d.rows * d.columns < wordCount 60) :
    d.columns < wordCount 64 ∧ d.rows < wordCount 64 ∧ d.rows * d.columns < wordCount 64 := by
  have hword : wordCount 60 < wordCount 64 := by decide
  have hcolumns : d.columns ≤ d.rows * d.columns := Nat.le_mul_of_pos_left _ (knotCount_pos _ _ _)
  have hrows : d.rows ≤ d.rows * d.columns := Nat.le_mul_of_pos_right _ (knotCount_pos _ _ _)
  omega

/-- Once the header has been read, either memory for the values is asked for or reading stops. -/
lemma ofRecords_of_header {first : Option (List String)} (h : readHeader number first = .ok d)
    (rest : List (Option (List String))) : ofRecords number (first :: rest) =
      if d.canHold then (ofRows number d rest).mapError .refused else .error .overflow := by
  rw [ofRecords, h, Except.mapError, ok_bind, throw_eq_error]

lemma ofRecords_of_error {first : Option (List String)} {e : HazardError α}
    (h : readHeader number first = .error e) (rest : List (Option (List String))) :
    ofRecords number (first :: rest) = .error (.refused e) := by
  rw [ofRecords, h, Except.mapError, error_bind]

/-- Without a header that makes sense there is an error. -/
lemma ofRecords_cases (number : String → Option α) (records : List (Option (List String))) :
    (∃ e, ofRecords number records = .error (.refused e)) ∨
      ∃ first rest d, records = first :: rest ∧ readHeader number first = .ok d := by
  cases records with
  | nil => exact .inl ⟨_, rfl⟩
  | cons first rest =>
    cases hheader : readHeader number first with
    | ok d => exact .inr ⟨first, rest, d, rfl, hheader⟩
    | error e => exact .inl ⟨e, ofRecords_of_error hheader rest⟩

lemma ofRecords_eq_ok_iff : ofRecords number records = .ok m ↔ ∃ first rest d,
    records = first :: rest ∧ readHeader number first = .ok d ∧ d.canHold = true ∧
      ofRows number d rest = .ok m := by
  constructor
  · intro h
    rcases ofRecords_cases number records with ⟨e, he⟩ | ⟨first, rest, d, rfl, hd⟩
    · cases he.symm.trans h
    · rw [ofRecords_of_header hd] at h
      split at h
      · rename_i hhold
        exact ⟨first, rest, d, rfl, hd, hhold, mapError_eq_ok_iff.1 h⟩
      · cases h
  · rintro ⟨first, rest, d, rfl, hd, hhold, hm⟩
    rw [ofRecords_of_header hd, if_pos hhold, mapError_eq_ok_iff]
    exact hm

/-- Reading never stops because of what stands after a header for which memory can be asked for. -/
lemma ofRecords_eq_overflow_iff : ofRecords number records = .error .overflow ↔ ∃ first rest d,
    records = first :: rest ∧ readHeader number first = .ok d ∧ d.canHold = false := by
  constructor
  · intro h
    rcases ofRecords_cases number records with ⟨e, he⟩ | ⟨first, rest, d, rfl, hd⟩
    · cases he.symm.trans h
    · refine ⟨first, rest, d, rfl, hd, ?_⟩
      rw [ofRecords_of_header hd] at h
      cases hhold : d.canHold with
      | false => rfl
      | true =>
        rw [if_pos hhold] at h
        cases hrows : ofRows number d rest with
        | ok m =>
          rw [hrows] at h
          cases h
        | error e =>
          rw [hrows] at h
          cases h
  · rintro ⟨first, rest, d, rfl, hd, hhold⟩
    rw [ofRecords_of_header hd, hhold]
    rfl

section
open Exact

/-- Between ends that are infinitely far apart there are more knots than a word counts. -/
lemma knotCount_of_infinite {low high h : Exact} (hh : 0 < h) (hfin : Scalar.isFinite h = true)
    (hfar : high - low = Scalar.infinity) : knotCount low high h = wordCount 64 := by
  obtain ⟨s, rfl⟩ := isFinite_iff.1 hfin
  rw [zero_eq, real_lt_real] at hh
  have hplace : posInf / real s = posInf := if_neg hh.not_gt
  rw [knotCount, hfar, show (Scalar.infinity : Exact) = posInf from rfl, hplace]
  rfl

/-- Reading stops without a mesh and without an error exactly if the header makes sense and asks for
`2 ^ 60` values or more. Otherwise it ends with a mesh or an error, and what has been counted fits a
word. With cells of finite size a mesh of infinite extent is too much. -/
theorem ofRecords_overflow (number : String → Option α) (records : List (Option (List String))) :
    (ofRecords number records = .error .overflow ↔ ∃ first rest d,
      records = first :: rest ∧ readHeader number first = .ok d ∧
        wordCount 60 ≤ d.rows * d.columns) ∧
    (ofRecords number records ≠ .error .overflow →
      ((∃ m, ofRecords number records = .ok m) ∨
        ∃ e, ofRecords number records = .error (.refused e)) ∧
      ∀ first rest d, records = first :: rest → readHeader number first = .ok d →
        d.columns < wordCount 64 ∧ d.rows < wordCount 64 ∧ d.rows * d.columns < wordCount 64) ∧
    ∀ d : Header Exact, 0 < d.cellSize → Scalar.isFinite d.cellSize = true →
      d.xHigh - d.xLow = Scalar.infinity ∨ d.yHigh - d.yLow = Scalar.infinity →
        wordCount 60 ≤ d.rows * d.columns := by
  have hvast (d : Header α) : d.canHold = false ↔ wordCount 60 ≤ d.rows * d.columns := by
    rw [← not_lt, ← Header.canHold_iff, Bool.not_eq_true]
  refine ⟨?_, fun hends => ⟨?_, ?_⟩, ?_⟩
  · simp only [ofRecords_eq_overflow_iff, hvast]
  · cases hread : ofRecords number records with
    | ok m => exact .inl ⟨m, rfl⟩
    | error failure =>
      cases failure with
      | refused e => exact .inr ⟨e, rfl⟩
      | overflow => exact absurd hread hends
  · rintro first rest d hrecords hd
    refine Header.counts_lt (not_le.1 fun hcount => hends ?_)
    exact ofRecords_eq_overflow_iff.2 ⟨first, rest, d, hrecords, hd, (hvast d).2 hcount⟩
  · intro d hpos hfin hfar
    have hword : wordCount 60 ≤ wordCount 64 := by decide
    rcases hfar with hx | hy
    · have hcolumns : d.columns = wordCount 64 := knotCount_of_infinite hpos hfin hx
      rw [hcolumns]
      exact hword.trans (Nat.le_mul_of_pos_left _ (knotCount_pos _ _ _))
    · have hrows : d.rows = wordCount 64 := knotCount_of_infinite hpos hfin hy
      rw [hrows]
      exact hword.trans (Nat.le_mul_of_pos_right _ (knotCount_pos _ _ _))

/-- Between ends with real coordinates as many knots follow the first one as there are cells. -/
lemma knotCount_real {s : ℝ} (hs : 0 < s) (low high : ℝ) :
    knotCount (real low) (real high) (real s) = ⌊(high - low) / s + 1 / 2⌋₊ + 1 := by
  rw [knotCount, real_sub_real, real_div_real _ hs.ne', toCount_round]

/-- The header of a row of cells that never ends. -/
noncomputable def endless : Header Exact := ⟨real 1, real 0, posInf, real 0, real 0⟩

noncomputable def wholeNumber? (field : String) : Option Exact :=
  field.toNat?.map fun n : ℕ => real n

lemma wholeNumber?_eq_some {field : String} {n : ℕ} (h : field.toNat? = some n) :
    wholeNumber? field = some (real n) := by rw [wholeNumber?, h, Option.map_some]

lemma knotCount_meters (n : ℕ) : knotCount (real (0 : ℕ)) (real n) (real (1 : ℕ)) = n + 1 := by
  have hone : (0 : ℝ) < (1 : ℕ) := by norm_num
  have hround : ⌊(n : ℝ) + 1 / 2⌋₊ = n := by
    rw [Nat.floor_eq_iff (by positivity)]
    constructor <;> linarith
  rw [knotCount_real hone, Nat.cast_zero, Nat.cast_one, sub_zero, div_one, hround]

lemma readHeader_meters {x y : String} {columns rows : ℕ} (hx : x.toNat? = some columns)
    (hy : y.toNat? = some rows) : readHeader wholeNumber? (some ["1", "0", x, "0", y]) =
      .ok ⟨real (1 : ℕ), real (0 : ℕ), real columns, real (0 : ℕ), real rows⟩ := by
  refine readHeader_eq_ok_iff.2 ⟨numbers_eq_ok_iff.2 ⟨_, rfl, ?_⟩, ?_, ?_, ?_⟩
  · have hone : wholeNumber? "1" = some (real (1 : ℕ)) := wholeNumber?_eq_some (by cbv)
    have hzero : wholeNumber? "0" = some (real (0 : ℕ)) := wholeNumber?_eq_some (by cbv)
    exact .cons hone <| .cons hzero <| .cons (wholeNumber?_eq_some hx) <| .cons hzero <|
      .cons (wholeNumber?_eq_some hy) .nil
  · rw [zero_eq, real_lt_real, Nat.cast_one]
    exact one_pos
  · exact Exact.not_lt_of_le (real_le_real.2 (Nat.cast_le.2 (Nat.zero_le _)))
  · exact Exact.not_lt_of_le (real_le_real.2 (Nat.cast_le.2 (Nat.zero_le _)))

/-- A row of two knots one meter apart. -/
def pair : List (Option (List String)) := [some ["1", "0", "1", "0", "0"], some ["7", "8"]]

lemma ofRecords_pair : ∃ m : HazardMesh Exact, ofRecords wholeNumber? pair = .ok m := by
  have hone : "1".toNat? = some 1 := by cbv
  have hzero : "0".toNat? = some 0 := by cbv
  have hheader := readHeader_meters hone hzero
  generalize hd : (⟨real (1 : ℕ), real (0 : ℕ), real (1 : ℕ), real (0 : ℕ), real (0 : ℕ)⟩ :
    Header Exact) = d at hheader
  have hcolumns : d.columns = 2 := hd ▸ knotCount_meters 1
  have hrows : d.rows = 1 := hd ▸ knotCount_meters 0
  have hrow : readRows wholeNumber? d.columns 0 [some ["7", "8"]] =
      .ok [[real (7 : ℕ), real (8 : ℕ)]] := by
    refine readRows_eq_ok_iff.2 (.cons ⟨numbers_eq_ok_iff.2 ⟨_, rfl, ?_⟩, hcolumns.symm⟩ .nil)
    exact .cons (wholeNumber?_eq_some (by cbv)) (.cons (wholeNumber?_eq_some (by cbv)) .nil)
  have haccepted : (⟨⟨d.xLow, d.yLow⟩, d.cellSize,
      .ofLists d.columns 0 [[real (7 : ℕ), real (8 : ℕ)]]⟩ : HazardMesh Exact).Accepted :=
    ⟨(readHeader_eq_ok_iff.1 hheader).2.1, hd ▸ rfl, Nat.one_pos, knotCount_pos _ _ _⟩
  have hhold : d.canHold = true := by
    rw [Header.canHold_iff, hrows, hcolumns]
    decide
  have hmesh := ofRows_eq_ok_iff.2 ⟨_, hrow, hrows.symm, new_eq_ok_iff.2 ⟨rfl, haccepted⟩⟩
  exact ⟨_, ofRecords_eq_ok_iff.2 ⟨_, _, d, rfl, hheader, hhold, hmesh⟩⟩

/-- A row that never ends is too much. A row of two knots is read, and its counts fit a word. -/
theorem ofRecords_overflow_endless :
    (0 < endless.cellSize ∧ endless.xHigh - endless.xLow = Scalar.infinity ∧
      wordCount 60 ≤ endless.rows * endless.columns) ∧
    ofRecords wholeNumber? pair ≠ .error .overflow ∧
    (∃ m : HazardMesh Exact, ofRecords wholeNumber? pair = .ok m) ∧
    ∃ first rest d, pair = first :: rest ∧ readHeader wholeNumber? first = .ok d ∧
      d.columns < wordCount 64 ∧ d.rows < wordCount 64 ∧ d.rows * d.columns < wordCount 64 := by
  have hpos : 0 < endless.cellSize := by
    rw [endless, zero_eq, real_lt_real]
    exact one_pos
  obtain ⟨m, hread⟩ := ofRecords_pair
  have hnot : ofRecords wholeNumber? pair ≠ .error .overflow := by simp [hread]
  obtain ⟨first, rest, d, hpair, hd, -⟩ := ofRecords_eq_ok_iff.1 hread
  obtain ⟨-, hends, hvast⟩ := ofRecords_overflow wholeNumber? pair
  obtain ⟨hended, hcounts⟩ := hends hnot
  have hnone : ¬∃ e, ofRecords wholeNumber? pair = .error (.refused e) := by simp [hread]
  exact ⟨⟨hpos, rfl, hvast endless hpos rfl (.inl rfl)⟩, hnot, hended.resolve_right hnone,
    first, rest, d, hpair, hd, hcounts first rest d hpair hd⟩

/-- The first record of a mesh of five rows with more than `2 ^ 62` values each. -/
def vast : Option (List String) := some ["1", "0", "4611686018427387904", "0", "4"]

/-- The header makes sense. Yet no word holds how many values it asks for, and reading ends neither
with a mesh nor with an error. -/
theorem ofRecords_vast : ∃ d : Header Exact, readHeader wholeNumber? vast = .ok d ∧
    wordCount 64 ≤ d.rows * d.columns ∧
    ofRecords wholeNumber? [vast] = .error .overflow := by
  have hx : "4611686018427387904".toNat? = some 4611686018427387904 := by cbv
  have hheader := readHeader_meters hx (show "4".toNat? = some 4 by cbv)
  have hcount : wordCount 64 ≤
      knotCount (real (0 : ℕ)) (real (4 : ℕ)) (real (1 : ℕ)) *
        knotCount (real (0 : ℕ)) (real (4611686018427387904 : ℕ)) (real (1 : ℕ)) := by
    rw [knotCount_meters, knotCount_meters]
    decide
  refine ⟨_, hheader, hcount, ofRecords_eq_overflow_iff.2 ⟨vast, [], _, rfl, hheader, ?_⟩⟩
  rw [← Bool.not_eq_true, Header.canHold_iff, not_lt]
  exact le_trans (by decide) hcount

end

end Egress.HazardMesh
