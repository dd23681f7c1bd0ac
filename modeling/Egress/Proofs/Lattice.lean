import Egress.Lattice
import Mathlib.Tactic

/-!
# Reading lattices

What `getD` gives after each way of making a lattice. A lattice is known by its size and by what
`getD` gives at its places.
-/
namespace Egress.Lattice

variable {β γ : Type}

def Has (l : Lattice β) (c : Nat × Nat) : Prop := c.1 < l.width ∧ c.2 < l.height

lemma index_lt {width height : Nat} {c : Nat × Nat} (h : c.1 < width ∧ c.2 < height) :
    c.1 * height + c.2 < width * height := by
  calc c.1 * height + c.2 < c.1 * height + height := by omega
    _ = (c.1 + 1) * height := by rw [Nat.succ_mul]
    _ ≤ width * height := Nat.mul_le_mul_right _ h.1

lemma getD_of_not_has (l : Lattice β) {c : Nat × Nat} (h : ¬l.Has c) (d : β) : l.getD c d = d :=
  if_neg h

lemma getD_of_has (l : Lattice β) {c : Nat × Nat} (h : l.Has c) (d : β) :
    l.getD c d = l.data.getD (c.1 * l.height + c.2) d :=
  if_pos h

lemma getD_congr_default (l : Lattice β) {c : Nat × Nat} (h : l.Has c) (d d' : β) :
    l.getD c d = l.getD c d' := by
  have hlt : c.1 * l.height + c.2 < l.data.size := l.size_eq ▸ index_lt h
  rw [l.getD_of_has h, l.getD_of_has h]
  simp [Array.getD_eq_getD_getElem?, hlt]

lemma getElem?_index {l : Lattice β} {c : Nat × Nat} (h : l.Has c) (d : β) :
    l.data[l.index c]? = some (l.getD c d) := by
  have hlt : c.1 * l.height + c.2 < l.data.size := l.size_eq ▸ index_lt h
  rw [l.getD_of_has h, index]
  simp [Array.getD_eq_getD_getElem?, hlt]

@[simp] theorem width_set (l : Lattice β) (c : Nat × Nat) (v : β) :
    (l.set c v).width = l.width := by
  unfold set
  split <;> rfl

@[simp] theorem height_set (l : Lattice β) (c : Nat × Nat) (v : β) :
    (l.set c v).height = l.height := by
  unfold set
  split <;> rfl

theorem getD_set (l : Lattice β) {c : Nat × Nat} (h : l.Has c) (c' : Nat × Nat) (v d : β) :
    (l.set c v).getD c' d = if c' = c then v else l.getD c' d := by
  by_cases hc : c' = c
  · subst hc
    rw [if_pos rfl, getD_set_self l h]
  · rw [if_neg hc, getD_set_of_ne l hc]

@[simp] theorem width_constant (n m : Nat) (v : β) : (constant n m v).width = n := rfl

@[simp] theorem height_constant (n m : Nat) (v : β) : (constant n m v).height = m := rfl

@[simp] theorem getD_constant (n m : Nat) (v : β) (c : Nat × Nat) :
    (constant n m v).getD c v = v := by
  unfold getD
  split
  · simp [constant, Array.getD_eq_getD_getElem?, Array.getElem?_replicate]
    split <;> rfl
  · rfl

theorem getD_constant_of_lt {n m : Nat} (v d : β) {c : Nat × Nat} (h : c.1 < n ∧ c.2 < m) :
    (constant n m v).getD c d = v := by
  rw [getD_congr_default (constant n m v) (show Has _ c from h) d v, getD_constant]

@[simp] theorem width_ofFn (n m : Nat) (f : Nat × Nat → β) : (ofFn n m f).width = n := rfl

@[simp] theorem height_ofFn (n m : Nat) (f : Nat × Nat → β) : (ofFn n m f).height = m := rfl

/-- Where the value of a place stands says which place it is. -/
lemma div_mod_index {m i j : Nat} (hj : j < m) : (i * m + j) / m = i ∧ (i * m + j) % m = j := by
  have hm : 0 < m := by omega
  constructor
  · rw [Nat.add_comm, Nat.add_mul_div_right _ _ hm, Nat.div_eq_of_lt hj, Nat.zero_add]
  · rw [Nat.add_comm, Nat.add_mul_mod_self_right, Nat.mod_eq_of_lt hj]

theorem getD_ofFn {n m : Nat} (f : Nat × Nat → β) {c : Nat × Nat} (h : c.1 < n ∧ c.2 < m)
    (d : β) : (ofFn n m f).getD c d = f c := by
  obtain ⟨hdiv, hmod⟩ := div_mod_index (i := c.1) h.2
  rw [getD_of_has (ofFn n m f) (show Has _ c from h)]
  simp [ofFn, Array.getD_eq_getD_getElem?, index_lt h, hdiv, hmod]

@[simp] theorem width_ofLists (m : Nat) (d : β) (vs : List (List β)) :
    (ofLists m d vs).width = vs.length := rfl

@[simp] theorem height_ofLists (m : Nat) (d : β) (vs : List (List β)) :
    (ofLists m d vs).height = m := rfl

theorem getD_ofLists {m : Nat} {vs : List (List β)} {c : Nat × Nat}
    (h : c.1 < vs.length ∧ c.2 < m) (d d' : β) :
    (ofLists m d vs).getD c d' = (vs[c.1].getD c.2 d) := by
  rw [ofLists, getD_ofFn _ h]
  simp [Array.getD_eq_getD_getElem?, h.1]

@[simp] theorem width_map (f : β → γ) (l : Lattice β) : (l.map f).width = l.width := rfl

@[simp] theorem height_map (f : β → γ) (l : Lattice β) : (l.map f).height = l.height := rfl

theorem getD_map (f : β → γ) {l : Lattice β} {c : Nat × Nat} (h : l.Has c) (d : β) (d' : γ) :
    (l.map f).getD c d' = f (l.getD c d) := by
  have hlt : c.1 * l.height + c.2 < l.data.size := l.size_eq ▸ index_lt h
  rw [l.getD_of_has h, (l.map f).getD_of_has (show (l.map f).Has c from h)]
  simp [map, Array.getD_eq_getD_getElem?, hlt]

theorem ext_getD {l l' : Lattice β} (d : β) (hw : l.width = l'.width) (hh : l.height = l'.height)
    (h : ∀ c, l.Has c → l.getD c d = l'.getD c d) : l = l' := by
  obtain ⟨n, m, data, hsize⟩ := l
  obtain ⟨n', m', data', hsize'⟩ := l'
  obtain rfl : n = n' := hw
  obtain rfl : m = m' := hh
  congr
  refine Array.ext (hsize.trans hsize'.symm) fun k hk hk' => ?_
  have hm : 0 < m := by
    rcases Nat.eq_zero_or_pos m with rfl | hm
    · simp [hsize] at hk
    · exact hm
  have hplace : Has ⟨n, m, data, hsize⟩ (k / m, k % m) :=
    ⟨Nat.div_lt_of_lt_mul (by rwa [hsize, Nat.mul_comm] at hk), Nat.mod_lt k hm⟩
  have heq := h (k / m, k % m) hplace
  have hplace' : Has ⟨n, m, data', hsize'⟩ (k / m, k % m) := hplace
  rw [getD_of_has _ hplace, getD_of_has _ hplace'] at heq
  simpa [Array.getD_eq_getD_getElem?, Nat.div_add_mod', hk, hk'] using heq

theorem mem_places_iff {n m : Nat} {c : Nat × Nat} : c ∈ places n m ↔ c.1 < n ∧ c.2 < m := by
  obtain ⟨i, j⟩ := c
  simp [places]

/-- The places of a rectangle are listed in the order in which their values stand. -/
lemma places_eq_map (n m : Nat) :
    places n m = (List.range (n * m)).map fun k => (k / m, k % m) := by
  induction n with
  | zero => simp [places]
  | succ n ih =>
    have hrow : (List.range m).map (fun j => (n, j)) =
        ((List.range m).map (n * m + ·)).map fun k => (k / m, k % m) := by
      rw [List.map_map]
      refine List.map_congr_left fun j hj => ?_
      obtain ⟨hdiv, hmod⟩ := div_mod_index (i := n) (List.mem_range.1 hj)
      exact (Prod.ext hdiv hmod).symm
    have hplaces : places (n + 1) m = places n m ++ (List.range m).map fun j => (n, j) := by
      simp [places, List.range_succ]
    rw [hplaces, ih, hrow, Nat.succ_mul, List.range_add, List.map_append]

theorem mem_entries_iff {l : Lattice β} {c : Nat × Nat} {v : β} (d : β) :
    (c, v) ∈ l.entries ↔ l.Has c ∧ l.getD c d = v := by
  have hlength : l.data.toList.length = l.width * l.height := l.size_eq
  have hread (hc : l.Has c) : l.getD c d = l.data.toList.getD (c.1 * l.height + c.2) d := by
    rw [l.getD_of_has hc]
    simp [Array.getD_eq_getD_getElem?]
  simp only [entries, places_eq_map, List.mem_iff_getElem, List.length_zip, List.length_map,
    List.length_range, hlength, min_self, List.getElem_zip, List.getElem_map, List.getElem_range,
    Prod.mk.injEq]
  constructor
  · rintro ⟨k, hk, rfl, rfl⟩
    have hm : 0 < l.height := Nat.pos_of_mul_pos_left (Nat.zero_lt_of_lt hk)
    have hc : l.Has (k / l.height, k % l.height) :=
      ⟨Nat.div_lt_of_lt_mul (by rwa [Nat.mul_comm] at hk), Nat.mod_lt k hm⟩
    refine ⟨hc, ?_⟩
    rw [hread hc]
    simp [Nat.div_add_mod', hlength, hk]
  · rintro ⟨hc, rfl⟩
    obtain ⟨hdiv, hmod⟩ := div_mod_index (i := c.1) hc.2
    refine ⟨_, index_lt hc, Prod.ext hdiv hmod, ?_⟩
    rw [hread hc]
    simp [hlength, index_lt hc]

lemma map_snd_entries (l : Lattice β) : l.entries.map Prod.snd = l.data.toList := by
  refine List.map_snd_zip (le_of_eq ?_)
  rw [places_eq_map, List.length_map, List.length_range]
  exact l.size_eq

theorem count_ne_zero_iff {p : β → Bool} {l : Lattice β} (d : β) :
    l.count p ≠ 0 ↔ ∃ c, l.Has c ∧ p (l.getD c d) = true := by
  rw [count, ← map_snd_entries, Nat.ne_zero_iff_zero_lt, List.countP_pos_iff]
  constructor
  · rintro ⟨v, hv, hp⟩
    obtain ⟨⟨c, v⟩, hentry, rfl⟩ := List.mem_map.1 hv
    obtain ⟨hc, hread⟩ := (mem_entries_iff d).1 hentry
    exact ⟨c, hc, hread ▸ hp⟩
  · rintro ⟨c, hc, hp⟩
    exact ⟨_, List.mem_map_of_mem ((mem_entries_iff d).2 ⟨hc, rfl⟩), hp⟩

@[simp] theorem width_foldl_set (cs : List (Nat × Nat)) (v : β) (l : Lattice β) :
    (cs.foldl (fun l c => l.set c v) l).width = l.width := by
  induction cs generalizing l with
  | nil => rfl
  | cons c cs ih => rw [List.foldl_cons, ih, width_set]

@[simp] theorem height_foldl_set (cs : List (Nat × Nat)) (v : β) (l : Lattice β) :
    (cs.foldl (fun l c => l.set c v) l).height = l.height := by
  induction cs generalizing l with
  | nil => rfl
  | cons c cs ih => rw [List.foldl_cons, ih, height_set]

theorem getD_foldl_set_of_not_mem {cs : List (Nat × Nat)} {c : Nat × Nat} (h : c ∉ cs)
    (l : Lattice β) (v d : β) : (cs.foldl (fun l c => l.set c v) l).getD c d = l.getD c d := by
  induction cs generalizing l with
  | nil => rfl
  | cons c' cs ih =>
    obtain ⟨hne, htail⟩ := not_or.1 fun h' => h (List.mem_cons.2 h')
    rw [List.foldl_cons, ih htail, getD_set_of_ne l hne]

theorem getD_foldl_set_of_mem {cs : List (Nat × Nat)} {c : Nat × Nat} (h : c ∈ cs)
    {l : Lattice β} (hc : l.Has c) (v d : β) :
    (cs.foldl (fun l c => l.set c v) l).getD c d = v := by
  induction cs generalizing l with
  | nil => exact absurd h List.not_mem_nil
  | cons c' cs ih =>
    have hset : (l.set c' v).Has c := by simpa [Has] using hc
    by_cases htail : c ∈ cs
    · exact ih htail hset
    · obtain rfl : c = c' := (List.mem_cons.1 h).resolve_right htail
      rw [List.foldl_cons, getD_foldl_set_of_not_mem htail, getD_set_self l hc]

theorem getD_foldl_set {cs : List (Nat × Nat)} {l : Lattice β} (h : ∀ c ∈ cs, l.Has c)
    (c' : Nat × Nat) (v d : β) :
    (cs.foldl (fun l c => l.set c v) l).getD c' d = if c' ∈ cs then v else l.getD c' d := by
  split
  · rename_i hc'
    exact getD_foldl_set_of_mem hc' (h c' hc') v d
  · rename_i hc'
    exact getD_foldl_set_of_not_mem hc' l v d

end Egress.Lattice
