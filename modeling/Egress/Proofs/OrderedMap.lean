import Egress.OrderedMap
import Mathlib.Tactic

/-!
# Entries and look-ups

The entries of a map are the pairs that its look-ups give. Erasing a key changes no other look-up.
-/
namespace Egress.OrderedMap

variable {κ β γ : Type} [Key κ]

lemma lookup_eq_some_iff {es : List (κ × β)}
    (hs : es.Pairwise fun a b => Key.lt a.1 b.1 = true) {k : κ} {v : β} :
    lookup k es = some v ↔ (k, v) ∈ es := by
  induction es with
  | nil => simp [lookup]
  | cons hd tl ih =>
    obtain ⟨hhd, htl⟩ := List.pairwise_cons.1 hs
    obtain ⟨k', v'⟩ := hd
    simp only [lookup, List.mem_cons, Prod.mk.injEq]
    by_cases hlt : Key.lt k' k = true
    · rw [if_pos hlt, ih htl]
      refine ⟨.inr, fun h => h.resolve_left ?_⟩
      rintro ⟨rfl, -⟩
      rw [Key.irrefl] at hlt
      exact absurd hlt Bool.false_ne_true
    · rw [if_neg hlt]
      by_cases hgt : Key.lt k k' = true
      · rw [if_pos hgt]
        refine ⟨by simp, fun h => ?_⟩
        rcases h with ⟨rfl, -⟩ | h
        · rw [Key.irrefl] at hgt
          exact absurd hgt Bool.false_ne_true
        · exact absurd (hhd _ h) (by simp [Key.asymm hgt])
      · rw [if_neg hgt]
        have hkk : k' = k := Key.connected _ _ (by simpa using hlt) (by simpa using hgt)
        subst hkk
        constructor
        · intro h
          exact .inl ⟨rfl, (Option.some.inj h).symm⟩
        · rintro (⟨-, rfl⟩ | h)
          · rfl
          · exact absurd (hhd _ h) (by simp [Key.irrefl])

theorem find?_eq_some_iff {m : OrderedMap κ β} {k : κ} {v : β} :
    m.find? k = some v ↔ (k, v) ∈ m.entries :=
  lookup_eq_some_iff m.sorted

theorem ext_find? {m m' : OrderedMap κ β} (h : ∀ k, m.find? k = m'.find? k) : m = m' := by
  have hnodup (m : OrderedMap κ β) : m.entries.Nodup := by
    refine m.sorted.imp fun hlt hab => ?_
    exact Key.ne_of_lt hlt (congrArg Prod.fst hab)
  have hperm : m.entries.Perm m'.entries := by
    refine (List.perm_ext_iff_of_nodup (hnodup m) (hnodup m')).2 fun e => ?_
    rw [← find?_eq_some_iff, ← find?_eq_some_iff, h]
  have hentries : m.entries = m'.entries := by
    refine hperm.eq_of_pairwise (fun a b _ _ hab hba => ?_) m.sorted m'.sorted
    rw [Key.asymm hab] at hba
    cases hba
  cases m
  cases m'
  simpa using hentries

theorem mem_values_iff {m : OrderedMap κ β} {v : β} : v ∈ m.values ↔ ∃ k, m.find? k = some v := by
  simp [values, find?_eq_some_iff]

theorem mem_keys_iff {m : OrderedMap κ β} {k : κ} : k ∈ m.keys ↔ ∃ v, m.find? k = some v := by
  simp [keys, find?_eq_some_iff]

theorem nodup_keys (m : OrderedMap κ β) : m.keys.Nodup :=
  List.pairwise_map.2 (m.sorted.imp Key.ne_of_lt)

/-- Maps that store something under the same keys list them alike. -/
theorem keys_eq_of_mem_iff {m : OrderedMap κ β} {m' : OrderedMap κ γ}
    (h : ∀ k, k ∈ m.keys ↔ k ∈ m'.keys) : m.keys = m'.keys := by
  have hperm : m.keys.Perm m'.keys :=
    (List.perm_ext_iff_of_nodup (nodup_keys m) (nodup_keys m')).2 h
  have hsorted {δ : Type} (m : OrderedMap κ δ) :
      m.keys.Pairwise fun k k' => Key.lt k k' = true := List.pairwise_map.2 m.sorted
  refine hperm.eq_of_pairwise (fun a b _ _ hab hba => ?_) (hsorted m) (hsorted m')
  rw [Key.asymm hab] at hba
  cases hba

theorem mem_keys_iff_contains {m : OrderedMap κ β} {k : κ} : k ∈ m.keys ↔ m.contains k = true := by
  rw [mem_keys_iff, contains, Option.isSome_iff_exists]

theorem contains_eq_false_iff {m : OrderedMap κ β} {k : κ} :
    m.contains k = false ↔ m.find? k = none := by
  rw [contains, Option.isSome_eq_false_iff, Option.isNone_iff_eq_none]

theorem ext_contains {m m' : OrderedMap κ Unit} (h : ∀ k, m.contains k = m'.contains k) :
    m = m' := by
  refine ext_find? fun k => ?_
  cases hk : m.contains k with
  | false => rw [contains_eq_false_iff.1 hk, contains_eq_false_iff.1 ((h k).symm.trans hk)]
  | true =>
    obtain ⟨_, hu⟩ := Option.isSome_iff_exists.1 hk
    obtain ⟨_, hu'⟩ := Option.isSome_iff_exists.1 ((h k).symm.trans hk)
    rw [hu, hu']

theorem find?_insert (m : OrderedMap κ β) (k k' : κ) (v : β) [Decidable (k' = k)] :
    (m.insert k v).find? k' = if k' = k then some v else m.find? k' := by
  by_cases h : k' = k
  · subst h
    simp
  · rw [if_neg h, find?_insert_of_ne m h]

theorem insert_of_find? {m : OrderedMap κ β} {k : κ} {v : β} (h : m.find? k = some v) :
    m.insert k v = m := by
  classical
  refine ext_find? fun k' => ?_
  rw [find?_insert]
  split
  · rw [‹k' = k›, h]
  · rfl

theorem insert_comm (m : OrderedMap κ β) {k k' : κ} (h : k ≠ k') (v v' : β) :
    (m.insert k v).insert k' v' = (m.insert k' v').insert k v := by
  classical
  refine ext_find? fun j => ?_
  simp only [find?_insert]
  by_cases hj : j = k
  · subst hj
    simp [h]
  · simp [hj]

lemma ofList_concat (es : List (κ × β)) (e : κ × β) :
    ofList (es ++ [e]) = (ofList es).insert e.1 e.2 := by
  rw [ofList, List.foldl_concat, ofList]

/-- What is stored under a key is the value of the last pair with the key. -/
theorem exists_of_find?_ofList {es : List (κ × β)} {k : κ} {v : β}
    (h : (ofList es).find? k = some v) :
    ∃ es₁ es₂, es = es₁ ++ (k, v) :: es₂ ∧ ∀ e ∈ es₂, e.1 ≠ k := by
  classical
  -- from the end, for what is stored last is what stays
  induction es using List.reverseRecOn with
  | nil => cases h
  | append_singleton es e ih =>
    rw [ofList_concat, find?_insert] at h
    split at h
    · rename_i hk
      obtain rfl : (k, v) = e := Prod.ext hk (Option.some.inj h).symm
      exact ⟨es, [], rfl, nofun⟩
    · rename_i hk
      obtain ⟨es₁, es₂, rfl, hlater⟩ := ih h
      refine ⟨es₁, es₂ ++ [e], by simp, fun e' he' => ?_⟩
      rcases List.mem_append.1 he' with he' | he'
      · exact hlater e' he'
      · rw [List.mem_singleton.1 he']
        exact Ne.symm hk

theorem mem_of_find?_ofList {es : List (κ × β)} {k : κ} {v : β}
    (h : (ofList es).find? k = some v) : (k, v) ∈ es := by
  obtain ⟨es₁, es₂, rfl, -⟩ := exists_of_find?_ofList h
  exact List.mem_append_right es₁ List.mem_cons_self

theorem exists_find?_ofList {es : List (κ × β)} {k : κ} {v : β} (h : (k, v) ∈ es) :
    ∃ v', (ofList es).find? k = some v' := by
  classical
  have hfold (es : List (κ × β)) (m : OrderedMap κ β)
      (h : (∃ v', m.find? k = some v') ∨ (k, v) ∈ es) :
      ∃ v', (es.foldl (fun m e => m.insert e.1 e.2) m).find? k = some v' := by
    induction es generalizing m with
    | nil => exact h.resolve_right List.not_mem_nil
    | cons e es ih =>
      apply ih
      rw [find?_insert]
      by_cases hk : k = e.1
      · exact .inl ⟨e.2, if_pos hk⟩
      · rw [if_neg hk]
        refine h.imp_right fun hmem => (List.mem_cons.1 hmem).resolve_left ?_
        rintro rfl
        exact hk rfl
  exact hfold es empty (.inr h)

/-- Of several pairs with one key the last decides. -/
theorem find?_ofList_append {es es' : List (κ × β)} {k : κ} {v : β} (h : ∀ e ∈ es', e.1 ≠ k) :
    (ofList (es ++ (k, v) :: es')).find? k = some v := by
  have hstored : ((ofList es).insert k v).find? k = some v := find?_insert_self _ _ _
  rw [ofList, List.foldl_append, List.foldl_cons]
  refine List.foldlRecOn (motive := fun m : OrderedMap κ β => m.find? k = some v) es' _ hstored ?_
  intro m hm e he
  rw [find?_insert_of_ne m (h e he).symm, hm]

theorem find?_modify (m : OrderedMap κ β) (k k' : κ) (f : β → β) [Decidable (k' = k)] :
    (m.modify k f).find? k' = (m.find? k').map fun v => if k' = k then f v else v := by
  unfold modify
  cases hv : m.find? k with
  | some v =>
    rw [find?_insert]
    by_cases h : k' = k
    · subst h
      simp [hv]
    · simp [h]
  | none =>
    by_cases h : k' = k
    · subst h
      simp [hv]
    · simp [h]

@[simp] theorem find?_erase_self (m : OrderedMap κ β) (k : κ) : (m.erase k).find? k = none := by
  cases h : (m.erase k).find? k with
  | none => rfl
  | some v =>
    have hmem := find?_eq_some_iff.1 h
    simp [erase, Key.irrefl] at hmem

theorem find?_erase_of_ne (m : OrderedMap κ β) {k k' : κ} (h : k' ≠ k) :
    (m.erase k).find? k' = m.find? k' := by
  have hkeep : Key.lt k' k = true ∨ Key.lt k k' = true := by
    by_contra hnot
    obtain ⟨h₁, h₂⟩ := not_or.1 hnot
    exact h (Key.connected _ _ (by simpa using h₁) (by simpa using h₂))
  ext v
  rw [find?_eq_some_iff, find?_eq_some_iff]
  simp [erase, hkeep]

/-- Erasing takes one entry out. -/
theorem exists_entries_erase {m : OrderedMap κ β} {k : κ} {v : β} (h : m.find? k = some v) :
    ∃ es es', m.entries = es ++ (k, v) :: es' ∧ (m.erase k).entries = es ++ es' := by
  obtain ⟨es, es', hentries⟩ := List.append_of_mem (find?_eq_some_iff.1 h)
  have hsorted := m.sorted
  rw [hentries, List.pairwise_append, List.pairwise_cons] at hsorted
  obtain ⟨-, ⟨hafter, -⟩, hbefore⟩ := hsorted
  refine ⟨es, es', hentries, ?_⟩
  have hkeep : es.filter (fun e => Key.lt e.1 k || Key.lt k e.1) = es := by
    refine List.filter_eq_self.2 fun e he => ?_
    simp [hbefore e he (k, v) List.mem_cons_self]
  have hkeep' : es'.filter (fun e => Key.lt e.1 k || Key.lt k e.1) = es' := by
    refine List.filter_eq_self.2 fun e he => ?_
    simp [hafter e he]
  simp [erase, hentries, hkeep, hkeep', Key.irrefl]

end Egress.OrderedMap
