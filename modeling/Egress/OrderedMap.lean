import Egress.Key

/-!
# Ordered maps

A finite map from keys to values that lists its entries in the order of the keys. Two maps with
the same look-ups are equal, so a map is known by `find?` alone; one lemma for each operation says
what it does to the look-ups.
-/
namespace Egress

/-- A finite map that lists its entries by ascending key. -/
structure OrderedMap (κ β : Type) [Key κ] where
  entries : List (κ × β)
  sorted : entries.Pairwise fun a b => Key.lt a.1 b.1 = true

namespace OrderedMap

variable {κ β γ : Type} [Key κ]

/-- Value of the first entry with the key `k`. -/
def lookup (k : κ) : List (κ × β) → Option β
  | [] => none
  | (k', v) :: rest => if Key.lt k' k then lookup k rest else if Key.lt k k' then none else some v

/-- Puts `v` under `k` at its place in the order, in place of a value that is there already. -/
def place (k : κ) (v : β) : List (κ × β) → List (κ × β)
  | [] => [(k, v)]
  | (k', v') :: rest =>
    if Key.lt k' k then (k', v') :: place k v rest
    else if Key.lt k k' then (k, v) :: (k', v') :: rest
    else (k, v) :: rest

theorem mem_place {k : κ} {v : β} {e : κ × β} {es : List (κ × β)} (h : e ∈ place k v es) :
    e = (k, v) ∨ e ∈ es := by
  induction es with
  | nil => simpa [place] using h
  | cons hd tl ih =>
    simp only [place] at h
    split at h
    · rcases List.mem_cons.1 h with h | h
      · exact .inr (h ▸ List.mem_cons_self)
      · exact (ih h).imp_right (List.mem_cons_of_mem _)
    · split at h
      · exact List.mem_cons.1 h
      · exact (List.mem_cons.1 h).imp_right (List.mem_cons_of_mem _)

theorem place_sorted (k : κ) (v : β) {es : List (κ × β)}
    (h : es.Pairwise fun a b => Key.lt a.1 b.1 = true) :
    (place k v es).Pairwise fun a b => Key.lt a.1 b.1 = true := by
  induction es with
  | nil => simp [place]
  | cons hd tl ih =>
    obtain ⟨hhd, htl⟩ := List.pairwise_cons.1 h
    simp only [place]
    split
    · rename_i hlt
      refine List.pairwise_cons.2 ⟨fun e he => ?_, ih htl⟩
      rcases mem_place he with rfl | he
      · exact hlt
      · exact hhd e he
    · rename_i hge
      split
      · rename_i hlt
        refine List.pairwise_cons.2 ⟨fun e he => ?_, h⟩
        rcases List.mem_cons.1 he with rfl | he
        · exact hlt
        · exact Key.trans _ _ _ hlt (hhd e he)
      · rename_i hge'
        have : hd.1 = k := Key.connected _ _ (by simpa using hge) (by simpa using hge')
        refine List.pairwise_cons.2 ⟨fun e he => ?_, htl⟩
        exact this ▸ hhd e he

def empty : OrderedMap κ β := ⟨[], .nil⟩

instance : EmptyCollection (OrderedMap κ β) := ⟨empty⟩

instance : Inhabited (OrderedMap κ β) := ⟨empty⟩

def find? (m : OrderedMap κ β) (k : κ) : Option β := lookup k m.entries

def contains (m : OrderedMap κ β) (k : κ) : Bool := (m.find? k).isSome

/-- Stores `v` under `k`, in place of what was there. -/
def insert (m : OrderedMap κ β) (k : κ) (v : β) : OrderedMap κ β :=
  ⟨place k v m.entries, place_sorted k v m.sorted⟩

/-- Forgets what is stored under `k`. -/
def erase (m : OrderedMap κ β) (k : κ) : OrderedMap κ β :=
  ⟨m.entries.filter fun e => Key.lt e.1 k || Key.lt k e.1, m.sorted.filter _⟩

def keys (m : OrderedMap κ β) : List κ := m.entries.map Prod.fst

/-- The values in the order of their keys. -/
def values (m : OrderedMap κ β) : List β := m.entries.map Prod.snd

def size (m : OrderedMap κ β) : Nat := m.entries.length

def isEmpty (m : OrderedMap κ β) : Bool := m.entries.isEmpty

/-- Stores the pairs one after the other. -/
def ofList (es : List (κ × β)) : OrderedMap κ β :=
  es.foldl (fun m e => m.insert e.1 e.2) empty

/-- Replaces the value under `k`, if there is one, by its image. -/
def modify (m : OrderedMap κ β) (k : κ) (f : β → β) : OrderedMap κ β :=
  match m.find? k with
  | some v => m.insert k (f v)
  | none => m

/-- Replaces each value by its image. -/
def map (f : β → γ) (m : OrderedMap κ β) : OrderedMap κ γ :=
  ⟨m.entries.map fun e => (e.1, f e.2), m.sorted.map _ fun _ _ h => h⟩

theorem lookup_place_self (k : κ) (v : β) (es : List (κ × β)) :
    lookup k (place k v es) = some v := by
  induction es with
  | nil => simp [place, lookup, Key.irrefl]
  | cons hd tl ih =>
    simp only [place]
    split
    · rename_i h
      simpa [lookup, h] using ih
    · split <;> simp [lookup, Key.irrefl]

theorem lookup_place_of_ne {k k' : κ} (h : k' ≠ k) (v : β) {es : List (κ × β)}
    (hs : es.Pairwise fun a b => Key.lt a.1 b.1 = true) :
    lookup k' (place k v es) = lookup k' es := by
  induction es with
  | nil =>
    simp only [place, lookup]
    split
    · rfl
    · rename_i hlt
      split
      · rfl
      · rename_i hlt'
        exact absurd (Key.connected _ _ (by simpa using hlt') (by simpa using hlt)) h
  | cons hd tl ih =>
    obtain ⟨hhd, htl⟩ := List.pairwise_cons.1 hs
    simp only [place]
    split
    · simp only [lookup]
      split
      · exact ih htl
      · rfl
    · rename_i hge
      split
      · rename_i hlt
        simp only [lookup]
        cases hkk : Key.lt k k'
        · have hk'k : Key.lt k' k = true := by
            cases hk' : Key.lt k' k
            · exact absurd (Key.connected _ _ hk' hkk) h
            · rfl
          have : Key.lt k' hd.1 = true := Key.trans _ _ _ hk'k hlt
          simp [hk'k, this, Key.asymm this]
        · simp
      · rename_i hge'
        have hk : hd.1 = k := Key.connected _ _ (by simpa using hge) (by simpa using hge')
        subst hk
        simp only [lookup]
        cases hkk : Key.lt hd.1 k'
        · cases hk' : Key.lt k' hd.1
          · exact absurd (Key.connected _ _ hk' hkk) h
          · simp
        · simp

@[simp] theorem find?_empty (k : κ) : (empty : OrderedMap κ β).find? k = none := rfl

@[simp] theorem find?_insert_self (m : OrderedMap κ β) (k : κ) (v : β) :
    (m.insert k v).find? k = some v :=
  lookup_place_self k v m.entries

theorem find?_insert_of_ne (m : OrderedMap κ β) {k k' : κ} (h : k' ≠ k) (v : β) :
    (m.insert k v).find? k' = m.find? k' :=
  lookup_place_of_ne h v m.sorted

end OrderedMap

end Egress
