/-!
# Keys

Things are stored under keys that have a strict order: whole numbers, texts, and pairs of keys
compared component by component. A new kind of key is ordered through a map into one of these that
keeps distinct keys apart.
-/
namespace Egress

/-- Keys with a strict order in which two keys neither of which comes first are the same. -/
class Key (κ : Type) where
  lt : κ → κ → Bool
  irrefl : ∀ a, lt a a = false
  trans : ∀ a b c, lt a b = true → lt b c = true → lt a c = true
  connected : ∀ a b, lt a b = false → lt b a = false → a = b

namespace Key

instance : Key Nat where
  lt a b := decide (a < b)
  irrefl a := by simp
  trans a b c := by simp only [decide_eq_true_eq]; omega
  connected a b := by simp only [decide_eq_false_iff_not]; omega

instance : Key Int where
  lt a b := decide (a < b)
  irrefl a := by simp
  trans a b c := by simp only [decide_eq_true_eq]; omega
  connected a b := by simp only [decide_eq_false_iff_not]; omega

/-- Texts are ordered by their code points. -/
instance : Key String where
  lt a b := decide (a < b)
  irrefl a := by simp
  trans a b c := by simpa only [decide_eq_true_eq] using String.lt_trans
  connected a b := by
    simp only [decide_eq_false_iff_not]
    exact fun h h' => String.le_antisymm (String.not_lt.1 h') (String.not_lt.1 h)

/-- Pairs are ordered by their first components, and by their second where those are the same. -/
instance {κ μ : Type} [Key κ] [Key μ] : Key (κ × μ) where
  lt a b := lt a.1 b.1 || (!lt b.1 a.1 && lt a.2 b.2)
  irrefl a := by simp [irrefl]
  trans a b c h h' := by
    obtain ⟨a₁, a₂⟩ := a
    obtain ⟨b₁, b₂⟩ := b
    obtain ⟨c₁, c₂⟩ := c
    simp only [Bool.or_eq_true, Bool.and_eq_true, Bool.not_eq_true'] at h h' ⊢
    have decide₁ (x y : κ) : lt x y = true ∨ x = y ∨ lt y x = true := by
      cases hxy : lt x y
      · cases hyx : lt y x
        · exact .inr (.inl (connected x y hxy hyx))
        · exact .inr (.inr rfl)
      · exact .inl rfl
    rcases decide₁ a₁ b₁ with hab | rfl | hba
    · rcases decide₁ b₁ c₁ with hbc | rfl | hcb
      · exact .inl (trans _ _ _ hab hbc)
      · exact .inl hab
      · rcases h' with h' | h'
        · exact .inl (trans _ _ _ hab h')
        · rw [hcb] at h'; exact absurd h'.1 (by simp)
    · rcases h with h | h
      · exact absurd h (by simp [irrefl])
      · rcases h' with h' | h'
        · exact .inl h'
        · exact .inr ⟨h'.1, trans _ _ _ h.2 h'.2⟩
    · rcases h with h | h
      · have := trans _ _ _ h hba
        exact absurd this (by simp [irrefl])
      · rw [hba] at h; exact absurd h.1 (by simp)
  connected a b h h' := by
    obtain ⟨a₁, a₂⟩ := a
    obtain ⟨b₁, b₂⟩ := b
    simp only [Bool.or_eq_false_iff, Bool.and_eq_false_iff, Bool.not_eq_false'] at h h'
    have h₁ : a₁ = b₁ := connected _ _ h.1 h'.1
    subst h₁
    have h₂ : lt a₂ b₂ = false := h.2.resolve_left (by simp [irrefl])
    have h₃ : lt b₂ a₂ = false := h'.2.resolve_left (by simp [irrefl])
    rw [connected _ _ h₂ h₃]

/-- The order of keys seen through a map that keeps distinct keys apart. -/
@[reducible] def lift {κ μ : Type} [Key μ] (f : κ → μ) (injective : ∀ a b, f a = f b → a = b) :
    Key κ where
  lt a b := lt (f a) (f b)
  irrefl a := irrefl (f a)
  trans a b c := trans (f a) (f b) (f c)
  connected _ _ h h' := injective _ _ (connected _ _ h h')

variable {κ : Type} [Key κ]

theorem ne_of_lt {a b : κ} (h : lt a b = true) : a ≠ b := by
  rintro rfl
  rw [irrefl] at h
  exact absurd h (by simp)

theorem asymm {a b : κ} (h : lt a b = true) : lt b a = false := by
  cases h' : lt b a
  · rfl
  · have := trans _ _ _ h h'
    rw [irrefl] at this
    exact absurd this (by simp)

end Key

end Egress
