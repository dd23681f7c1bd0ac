import Mathlib.Data.List.Forall2

/-!
# Steps that can fail

A sequence of steps has an outcome if and only if each of its steps has one. Steps that also change
a state leave it to the next one, or as it is when they fail.
-/
namespace Egress

variable {ε β γ : Type}

@[simp] theorem throw_eq_error (e : ε) : (throw e : Except ε β) = .error e := rfl

@[simp] theorem pure_eq_ok (b : β) : (pure b : Except ε β) = .ok b := rfl

@[simp] theorem ok_bind (b : β) (f : β → Except ε γ) : (Except.ok b >>= f) = f b := rfl

@[simp] theorem error_bind (e : ε) (f : β → Except ε γ) :
    (Except.error e >>= f) = .error e := rfl

theorem isOk_iff {x : Except ε β} : x.isOk = true ↔ ∃ b, x = .ok b := by
  cases x with
  | error e => simp [Except.isOk, Except.toBool]
  | ok b => simp [Except.isOk, Except.toBool]

theorem bind_eq_ok_iff {x : Except ε β} {f : β → Except ε γ} {c : γ} :
    (x >>= f) = .ok c ↔ ∃ b, x = .ok b ∧ f b = .ok c := by
  cases x with
  | error e => simp
  | ok b => simp

theorem bind_eq_error_iff {x : Except ε β} {f : β → Except ε γ} {e : ε} :
    (x >>= f) = .error e ↔ x = .error e ∨ ∃ b, x = .ok b ∧ f b = .error e := by
  cases x with
  | error e' => simp
  | ok b => simp

theorem map_eq_ok_iff {x : Except ε β} {f : β → γ} {c : γ} :
    x.map f = .ok c ↔ ∃ b, x = .ok b ∧ f b = c := by
  cases x with
  | error e => simp [Except.map]
  | ok b => simp [Except.map]

theorem map_eq_error_iff {x : Except ε β} {f : β → γ} {e : ε} :
    x.map f = .error e ↔ x = .error e := by
  cases x with
  | error e => simp [Except.map]
  | ok b => simp [Except.map]

theorem mapError_eq_ok_iff {ε' : Type} {f : ε → ε'} {x : Except ε β} {b : β} :
    x.mapError f = .ok b ↔ x = .ok b := by
  cases x with
  | error e => simp [Except.mapError]
  | ok b => simp [Except.mapError]

theorem exists_mapM {f : β → Except ε γ} {xs : List β} (h : ∀ x ∈ xs, ∃ y, f x = .ok y) :
    ∃ ys, xs.mapM f = .ok ys := by
  induction xs with
  | nil => exact ⟨[], rfl⟩
  | cons x xs ih =>
    obtain ⟨y, hy⟩ := h x List.mem_cons_self
    obtain ⟨ys, hys⟩ := ih fun x' hx' => h x' (List.mem_cons_of_mem x hx')
    exact ⟨y :: ys, by simp [List.mapM_cons, hy, hys]⟩

theorem mapM_cons_eq_ok_iff {f : β → Except ε γ} {x : β} {xs : List β} {ys : List γ} :
    (x :: xs).mapM f = .ok ys ↔
      ∃ y zs, f x = .ok y ∧ xs.mapM f = .ok zs ∧ ys = y :: zs := by
  simp only [List.mapM_cons, bind_eq_ok_iff, pure_eq_ok, Except.ok.injEq]
  constructor
  · rintro ⟨y, hy, zs, hzs, rfl⟩
    exact ⟨y, zs, hy, hzs, rfl⟩
  · rintro ⟨y, zs, hy, hzs, rfl⟩
    exact ⟨y, hy, zs, hzs, rfl⟩

theorem mapM_eq_ok_iff_forall₂ {f : β → Except ε γ} {xs : List β} {ys : List γ} :
    xs.mapM f = .ok ys ↔ List.Forall₂ (fun x y => f x = .ok y) xs ys := by
  induction xs generalizing ys with
  | nil => simp [List.mapM_nil, eq_comm]
  | cons x xs ih =>
    simp only [mapM_cons_eq_ok_iff, List.forall₂_cons_left_iff, ih]

/-- Each element of a list that has an outcome contributes its own to it. -/
theorem exists_mem_of_mapM {f : β → Except ε γ} {xs : List β} {ys : List γ}
    (h : xs.mapM f = .ok ys) {x : β} (hx : x ∈ xs) : ∃ y ∈ ys, f x = .ok y := by
  induction xs generalizing ys with
  | nil => cases hx
  | cons x' xs ih =>
    obtain ⟨y, zs, hy, hzs, rfl⟩ := mapM_cons_eq_ok_iff.1 h
    rcases List.mem_cons.1 hx with rfl | hx
    · exact ⟨y, List.mem_cons_self, hy⟩
    · obtain ⟨z, hz, hxz⟩ := ih hzs hx
      exact ⟨z, List.mem_cons_of_mem y hz, hxz⟩

/-- What the outcome of a list holds is the outcome of one of its elements. -/
theorem exists_of_mem_mapM {f : β → Except ε γ} {xs : List β} {ys : List γ}
    (h : xs.mapM f = .ok ys) {y : γ} (hy : y ∈ ys) : ∃ x ∈ xs, f x = .ok y := by
  induction xs generalizing ys with
  | nil =>
    obtain rfl : [] = ys := Except.ok.inj h
    cases hy
  | cons x xs ih =>
    obtain ⟨y', zs, hy', hzs, rfl⟩ := mapM_cons_eq_ok_iff.1 h
    rcases List.mem_cons.1 hy with rfl | hy
    · exact ⟨x, List.mem_cons_self, hy'⟩
    · obtain ⟨x', hx', hxy⟩ := ih hzs hy
      exact ⟨x', List.mem_cons_of_mem x hx', hxy⟩

/-- Steps that fail together or have related outcomes on each element of a list do so on the whole
list. -/
theorem mapM_related {f f' : β → Except ε γ} {S : γ → γ → Prop} {xs : List β}
    (h : ∀ x ∈ xs, (∃ e, f x = .error e ∧ f' x = .error e) ∨
      ∃ y y', f x = .ok y ∧ f' x = .ok y' ∧ S y y') :
    (∃ e, xs.mapM f = .error e ∧ xs.mapM f' = .error e) ∨
      ∃ ys ys', xs.mapM f = .ok ys ∧ xs.mapM f' = .ok ys' ∧ List.Forall₂ S ys ys' := by
  induction xs with
  | nil => exact .inr ⟨[], [], rfl, rfl, .nil⟩
  | cons x xs ih =>
    simp only [List.mapM_cons]
    rcases h x List.mem_cons_self with ⟨e, hx, hx'⟩ | ⟨y, y', hx, hx', hy⟩
    · exact .inl ⟨e, by rw [hx, error_bind], by rw [hx', error_bind]⟩
    · simp only [hx, hx', ok_bind]
      rcases ih fun x' hmem => h x' (List.mem_cons_of_mem x hmem) with
        ⟨e, hxs, hxs'⟩ | ⟨ys, ys', hxs, hxs', hys⟩
      · exact .inl ⟨e, by rw [hxs, error_bind], by rw [hxs', error_bind]⟩
      · exact .inr ⟨y :: ys, y' :: ys', by rw [hxs]; rfl, by rw [hxs']; rfl, .cons hy hys⟩

/-- What every step keeps holds of the outcome of all. -/
theorem foldlM_holds {P : γ → Prop} {f : γ → β → Except ε γ}
    (hf : ∀ c x c', P c → f c x = .ok c' → P c') {xs : List β} {c c' : γ}
    (h : xs.foldlM f c = .ok c') (hc : P c) : P c' := by
  induction xs generalizing c with
  | nil =>
    obtain rfl : c = c' := Except.ok.inj h
    exact hc
  | cons x xs ih =>
    rw [List.foldlM_cons] at h
    obtain ⟨c₁, hx, hrest⟩ := bind_eq_ok_iff.1 h
    exact ih hrest (hf c x c₁ hc hx)

section
variable {σ : Type}

@[simp] theorem ofExcept_ok (b : β) :
    (MonadExcept.ofExcept (.ok b : Except ε β) : ExceptT ε (StateM σ) β) = pure b := rfl

@[simp] theorem ofExcept_error (e : ε) :
    (MonadExcept.ofExcept (.error e) : ExceptT ε (StateM σ) β) = throw e := rfl

@[simp] theorem run_get_bind (f : σ → ExceptT ε (StateM σ) γ) (s : σ) :
    (get >>= f).run s = (f s).run s := rfl

@[simp] theorem run_modify_bind (u : σ → σ) (f : PUnit → ExceptT ε (StateM σ) γ) (s : σ) :
    (modify u >>= f).run s = (f ⟨⟩).run (u s) := rfl

@[simp] theorem run_modify (u : σ → σ) (s : σ) :
    (modify u : ExceptT ε (StateM σ) PUnit).run s = (.ok ⟨⟩, u s) := rfl

@[simp] theorem run_throw_bind (e : ε) (f : β → ExceptT ε (StateM σ) γ) (s : σ) :
    (throw e >>= f).run s = (.error e, s) := rfl

@[simp] theorem run_throw (e : ε) (s : σ) :
    (throw e : ExceptT ε (StateM σ) β).run s = (.error e, s) := rfl

end

/-- The steps, taken from the state `s`, end with an outcome and a state of which `Q` holds. -/
def Ends {σ : Type} (x : ExceptT ε (StateM σ) β) (s : σ) (Q : Except ε β → σ → Prop) : Prop :=
  Q (x.run s).1 (x.run s).2

section
variable {σ : Type} {x : ExceptT ε (StateM σ) β} {f : β → ExceptT ε (StateM σ) γ} {s : σ}
  {Q : Except ε γ → σ → Prop}

theorem Ends.bind {R : Except ε β → σ → Prop} (hx : Ends x s R)
    (hok : ∀ b s', R (.ok b) s' → Ends (f b) s' Q)
    (herror : ∀ e s', R (.error e) s' → Q (.error e) s') : Ends (x >>= f) s Q := by
  have hrun : (x >>= f).run s = ExceptT.bindCont f (x.run s).1 (x.run s).2 := rfl
  unfold Ends at hx ⊢
  rw [hrun]
  generalize (x.run s).2 = s' at hx ⊢
  cases hres : (x.run s).1 with
  | ok b =>
    rw [hres] at hx
    exact hok b s' hx
  | error e =>
    rw [hres] at hx
    exact herror e s' hx

theorem ends_get_bind {f : σ → ExceptT ε (StateM σ) γ} : Ends (get >>= f) s Q ↔ Ends (f s) s Q :=
  Iff.rfl

theorem ends_modify_bind {f : PUnit → ExceptT ε (StateM σ) γ} {u : σ → σ} :
    Ends (modify u >>= f) s Q ↔ Ends (f ⟨⟩) (u s) Q :=
  Iff.rfl

end

/-- The steps, each taken from a state of its own, end with the same outcome and in states that are
related by `R`. -/
def EndAlike {σ : Type} (R : σ → σ → Prop) (x : ExceptT ε (StateM σ) β) (s : σ)
    (x' : ExceptT ε (StateM σ) β) (s' : σ) : Prop :=
  R (x.run s).2 (x'.run s').2 ∧ (x.run s).1 = (x'.run s').1

section
variable {σ : Type} {R : σ → σ → Prop} {x x' : ExceptT ε (StateM σ) β} {s s' : σ}

theorem EndAlike.bind {f f' : β → ExceptT ε (StateM σ) γ} (hx : EndAlike R x s x' s')
    (hf : ∀ b t t', R t t' → EndAlike R (f b) t (f' b) t') :
    EndAlike R (x >>= f) s (x' >>= f') s' := by
  have hrun (x : ExceptT ε (StateM σ) β) (f : β → ExceptT ε (StateM σ) γ) (s : σ) :
      (x >>= f).run s = ExceptT.bindCont f (x.run s).1 (x.run s).2 := rfl
  obtain ⟨hstate, hresult⟩ := hx
  unfold EndAlike
  rw [hrun, hrun, ← hresult]
  cases (x.run s).1 with
  | ok b => exact hf b _ _ hstate
  | error e => exact ⟨hstate, rfl⟩

theorem endAlike_get_bind {f f' : σ → ExceptT ε (StateM σ) γ} :
    EndAlike R (get >>= f) s (get >>= f') s' ↔ EndAlike R (f s) s (f' s') s' :=
  Iff.rfl

theorem endAlike_modify_bind {f f' : PUnit → ExceptT ε (StateM σ) γ} {u u' : σ → σ} :
    EndAlike R (modify u >>= f) s (modify u' >>= f') s' ↔
      EndAlike R (f ⟨⟩) (u s) (f' ⟨⟩) (u' s') :=
  Iff.rfl

theorem endAlike_pure (b : β) (h : R s s') :
    EndAlike R (pure b : ExceptT ε (StateM σ) β) s (pure b) s' :=
  ⟨h, rfl⟩

theorem endAlike_throw (e : ε) (h : R s s') :
    EndAlike R (throw e : ExceptT ε (StateM σ) β) s (throw e) s' :=
  ⟨h, rfl⟩

end

end Egress
