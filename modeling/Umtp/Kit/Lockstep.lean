import Umtp.Kit.StateExcept

/-! Two computations side by side, from states of their own: where the first comes back so
does the second, with what `R` relates, and where the first stops so does the second. -/

set_option autoImplicit false

namespace StateExcept

variable {ε σ τ α β γ δ : Type}

structure Lockstep (R : α → σ → β → τ → Prop) (x : EStateM ε σ α) (y : EStateM ε τ β) (s : σ)
    (t : τ) : Prop where
  ok : ∀ a s', x.run s = .ok a s' → ∃ b t', y.run t = .ok b t' ∧ R a s' b t'
  error : ∀ e s', x.run s = .error e s' → ∃ e' t', y.run t = .error e' t'

section

variable {R : α → σ → β → τ → Prop} {x : EStateM ε σ α} {y : EStateM ε τ β} {s : σ} {t : τ}

theorem lockstep_of_ok {a : α} {b : β} {s' : σ} {t' : τ} (hx : x.run s = .ok a s')
    (hy : y.run t = .ok b t') (h : R a s' b t') : Lockstep R x y s t := by
  constructor
  · intro a₁ s₁ hr
    rw [hx] at hr
    cases hr
    exact ⟨b, t', hy, h⟩
  · intro e s₁ hr
    rw [hx] at hr
    cases hr

theorem lockstep_of_error {e e' : ε} {s' : σ} {t' : τ} (hx : x.run s = .error e s')
    (hy : y.run t = .error e' t') : Lockstep R x y s t := by
  constructor
  · intro a s₁ hr
    rw [hx] at hr
    cases hr
  · intro e₁ s₁ hr
    exact ⟨e', t', hy⟩

theorem lockstep_pure {a : α} {b : β} (h : R a s b t) :
    Lockstep R (pure a : EStateM ε σ α) (pure b : EStateM ε τ β) s t := lockstep_of_ok rfl rfl h

theorem lockstep_throw (e e' : ε) :
    Lockstep R (throw e : EStateM ε σ α) (throw e' : EStateM ε τ β) s t :=
  lockstep_of_error rfl rfl

theorem lockstep_get {R : σ → σ → τ → τ → Prop} (h : R s s t t) :
    Lockstep R (get : EStateM ε σ σ) (get : EStateM ε τ τ) s t := lockstep_of_ok rfl rfl h

theorem lockstep_modify {f : σ → σ} {g : τ → τ} {R : PUnit → σ → PUnit → τ → Prop}
    (h : R ⟨⟩ (f s) ⟨⟩ (g t)) :
    Lockstep R (modify f : EStateM ε σ PUnit) (modify g : EStateM ε τ PUnit) s t :=
  lockstep_of_ok rfl rfl h

theorem Lockstep.weaken {R' : α → σ → β → τ → Prop} (h : Lockstep R x y s t)
    (hR : ∀ a s' b t', R a s' b t' → R' a s' b t') : Lockstep R' x y s t := by
  constructor
  · intro a s' hr
    obtain ⟨b, t', hy, hrel⟩ := h.ok a s' hr
    exact ⟨b, t', hy, hR _ _ _ _ hrel⟩
  · exact h.error

theorem Lockstep.bind {R' : γ → σ → δ → τ → Prop} {f : α → EStateM ε σ γ} {g : β → EStateM ε τ δ}
    (h : Lockstep R x y s t)
    (hf : ∀ a s' b t', R a s' b t' → Lockstep R' (f a) (g b) s' t') :
    Lockstep R' (x >>= f) (y >>= g) s t := by
  cases hx : x.run s with
  | ok a s' =>
    obtain ⟨b, t', hy, hrel⟩ := h.ok a s' hx
    have hfg := hf a s' b t' hrel
    constructor
    · intro c s₁ hr
      rw [EStateM.run_bind, hx] at hr
      rw [EStateM.run_bind, hy]
      exact hfg.ok c s₁ hr
    · intro e s₁ hr
      rw [EStateM.run_bind, hx] at hr
      rw [EStateM.run_bind, hy]
      exact hfg.error e s₁ hr
  | error e s' =>
    obtain ⟨e', t', hy⟩ := h.error e s' hx
    have hx' : (x >>= f).run s = .error e s' := by rw [EStateM.run_bind, hx]
    have hy' : (y >>= g).run t = .error e' t' := by rw [EStateM.run_bind, hy]
    exact lockstep_of_error hx' hy'

/-- The second side may go on alone, as long as it comes back. -/
theorem Lockstep.follow {R' : α → σ → δ → τ → Prop} {g : β → EStateM ε τ δ}
    (h : Lockstep R x y s t)
    (hg : ∀ a s' b t', R a s' b t' → Returns (fun d t'' => R' a s' d t'') (g b) t') :
    Lockstep R' x (y >>= g) s t := by
  constructor
  · intro a s' hr
    obtain ⟨b, t', hy, hrel⟩ := h.ok a s' hr
    obtain ⟨d, t'', hd, hrel'⟩ := hg a s' b t' hrel
    exact ⟨d, t'', by rw [EStateM.run_bind, hy]; exact hd, hrel'⟩
  · intro e s' hr
    obtain ⟨e', t', hy⟩ := h.error e s' hr
    exact ⟨e', t', by rw [EStateM.run_bind, hy]⟩

/-- What both sides are known to respect on their own may be added to what relates them. -/
theorem Lockstep.moves {S : σ → σ → Prop} {T : τ → τ → Prop} (h : Lockstep R x y s t)
    (hx : Moves S x) (hy : Moves T y) :
    Lockstep (fun a s' b t' => R a s' b t' ∧ S s s' ∧ T t t') x y s t := by
  constructor
  · intro a s' hr
    obtain ⟨b, t', hr', hrel⟩ := h.ok a s' hr
    exact ⟨b, t', hr', hrel, hx.of_ok hr, hy.of_ok hr'⟩
  · exact h.error

theorem Lockstep.congr {x' : EStateM ε σ α} {y' : EStateM ε τ β} {s' : σ} {t' : τ}
    (h : Lockstep R x' y' s' t') (hx : x.run s = x'.run s') (hy : y.run t = y'.run t') :
    Lockstep R x y s t := by
  constructor
  · rw [hx, hy]
    exact h.ok
  · rw [hx, hy]
    exact h.error

end

end StateExcept
