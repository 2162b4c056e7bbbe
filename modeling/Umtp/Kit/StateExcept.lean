import Mathlib.Order.Defs.Unbundled
import Mathlib.Tactic.Common

/-! Computations over a state that may stop with an error, the state being kept when they
do: how they run, and the relations between first and last state that they respect. -/

set_option autoImplicit false

namespace StateExcept

variable {ε σ α β : Type}

@[simp] theorem run_map (f : α → β) (x : EStateM ε σ α) (s : σ) :
    (f <$> x).run s =
      match x.run s with
      | .ok a t => .ok (f a) t
      | .error e t => .error e t := rfl

@[simp] theorem run_throw (e : ε) (s : σ) : (throw e : EStateM ε σ α).run s = .error e s := rfl

theorem of_bind_ok {x : EStateM ε σ α} {f : α → EStateM ε σ β} {s t : σ} {b : β}
    (h : (x >>= f).run s = .ok b t) : ∃ a u, x.run s = .ok a u ∧ (f a).run u = .ok b t := by
  rw [EStateM.run_bind] at h
  cases hx : x.run s with
  | ok a u =>
    rw [hx] at h
    exact ⟨a, u, rfl, h⟩
  | error e u =>
    rw [hx] at h
    cases h

def final : EStateM.Result ε σ α → σ
  | .ok _ s => s
  | .error _ s => s

@[simp] theorem final_ok (a : α) (s : σ) : final (.ok a s : EStateM.Result ε σ α) = s := rfl

@[simp] theorem final_error (e : ε) (s : σ) : final (.error e s : EStateM.Result ε σ α) = s := rfl

/-- However `x` ends, the state it ends in is related to the one it starts in. -/
structure Moves (R : σ → σ → Prop) (x : EStateM ε σ α) : Prop where
  rel : ∀ s, R s (final (x.run s))

section Rules

variable {R : σ → σ → Prop}

theorem Moves.of_ok {x : EStateM ε σ α} (hx : Moves R x) {s t : σ} {a : α}
    (h : x.run s = .ok a t) : R s t := by
  have := hx.rel s
  rwa [h] at this

theorem Moves.of_error {x : EStateM ε σ α} (hx : Moves R x) {s t : σ} {e : ε}
    (h : x.run s = .error e t) : R s t := by
  have := hx.rel s
  rwa [h] at this

theorem Moves.weaken {R' : σ → σ → Prop} {x : EStateM ε σ α} (hx : Moves R' x)
    (h : ∀ s t, R' s t → R s t) : Moves R x := ⟨fun s => h _ _ (hx.rel s)⟩

theorem moves_modify {f : σ → σ} (h : ∀ s, R s (f s)) :
    Moves R (modify f : EStateM ε σ PUnit) := ⟨h⟩

theorem moves_bind [IsTrans σ R] {x : EStateM ε σ α} {f : α → EStateM ε σ β} (hx : Moves R x)
    (hf : ∀ a, Moves R (f a)) : Moves R (x >>= f) := by
  constructor
  intro s
  rw [EStateM.run_bind]
  cases h : x.run s with
  | error e t => exact hx.of_error h
  | ok a t => exact trans_of R (hx.of_ok h) ((hf a).rel t)

variable [Std.Refl R]

theorem moves_pure (a : α) : Moves R (pure a : EStateM ε σ α) := ⟨fun s => refl_of R s⟩

theorem moves_throw (e : ε) : Moves R (throw e : EStateM ε σ α) := ⟨fun s => refl_of R s⟩

theorem moves_get : Moves R (get : EStateM ε σ σ) := ⟨fun s => refl_of R s⟩

theorem moves_forM [IsTrans σ R] {xs : List α} {f : α → EStateM ε σ PUnit}
    (hf : ∀ a ∈ xs, Moves R (f a)) : Moves R (forM xs f) := by
  induction xs with
  | nil => exact moves_pure _
  | cons a xs ih =>
    rw [List.forM_cons]
    exact moves_bind (hf a (by simp)) (fun _ => ih fun b hb => hf b (by simp [hb]))

end Rules

def Keeps (I : σ → Prop) (s t : σ) : Prop := I s → I t

instance (I : σ → Prop) : Std.Refl (Keeps I) := ⟨fun _ h => h⟩

instance (I : σ → Prop) : IsTrans σ (Keeps I) := ⟨fun _ _ _ h₁ h₂ h => h₂ (h₁ h)⟩

structure Total (x : EStateM ε σ α) : Prop where
  ok : ∀ s, ∃ a t, x.run s = .ok a t

theorem total_pure (a : α) : Total (pure a : EStateM ε σ α) := ⟨fun s => ⟨a, s, rfl⟩⟩

theorem total_get : Total (get : EStateM ε σ σ) := ⟨fun s => ⟨s, s, rfl⟩⟩

theorem total_modify (f : σ → σ) : Total (modify f : EStateM ε σ PUnit) :=
  ⟨fun s => ⟨_, f s, rfl⟩⟩

theorem total_bind {x : EStateM ε σ α} {f : α → EStateM ε σ β} (hx : Total x)
    (hf : ∀ a, Total (f a)) : Total (x >>= f) := by
  constructor
  intro s
  obtain ⟨a, t, hr⟩ := hx.ok s
  rw [EStateM.run_bind, hr]
  exact (hf a).ok t

/-! Total correctness: `x` comes back from `s`, and `P` holds then. -/

def Returns (P : α → σ → Prop) (x : EStateM ε σ α) (s : σ) : Prop :=
  ∃ a t, x.run s = .ok a t ∧ P a t

section

variable {P : α → σ → Prop} {x : EStateM ε σ α} {s : σ}

theorem returns_pure {a : α} (h : P a s) : Returns P (pure a : EStateM ε σ α) s := ⟨a, s, rfl, h⟩

theorem returns_get {Q : σ → σ → Prop} (h : Q s s) :
    Returns Q (get : EStateM ε σ σ) s := ⟨s, s, rfl, h⟩

theorem Returns.weaken {Q : α → σ → Prop} (hx : Returns P x s) (h : ∀ a t, P a t → Q a t) :
    Returns Q x s := by
  obtain ⟨a, t, hr, hp⟩ := hx
  exact ⟨a, t, hr, h a t hp⟩

theorem Returns.bind {Q : β → σ → Prop} {f : α → EStateM ε σ β} (hx : Returns P x s)
    (hf : ∀ a t, P a t → Returns Q (f a) t) : Returns Q (x >>= f) s := by
  obtain ⟨a, t, hr, hp⟩ := hx
  obtain ⟨b, u, hr', hq⟩ := hf a t hp
  refine ⟨b, u, ?_, hq⟩
  rw [EStateM.run_bind, hr]
  exact hr'

theorem Total.returns {R : σ → σ → Prop} (ht : Total x) (hm : Moves R x) (s : σ) :
    Returns (fun _ t => R s t) x s := by
  obtain ⟨a, t, hr⟩ := ht.ok s
  exact ⟨a, t, hr, hm.of_ok hr⟩

theorem returns_forM {I : σ → Prop} (xs : List α) {f : α → EStateM ε σ PUnit}
    (hf : ∀ a s, I s → Returns (fun _ => I) (f a) s) (hs : I s) :
    Returns (fun _ => I) (forM xs f) s := by
  induction xs generalizing s with
  | nil => exact returns_pure hs
  | cons a xs ih =>
    rw [List.forM_cons]
    exact (hf a s hs).bind fun _ t ht => ih ht

theorem Returns.moves {R : σ → σ → Prop} (hx : Returns P x s) (hm : Moves R x) :
    Returns (fun a t => P a t ∧ R s t) x s := by
  obtain ⟨a, t, hr, hp⟩ := hx
  exact ⟨a, t, hr, hp, hm.of_ok hr⟩

end

/-! Partial correctness: if `x` comes back from `s` then `P` holds, and if it stops it is not
for a reason in `bad`. -/

structure Safely (bad : ε → Prop) (P : α → σ → Prop) (x : EStateM ε σ α) (s : σ) : Prop where
  post : ∀ a t, x.run s = .ok a t → P a t
  fine : ∀ e t, x.run s = .error e t → ¬ bad e

section

variable {bad : ε → Prop} {P : α → σ → Prop} {x : EStateM ε σ α} {s : σ}

theorem safely_of_ok {a : α} {t : σ} (h : x.run s = .ok a t) (hp : P a t) : Safely bad P x s := by
  constructor
  · intro b u hr
    rw [h] at hr
    cases hr
    exact hp
  · intro e u hr
    rw [h] at hr
    cases hr

theorem safely_of_error {e : ε} {t : σ} (h : x.run s = .error e t) (he : ¬ bad e) :
    Safely bad P x s := by
  constructor
  · intro b u hr
    rw [h] at hr
    cases hr
  · intro e' u hr
    rw [h] at hr
    cases hr
    exact he

theorem safely_pure {a : α} (h : P a s) : Safely bad P (pure a : EStateM ε σ α) s :=
  safely_of_ok rfl h

theorem safely_throw {e : ε} (h : ¬ bad e) : Safely bad P (throw e : EStateM ε σ α) s :=
  safely_of_error rfl h

theorem safely_get {Q : σ → σ → Prop} (h : Q s s) :
    Safely bad Q (get : EStateM ε σ σ) s := safely_of_ok rfl h

theorem safely_modify {f : σ → σ} {Q : PUnit → σ → Prop} (h : Q ⟨⟩ (f s)) :
    Safely bad Q (modify f : EStateM ε σ PUnit) s := safely_of_ok rfl h

theorem Returns.safely (h : Returns P x s) : Safely bad P x s := by
  obtain ⟨a, t, hr, hp⟩ := h
  exact safely_of_ok hr hp

theorem Safely.weaken {Q : α → σ → Prop} (hx : Safely bad P x s) (h : ∀ a t, P a t → Q a t) :
    Safely bad Q x s := ⟨fun a t hr => h a t (hx.post a t hr), hx.fine⟩

theorem Safely.bind {Q : β → σ → Prop} {f : α → EStateM ε σ β} (hx : Safely bad P x s)
    (hf : ∀ a t, P a t → Safely bad Q (f a) t) : Safely bad Q (x >>= f) s := by
  cases hr : x.run s with
  | error e t =>
    apply safely_of_error (e := e) (t := t)
    · rw [EStateM.run_bind, hr]
    · exact hx.fine e t hr
  | ok a t =>
    have hrun : (x >>= f).run s = (f a).run t := by rw [EStateM.run_bind, hr]
    have hfa := hf a t (hx.post a t hr)
    exact ⟨fun b u h => hfa.post b u (hrun ▸ h), fun e u h => hfa.fine e u (hrun ▸ h)⟩

theorem Safely.congr {y : EStateM ε σ α} {t : σ} (hy : Safely bad P y t) (h : x.run s = y.run t) :
    Safely bad P x s := ⟨fun a u hr => hy.post a u (h ▸ hr), fun e u hr => hy.fine e u (h ▸ hr)⟩

theorem Safely.moves {R : σ → σ → Prop} (hx : Safely bad P x s) (hm : Moves R x) :
    Safely bad (fun a t => P a t ∧ R s t) x s :=
  ⟨fun a t hr => ⟨hx.post a t hr, hm.of_ok hr⟩, hx.fine⟩

theorem safely_forM {I : σ → Prop} (xs : List α) {f : α → EStateM ε σ PUnit}
    (hf : ∀ a s, I s → Safely bad (fun _ => I) (f a) s) (hs : I s) :
    Safely bad (fun _ => I) (forM xs f) s := by
  induction xs generalizing s with
  | nil => exact safely_pure hs
  | cons a xs ih =>
    rw [List.forM_cons]
    exact (hf a s hs).bind (fun _ t ht => ih ht)

end

end StateExcept
