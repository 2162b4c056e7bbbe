import Mathlib.Data.List.Induction
import Mathlib.Tactic.Common

set_option autoImplicit false

namespace FiniteRun

variable {σ α : Type*}

/-- `Run step s as t`: the steps labelled `as`, oldest first, lead from `s` to `t`. -/
inductive Run (step : σ → α → σ → Prop) (s : σ) : List α → σ → Prop where
  | nil : Run step s [] s
  | snoc {as : List α} {a : α} {t u : σ} :
      Run step s as t → step t a u → Run step s (as ++ [a]) u

theorem Run.history {step : σ → α → σ → Prop} {s : σ} (I : List α → σ → Prop) (h0 : I [] s)
    (hstep : ∀ as a t u, Run step s as t → I as t → step t a u → I (as ++ [a]) u)
    {as : List α} {t : σ} (hr : Run step s as t) : I as t := by
  induction hr with
  | nil => exact h0
  | snoc hr h ih => exact hstep _ _ _ _ hr ih h

theorem Run.invariant {step : σ → α → σ → Prop} (I : σ → Prop)
    (hstep : ∀ s a t, I s → step s a t → I t) {s t : σ} {as : List α}
    (hr : Run step s as t) (hs : I s) : I t :=
  hr.history (fun _ t => I t) hs (fun _ a t u _ ht h => hstep t a u ht h)

theorem Run.mono {step step' : σ → α → σ → Prop}
    (hsub : ∀ s a t, step s a t → step' s a t) {s t : σ} {as : List α}
    (hr : Run step s as t) : Run step' s as t := by
  induction hr with
  | nil => exact .nil
  | snoc _ h ih => exact ih.snoc (hsub _ _ _ h)

/-- The rank rule: what is still awaited at the end was awaited all along, and every step that
counts has lowered the rank. -/
theorem Run.rank {step : σ → α → σ → Prop} {I Awaited : σ → Prop} (rank : σ → Nat)
    {counts : α → Bool} (hinv : ∀ s a t, I s → step s a t → I t)
    (hrank : ∀ s a t, I s → step s a t → Awaited t →
      Awaited s ∧ rank t + (if counts a then 1 else 0) ≤ rank s)
    {s t : σ} {as : List α} (hr : Run step s as t) (hs : I s) (ht : Awaited t) :
    Awaited s ∧ rank t + as.countP counts ≤ rank s := by
  induction hr with
  | nil => exact ⟨ht, Nat.le_refl _⟩
  | @snoc as a t u hr hlast ih =>
    obtain ⟨hmid, hle⟩ := hrank t a u (hr.invariant I hinv hs) hlast ht
    obtain ⟨hfirst, hbefore⟩ := ih hmid
    refine ⟨hfirst, ?_⟩
    rw [List.countP_append, List.countP_singleton]
    omega

theorem run_of_foldlM {next : σ → α → Option σ} {s t : σ} {as : List α}
    (h : as.foldlM next s = some t) : Run (fun s a t => next s a = some t) s as t := by
  induction as using List.reverseRecOn generalizing t with
  | nil =>
    cases h
    exact .nil
  | append_singleton as a ih =>
    rw [List.foldlM_append, Option.bind_eq_bind, Option.bind_eq_some_iff] at h
    obtain ⟨u, hu, hlast⟩ := h
    have hnext : next u a = some t := by simpa using hlast
    exact (ih hu).snoc hnext

end FiniteRun
