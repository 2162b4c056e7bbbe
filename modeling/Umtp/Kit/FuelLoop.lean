import Mathlib.Data.Sum.Basic
import Mathlib.Tactic.Common

/-! Unbounded loops, run for a given number of iterations. A loop ends when some number
of iterations is enough, and it diverges when none is. -/

set_option autoImplicit false

namespace FuelLoop

variable {σ β : Type*}

/-- Up to `n` iterations of `step`: `inl` goes round again, `inr` leaves the loop. -/
def run (step : σ → σ ⊕ β) : Nat → σ → Option β
  | 0, _ => none
  | n + 1, s =>
    match step s with
    | .inl s' => run step n s'
    | .inr b => some b

def Ends (step : σ → σ ⊕ β) (s : σ) (b : β) : Prop := ∃ n, run step n s = some b

def Diverges (step : σ → σ ⊕ β) (s : σ) : Prop := ∀ n, run step n s = none

theorem run_again {step : σ → σ ⊕ β} {s s' : σ} (h : step s = .inl s') (n : Nat) :
    run step (n + 1) s = run step n s' := by simp [run, h]

theorem run_leave {step : σ → σ ⊕ β} {s : σ} {b : β} (h : step s = .inr b) (n : Nat) :
    run step (n + 1) s = some b := by simp [run, h]

theorem ends_again {step : σ → σ ⊕ β} {s s' : σ} {b : β} (h : step s = .inl s')
    (he : Ends step s' b) : Ends step s b := by
  obtain ⟨n, hn⟩ := he
  exact ⟨n + 1, (run_again h n).trans hn⟩

theorem ends_leave {step : σ → σ ⊕ β} {s : σ} {b : β} (h : step s = .inr b) : Ends step s b :=
  ⟨1, run_leave h 0⟩

theorem run_mono {step : σ → σ ⊕ β} {n m : Nat} {s : σ} {b : β} (hnm : n ≤ m)
    (h : run step n s = some b) : run step m s = some b := by
  induction n generalizing m s with
  | zero => simp [run] at h
  | succ n ih =>
    obtain ⟨m, rfl⟩ : ∃ k, m = k + 1 := ⟨m - 1, by omega⟩
    cases hs : step s with
    | inl s' =>
      rw [run_again hs] at h ⊢
      exact ih (by omega) h
    | inr b' =>
      rw [run_leave hs] at h ⊢
      exact h

theorem ends_unique {step : σ → σ ⊕ β} {s : σ} {b c : β}
    (hb : Ends step s b) (hc : Ends step s c) : b = c := by
  obtain ⟨n, hn⟩ := hb
  obtain ⟨m, hm⟩ := hc
  have h1 := run_mono (Nat.le_max_left n m) hn
  have h2 := run_mono (Nat.le_max_right n m) hm
  rw [h1] at h2
  exact Option.some.inj h2

theorem not_ends_of_diverges {step : σ → σ ⊕ β} {s : σ} (h : Diverges step s) (b : β) :
    ¬ Ends step s b := by
  rintro ⟨n, hn⟩
  rw [h n] at hn
  contradiction

/-- Total correctness rule: `I` holds whenever the loop goes round, and every further
round lowers `μ`. The number of iterations is then at most `μ s + 1`. -/
theorem run_of_measure (step : σ → σ ⊕ β) (I : σ → Prop) (μ : σ → Nat)
    (hstep : ∀ s s', I s → step s = .inl s' → I s' ∧ μ s' < μ s)
    {s : σ} (hs : I s) {n : Nat} (hn : μ s < n) :
    ∃ t b, I t ∧ step t = .inr b ∧ run step n s = some b := by
  induction n generalizing s with
  | zero => omega
  | succ n ih =>
    cases h : step s with
    | inr b => exact ⟨s, b, hs, h, run_leave h n⟩
    | inl s' =>
      obtain ⟨hI, hμ⟩ := hstep s s' hs h
      obtain ⟨t, b, ht, hb, hr⟩ := ih hI (by omega)
      exact ⟨t, b, ht, hb, (run_again h n).trans hr⟩

/-- Partial correctness rule: the value a loop leaves with is the one its last round
gave, in a state where the invariant still held. -/
theorem run_post (step : σ → σ ⊕ β) (I : σ → Prop)
    (hstep : ∀ s s', I s → step s = .inl s' → I s')
    {n : Nat} {s : σ} {b : β} (hs : I s) (h : run step n s = some b) :
    ∃ t, I t ∧ step t = .inr b := by
  induction n generalizing s with
  | zero => simp [run] at h
  | succ n ih =>
    cases hc : step s with
    | inr c =>
      rw [run_leave hc] at h
      cases h
      exact ⟨s, hs, hc⟩
    | inl s' =>
      rw [run_again hc] at h
      exact ih (hstep s s' hs hc) h

/-- Divergence rule: from a state of `I` the loop only goes round, into `I` again. -/
theorem diverges_of_invariant (step : σ → σ ⊕ β) (I : σ → Prop)
    (hstep : ∀ s, I s → ∃ s', step s = .inl s' ∧ I s') {s : σ} (hs : I s) :
    Diverges step s := by
  intro n
  induction n generalizing s with
  | zero => rfl
  | succ n ih =>
    obtain ⟨s', h, hI⟩ := hstep s hs
    rw [run_again h]
    exact ih hI

end FuelLoop
