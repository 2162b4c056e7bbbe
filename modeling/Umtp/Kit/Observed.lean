import Mathlib.Tactic.Common

/-! Machines that answer each call: what a caller sees of a machine is the list of its answers. -/

set_option autoImplicit false

namespace Observed

variable {σ τ α β : Type*}

def answers (exec : α → σ → β × σ) : σ → List α → List β
  | _, [] => []
  | s, c :: cs => (exec c s).1 :: answers exec (exec c s).2 cs

def final (exec : α → σ → β × σ) : σ → List α → σ
  | s, [] => s
  | s, c :: cs => final exec (exec c s).2 cs

variable {exec : α → σ → β × σ} {exec' : α → τ → β × τ}

theorem answers_append (s : σ) (cs ds : List α) :
    answers exec s (cs ++ ds) = answers exec s cs ++ answers exec (final exec s cs) ds := by
  induction cs generalizing s with
  | nil => rfl
  | cons c cs ih => simp [answers, final, ih]

theorem answers_length (s : σ) (cs : List α) : (answers exec s cs).length = cs.length := by
  induction cs generalizing s with
  | nil => rfl
  | cons c cs ih => simp [answers, ih]

/-- Machines that give the same answers in related states, and stay related, are not told
apart. -/
theorem answers_eq (R : σ → τ → Prop)
    (hstep : ∀ c s t, R s t → (exec c s).1 = (exec' c t).1 ∧ R (exec c s).2 (exec' c t).2)
    {s : σ} {t : τ} (h : R s t) (cs : List α) : answers exec s cs = answers exec' t cs := by
  induction cs generalizing s t with
  | nil => rfl
  | cons c cs ih =>
    obtain ⟨hanswer, hnext⟩ := hstep c s t h
    rw [answers, answers, hanswer, ih hnext]

end Observed
