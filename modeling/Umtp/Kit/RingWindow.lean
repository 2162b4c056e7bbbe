import Mathlib.Data.Nat.ModEq
import Mathlib.Data.List.Range
import Mathlib.Logic.Function.Basic
import Mathlib.Tactic.Common

/-! A ring of `n` cells addressed by free-running counters: counter value `c` names cell
`c % n`. The counters themselves live modulo some `M` that `n` divides, so letting them
wrap changes no cell. The window of `k` cells from counter `t` on is read oldest first. -/

set_option autoImplicit false

namespace RingWindow

variable {α : Type} {n : Nat}

def cell (n : Nat) [NeZero n] (c : Nat) : Fin n :=
  ⟨c % n, Nat.mod_lt c (Nat.pos_of_ne_zero (NeZero.ne n))⟩

variable [NeZero n]

theorem cell_mod {M : Nat} (hM : n ∣ M) (c : Nat) : cell n (c % M) = cell n c := by
  simp [cell, Nat.mod_mod_of_dvd c hM]

theorem cell_congr {c d : Nat} (h : c % n = d % n) : cell n c = cell n d := by simp [cell, h]

/-- Fewer than `n` steps apart, two counters name different cells. -/
theorem cell_injective {t i j : Nat} (hi : i < n) (hj : j < n)
    (h : cell n (t + i) = cell n (t + j)) : i = j := by
  have hm : (t + i) % n = (t + j) % n := by simpa [cell] using h
  have hij : i % n = j % n := Nat.ModEq.add_left_cancel' t hm
  rwa [Nat.mod_eq_of_lt hi, Nat.mod_eq_of_lt hj] at hij

def window (buffer : Fin n → α) (t k : Nat) : List α :=
  (List.range k).map (fun i => buffer (cell n (t + i)))

@[simp] theorem window_length (buffer : Fin n → α) (t k : Nat) :
    (window buffer t k).length = k := by simp [window]

@[simp] theorem window_zero (buffer : Fin n → α) (t : Nat) : window buffer t 0 = [] := rfl

theorem window_get (buffer : Fin n → α) (t : Nat) {k i : Nat} (hi : i < k) :
    (window buffer t k)[i]? = some (buffer (cell n (t + i))) := by
  simp [window, hi]

theorem window_congr (buffer : Fin n → α) {t u : Nat} (h : t % n = u % n) (k : Nat) :
    window buffer t k = window buffer u k := by
  apply List.map_congr_left
  intro i _
  rw [cell_congr (Nat.ModEq.add_right i h)]

theorem window_pop (buffer : Fin n → α) (t k : Nat) :
    window buffer t (k + 1) = buffer (cell n t) :: window buffer (t + 1) k := by
  simp only [window, List.range_succ_eq_map, List.map_cons, List.map_map, Nat.add_zero]
  congr 1
  apply List.map_congr_left
  intro i _
  simp only [Function.comp]
  rw [show t + (i + 1) = t + 1 + i by omega]

theorem window_update_of_not_mem (buffer : Fin n → α) (t : Nat) {k : Nat} (c : Fin n) (x : α)
    (h : ∀ i < k, cell n (t + i) ≠ c) :
    window (Function.update buffer c x) t k = window buffer t k := by
  apply List.map_congr_left
  intro i hi
  rw [Function.update_of_ne (h i (by simpa using hi))]

/-- Pushing fills the cell after the window, which is free while the window is not full. -/
theorem window_push (buffer : Fin n → α) (t : Nat) {k : Nat} (hk : k < n) (x : α) :
    window (Function.update buffer (cell n (t + k)) x) t (k + 1) = window buffer t k ++ [x] := by
  have hfree : ∀ i < k, cell n (t + i) ≠ cell n (t + k) := by
    intro i hi h
    have := cell_injective (by omega) hk h
    omega
  have h := window_update_of_not_mem buffer t (cell n (t + k)) x hfree
  simp only [window, List.range_succ, List.map_append, List.map_cons, List.map_nil] at h ⊢
  rw [h, Function.update_self]

end RingWindow
