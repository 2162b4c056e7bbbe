import Mathlib.Algebra.Order.Floor.Div
import Mathlib.Tactic.Common

set_option autoImplicit false

namespace RoundUp

def pieces (n a : Nat) : Nat := max 1 (n ⌈/⌉ a)

def roundUp (n a : Nat) : Nat := pieces n a * a

variable {n a : Nat}

theorem pieces_pos (n a : Nat) : 0 < pieces n a :=
  Nat.lt_of_lt_of_le Nat.one_pos (Nat.le_max_left _ _)

theorem pieces_le_iff (ha : 0 < a) {k : Nat} (hk : 0 < k) : pieces n a ≤ k ↔ n ≤ k * a := by
  rw [pieces, Nat.max_le, ceilDiv_le_iff_le_mul ha, Nat.mul_comm k]
  exact ⟨fun h => h.2, fun h => ⟨hk, h⟩⟩

theorem le_roundUp (ha : 0 < a) : n ≤ roundUp n a :=
  (pieces_le_iff ha (pieces_pos n a)).mp (Nat.le_refl _)

theorem roundUp_dvd : a ∣ roundUp n a := Nat.dvd_mul_left _ _

theorem roundUp_of_le (ha : 0 < a) (h : n ≤ a) : roundUp n a = a := by
  have hle : pieces n a ≤ 1 := (pieces_le_iff ha Nat.one_pos).mpr (by omega)
  have hpos := pieces_pos n a
  have hone : pieces n a = 1 := by omega
  rw [roundUp, hone, Nat.one_mul]

theorem roundUp_lt_add (ha : 0 < a) (hn : 0 < n) : roundUp n a < n + a := by
  rcases Nat.lt_or_ge a n with h | h
  · by_contra hge
    have hpos := pieces_pos n a
    have hsub : (pieces n a - 1) * a = roundUp n a - a := Nat.sub_one_mul _ _
    have hle : n ≤ (pieces n a - 1) * a := by omega
    have hone : 0 < pieces n a - 1 := Nat.pos_of_mul_pos_right (Nat.lt_of_lt_of_le hn hle)
    have hfew := (pieces_le_iff ha hone).mpr hle
    omega
  · rw [roundUp_of_le ha h]
    omega

theorem roundUp_of_dvd (ha : 0 < a) (hn : 0 < n) (h : a ∣ n) : roundUp n a = n := by
  have hle := le_roundUp (n := n) ha
  have hlt := roundUp_lt_add ha hn
  obtain ⟨k, hk⟩ := (Nat.dvd_sub (roundUp_dvd (n := n)) h)
  rcases Nat.eq_zero_or_pos k with rfl | hkpos
  · omega
  · have hak := Nat.le_mul_of_pos_right a hkpos
    omega

theorem roundUp_of_mod (ha : 0 < a) (h : n % a ≠ 0) :
    roundUp n a = n + (a - n % a) := by
  have hmod := Nat.mod_lt n ha
  have hdiv := Nat.div_add_mod n a
  have hup : n + (a - n % a) = (n / a + 1) * a := by
    rw [Nat.add_mul, Nat.one_mul, Nat.mul_comm]
    omega
  rw [hup, roundUp]
  congr 1
  apply Nat.le_antisymm
  · rw [pieces_le_iff ha (Nat.add_one_pos (n / a))]
    omega
  · by_contra hlt
    have hle : n ≤ n / a * a :=
      (Nat.mul_le_mul_right a (by omega : pieces n a ≤ n / a)).trans' (le_roundUp ha)
    rw [Nat.mul_comm] at hle
    omega

theorem roundUp_mono (ha : 0 < a) {m : Nat} (h : n ≤ m) : roundUp n a ≤ roundUp m a := by
  apply Nat.mul_le_mul_right
  rw [pieces_le_iff ha (pieces_pos m a)]
  exact h.trans (le_roundUp ha)

/-- `k` units from `n` on fit before the next multiple of `a` when none is passed. -/
theorem no_multiple_passed_iff (ha : 0 < a) {k : Nat} :
    (∀ r, ¬ (n < r * a ∧ r * a < n + k)) ↔ n % a + k ≤ a := by
  have hmod := Nat.mod_lt n ha
  have hdiv := Nat.div_add_mod n a
  have hnext : (n / a + 1) * a = a * (n / a) + a := by
    rw [Nat.add_one_mul, Nat.mul_comm]
  constructor
  · intro h
    have hr := h (n / a + 1)
    omega
  · rintro h r ⟨hlt, hgt⟩
    have hr : n / a + 1 ≤ r := (Nat.div_lt_iff_lt_mul ha).mpr hlt
    have hle := Nat.mul_le_mul_right a hr
    omega

end RoundUp
