import Mathlib.Data.List.Basic
import Mathlib.Tactic.Common

/-! Arrays of a fixed size whose stores are checked: a store that does not fit gives no
array back, so a computation that ends with an array has kept inside it. -/

set_option autoImplicit false

namespace CheckedBuffer

structure Buf (α : Type) (n : Nat) where
  cells : List α
  size : cells.length = n
  deriving DecidableEq

variable {α : Type} {n : Nat}

theorem Buf.ext {b c : Buf α n} (h : b.cells = c.cells) : b = c := by
  cases b; cases c; simp_all

def Buf.fill (n : Nat) (a : α) : Buf α n := ⟨List.replicate n a, by simp⟩

@[simp] theorem Buf.length_cells (b : Buf α n) : b.cells.length = n := b.size

/-- Stores `xs` in the cells from `off` on, if the array has them all. -/
def Buf.write (b : Buf α n) (off : Nat) (xs : List α) : Option (Buf α n) :=
  if h : off + xs.length ≤ n then
    some ⟨b.cells.take off ++ xs ++ b.cells.drop (off + xs.length), by simp; omega⟩
  else none

theorem Buf.write_eq_none {b : Buf α n} {off : Nat} {xs : List α} :
    b.write off xs = none ↔ n < off + xs.length := by
  unfold write
  split <;> simp <;> omega

theorem Buf.write_isSome {b : Buf α n} {off : Nat} {xs : List α} :
    (b.write off xs).isSome ↔ off + xs.length ≤ n := by
  unfold write
  split <;> simp_all

theorem Buf.write_some {b c : Buf α n} {off : Nat} {xs : List α} (h : b.write off xs = some c) :
    off + xs.length ≤ n ∧
      c.cells = b.cells.take off ++ xs ++ b.cells.drop (off + xs.length) := by
  unfold write at h
  split at h
  · rename_i hfit
    cases h
    exact ⟨hfit, rfl⟩
  · contradiction

theorem Buf.take_write {b c : Buf α n} {off : Nat} {xs : List α} (h : b.write off xs = some c)
    {k : Nat} (hk : k ≤ off) : c.cells.take k = b.cells.take k := by
  obtain ⟨hfit, hc⟩ := write_some h
  rw [hc, List.append_assoc, List.take_append_of_le_length (by simp; omega), List.take_take]
  simp [Nat.min_eq_left hk]

theorem Buf.drop_write {b c : Buf α n} {off : Nat} {xs : List α} (h : b.write off xs = some c)
    {k : Nat} (hk : off + xs.length ≤ k) : c.cells.drop k = b.cells.drop k := by
  obtain ⟨hfit, hc⟩ := write_some h
  have hlen : (b.cells.take off ++ xs).length = off + xs.length := by simp; omega
  rw [hc, List.drop_append, List.drop_of_length_le (by omega), hlen, List.drop_drop]
  simp [Nat.add_sub_cancel' hk]

theorem Buf.exists_write {b : Buf α n} {off : Nat} {xs : List α} (h : off + xs.length ≤ n) :
    ∃ c, b.write off xs = some c := Option.isSome_iff_exists.mp (write_isSome.mpr h)

theorem Buf.read_write {b c : Buf α n} {off : Nat} {xs : List α} (h : b.write off xs = some c) :
    (c.cells.drop off).take xs.length = xs := by
  obtain ⟨hfit, hc⟩ := write_some h
  have hlen : (b.cells.take off).length = off := by simp; omega
  rw [hc, List.append_assoc, List.drop_append_of_le_length (by omega),
    List.drop_of_length_le (by omega)]
  simp

theorem Buf.write_append (b : Buf α n) (off : Nat) (xs ys : List α) :
    b.write off (xs ++ ys) = (b.write off xs).bind (fun c => c.write (off + xs.length) ys) := by
  by_cases hx : off + xs.length ≤ n
  · have hoff : off ≤ n := by omega
    by_cases hy : off + xs.length + ys.length ≤ n
    · simp only [write, List.length_append, hx, hy, ← Nat.add_assoc, dite_true, Option.bind_some]
      congr 1
      apply Buf.ext
      simp only
      have h1 : (b.cells.take off ++ xs ++ b.cells.drop (off + xs.length)).take (off + xs.length) =
          b.cells.take off ++ xs := by
        rw [List.take_append_of_le_length (by simp [hoff])]
        exact List.take_of_length_le (by simp [hoff])
      have h2 : (b.cells.take off ++ xs ++ b.cells.drop (off + xs.length)).drop
          (off + xs.length + ys.length) = b.cells.drop (off + xs.length + ys.length) := by
        rw [List.drop_append]
        simp [hoff]
      rw [h1, h2]
      simp [Nat.add_assoc]
    · have hn : ¬ off + (xs.length + ys.length) ≤ n := by omega
      simp [write, hx, hy, hn]
  · have hn : ¬ off + (xs.length + ys.length) ≤ n := by omega
    simp [write, hx, hn]

theorem Buf.write_cons (b : Buf α n) (off : Nat) (x : α) (xs : List α) :
    b.write off (x :: xs) = (b.write off [x]).bind (fun c => c.write (off + 1) xs) :=
  b.write_append off [x] xs

theorem Buf.write_cons_some {b c : Buf α n} {off : Nat} {x : α} {xs : List α}
    (h : b.write off (x :: xs) = some c) :
    ∃ d, b.write off [x] = some d ∧ d.write (off + 1) xs = some c := by
  rw [write_cons] at h
  exact Option.bind_eq_some_iff.mp h

theorem Buf.take_write_after {b c d : Buf α n} {xs ys : List α} (hx : b.write 0 xs = some c)
    (hy : c.write xs.length ys = some d) : d.cells.take (xs.length + ys.length) = xs ++ ys := by
  have h : b.write 0 (xs ++ ys) = some d := by
    rw [write_append, hx, Option.bind_some, Nat.zero_add, hy]
  have hread := read_write h
  rwa [List.drop_zero, List.length_append] at hread

theorem Buf.take_write_before {b c d : Buf α n} {xs ys : List α}
    (hy : b.write xs.length ys = some c) (hx : c.write 0 xs = some d) :
    d.cells.take (xs.length + ys.length) = xs ++ ys := by
  obtain ⟨-, hd⟩ := write_some hx
  have hread := read_write hy
  have hcells : d.cells = xs ++ c.cells.drop xs.length := by simpa using hd
  rw [hcells, List.take_append, List.take_of_length_le (by omega), Nat.add_sub_cancel_left, hread]

end CheckedBuffer
