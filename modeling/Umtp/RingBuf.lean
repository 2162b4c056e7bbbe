import Umtp.Kit.RingWindow
import Mathlib.Data.UInt
import Mathlib.Tactic.NormNum

/-! `ringbuf.c`: a ring of `n` elements behind two 32-bit counters that are never reduced. -/

set_option autoImplicit false

namespace Umtp
open RingWindow

/-- `head` counts the elements put, `tail` the elements popped; a `data_element` pointer
into the block is the element's index. -/
structure RingBuffer (α : Type) (n : Nat) where
  buffer : Fin n → α
  head : UInt32
  tail : UInt32

variable {α : Type} {n : Nat}

def ringbufInit (buffer : Fin n → α) : RingBuffer α n := ⟨buffer, 0, 0⟩

def ringbufCount (b : RingBuffer α n) : UInt32 := b.head - b.tail

def ringbufFull (b : RingBuffer α n) : Bool := ringbufCount b == UInt32.ofNat n

def ringbufEmpty (b : RingBuffer α n) : Bool := ringbufCount b == 0

def ringbufPeek [NeZero n] (b : RingBuffer α n) : Option (Fin n) :=
  if ringbufEmpty b then none else some (cell n b.tail.toNat)

/-- `ringbuf_pop(b, NULL)`: the element is dropped, not copied out. -/
def ringbufPop (b : RingBuffer α n) : Bool × RingBuffer α n :=
  if ringbufEmpty b then (false, b) else (true, { b with tail := b.tail + 1 })

def ringbufDataPeek [NeZero n] (b : RingBuffer α n) : Option (Fin n) :=
  if ringbufFull b then none else some (cell n b.head.toNat)

def ringbufDataPut [NeZero n] (b : RingBuffer α n) (dataElement : Fin n) : Bool × RingBuffer α n :=
  if ringbufFull b then (false, b)
  else if cell n b.head.toNat = dataElement then (true, { b with head := b.head + 1 })
  else (false, b)

def RingBuffer.fill (b : RingBuffer α n) (dataElement : Fin n) (x : α) : RingBuffer α n :=
  { b with buffer := Function.update b.buffer dataElement x }

@[simp] theorem RingBuffer.fill_head (b : RingBuffer α n) (c : Fin n) (x : α) :
    (b.fill c x).head = b.head := rfl

@[simp] theorem RingBuffer.fill_tail (b : RingBuffer α n) (c : Fin n) (x : α) :
    (b.fill c x).tail = b.tail := rfl

@[simp] theorem RingBuffer.fill_buffer (b : RingBuffer α n) (c : Fin n) (x : α) :
    (b.fill c x).buffer = Function.update b.buffer c x := rfl

def RingBuffer.size (b : RingBuffer α n) : Nat := (ringbufCount b).toNat

/-- At most `n` elements are outstanding, and `n` divides the range of the counters, so
that the cells stay aligned when a counter wraps. -/
structure RingBuffer.Valid (b : RingBuffer α n) : Prop where
  size_le : b.size ≤ n
  lt : n < 2 ^ 32
  dvd : n ∣ 2 ^ 32

def RingBuffer.contents [NeZero n] (b : RingBuffer α n) : List α :=
  window b.buffer b.tail.toNat b.size

@[simp] theorem RingBuffer.contents_length [NeZero n] (b : RingBuffer α n) :
    b.contents.length = b.size := by
  simp [contents]

theorem RingBuffer.size_add (b : RingBuffer α n) :
    (b.tail.toNat + b.size) % 2 ^ 32 = b.head.toNat := by
  have hh := b.head.toNat_lt
  have ht := b.tail.toNat_lt
  simp only [size, ringbufCount, UInt32.toNat_sub]
  omega

theorem RingBuffer.head_cell [NeZero n] {b : RingBuffer α n} (hb : b.Valid) :
    cell n b.head.toNat = cell n (b.tail.toNat + b.size) := by
  rw [← b.size_add, cell_mod hb.dvd]

theorem ringbufInit_valid (buffer : Fin n → α) (hlt : n < 2 ^ 32) (h : n ∣ 2 ^ 32) :
    (ringbufInit buffer).Valid :=
  ⟨by simp [ringbufInit, RingBuffer.size, ringbufCount], hlt, h⟩

theorem ringbufFull_iff {b : RingBuffer α n} (hb : b.Valid) :
    ringbufFull b = true ↔ b.size = n := by
  simp only [ringbufFull, beq_iff_eq, ← UInt32.toNat_inj, UInt32.toNat_ofNat']
  rw [Nat.mod_eq_of_lt hb.lt]
  rfl

variable [NeZero n]

@[simp] theorem ringbufInit_contents (buffer : Fin n → α) : (ringbufInit buffer).contents = [] := by
  simp [ringbufInit, RingBuffer.contents, RingBuffer.size, ringbufCount]

theorem ringbufEmpty_iff (b : RingBuffer α n) : ringbufEmpty b = true ↔ b.contents = [] := by
  rw [← List.length_eq_zero_iff, RingBuffer.contents_length]
  simp [ringbufEmpty, RingBuffer.size, ← UInt32.toNat_inj]

theorem ringbufPeek_cons {b : RingBuffer α n} {x : α} {xs : List α} (h : b.contents = x :: xs) :
    ∃ c, ringbufPeek b = some c ∧ b.buffer c = x := by
  have hne : ringbufEmpty b = false := by
    rw [Bool.eq_false_iff, Ne, ringbufEmpty_iff, h]
    simp
  refine ⟨cell n b.tail.toNat, by simp [ringbufPeek, hne], ?_⟩
  have hlen : b.size = xs.length + 1 := by rw [← b.contents_length, h]; rfl
  rw [RingBuffer.contents, hlen, window_pop] at h
  exact (List.cons.inj h).1

theorem ringbufPeek_some {b : RingBuffer α n} (h : b.contents ≠ []) :
    ringbufPeek b = some (cell n b.tail.toNat) := by
  have hne : ringbufEmpty b = false := by
    rw [Bool.eq_false_iff, Ne, ringbufEmpty_iff]
    exact h
  simp [ringbufPeek, hne]

theorem ringbufPeek_nil {b : RingBuffer α n} (h : b.contents = []) : ringbufPeek b = none := by
  simp [ringbufPeek, (ringbufEmpty_iff b).mpr h]

/-- A pop drops the oldest element and nothing else, also when `tail` wraps. -/
theorem ringbufPop_cons {b : RingBuffer α n} (hb : b.Valid) {x : α} {xs : List α}
    (h : b.contents = x :: xs) :
    (ringbufPop b).1 = true ∧ (ringbufPop b).2.Valid ∧ (ringbufPop b).2.contents = xs := by
  have hne : ringbufEmpty b = false := by
    rw [Bool.eq_false_iff, Ne, ringbufEmpty_iff, h]
    simp
  have hlen : b.size = xs.length + 1 := by rw [← b.contents_length, h]; rfl
  have hsize : ({ b with tail := b.tail + 1 } : RingBuffer α n).size = xs.length := by
    have ht := b.tail.toNat_lt
    have hh := b.head.toNat_lt
    simp only [RingBuffer.size, ringbufCount, UInt32.toNat_sub, UInt32.toNat_add] at hlen ⊢
    simp at hlen ⊢
    omega
  have hle := hb.size_le
  simp only [ringbufPop, hne, Bool.false_eq_true, if_false, true_and]
  refine ⟨⟨by omega, hb.lt, hb.dvd⟩, ?_⟩
  have hw : window b.buffer (b.tail + 1).toNat xs.length =
      window b.buffer (b.tail.toNat + 1) xs.length := by
    apply window_congr
    rw [UInt32.toNat_add]
    exact Nat.mod_mod_of_dvd _ hb.dvd
  rw [RingBuffer.contents, hlen, window_pop] at h
  rw [RingBuffer.contents, hsize]
  exact hw.trans (List.cons.inj h).2

def RingBuffer.slots (b : RingBuffer α n) : List (Fin n) := window id b.tail.toNat b.size

theorem RingBuffer.slots_map (b : RingBuffer α n) : b.slots.map b.buffer = b.contents := by
  simp [slots, contents, window]

theorem RingBuffer.slots_nodup {b : RingBuffer α n} (hb : b.Valid) : b.slots.Nodup := by
  apply List.Nodup.map_on _ List.nodup_range
  intro i hi j hj hij
  have hle := hb.size_le
  rw [List.mem_range] at hi hj
  exact cell_injective (by omega) (by omega) hij

theorem ringbufPeek_slots {b : RingBuffer α n} {c : Fin n} {cs : List (Fin n)}
    (h : b.slots = c :: cs) : ringbufPeek b = some c := by
  obtain ⟨c', hpeek, rfl⟩ := ringbufPeek_cons (b := ⟨id, b.head, b.tail⟩) h
  exact hpeek

theorem ringbufPop_slots {b : RingBuffer α n} (hb : b.Valid) {c : Fin n} {cs : List (Fin n)}
    (h : b.slots = c :: cs) : (ringbufPop b).2.slots = cs := by
  obtain ⟨-, -, hcs⟩ := ringbufPop_cons (b := ⟨id, b.head, b.tail⟩)
    ⟨hb.size_le, hb.lt, hb.dvd⟩ h
  have hsame : ringbufEmpty (⟨id, b.head, b.tail⟩ : RingBuffer (Fin n) n) = ringbufEmpty b := rfl
  rw [← hcs]
  simp only [ringbufPop, hsame]
  split <;> rfl

theorem ringbufDataPeek_none {b : RingBuffer α n} (hb : b.Valid) :
    ringbufDataPeek b = none ↔ b.size = n := by
  rw [← ringbufFull_iff hb]
  simp [ringbufDataPeek]

theorem ringbufDataPeek_some {b : RingBuffer α n} (hb : b.Valid) {c : Fin n}
    (h : ringbufDataPeek b = some c) : b.size < n ∧ c = cell n (b.tail.toNat + b.size) := by
  have hf : ringbufFull b = false := by
    cases hf : ringbufFull b with
    | false => rfl
    | true => simp [ringbufDataPeek, hf] at h
  have hne : b.size ≠ n := by
    rw [Ne, ← ringbufFull_iff hb, hf]
    simp
  have hle := hb.size_le
  simp only [ringbufDataPeek, hf, Bool.false_eq_true, if_false, Option.some.injEq] at h
  exact ⟨by omega, by rw [← h, RingBuffer.head_cell hb]⟩

@[simp] theorem RingBuffer.fill_dataPeek (b : RingBuffer α n) (c : Fin n) (x : α) :
    ringbufDataPeek (b.fill c x) = ringbufDataPeek b := rfl

theorem ringbufDataPeek_head {b : RingBuffer α n} (h : ringbufDataPeek b ≠ none) :
    ringbufDataPeek b = some (cell n b.head.toNat) := by
  unfold ringbufDataPeek at h ⊢
  split
  · rename_i hfull
    simp [hfull] at h
  · rfl

theorem ringbufDataPut_peeked {b : RingBuffer α n} {c : Fin n} (h : ringbufDataPeek b = some c) :
    ringbufDataPut b c = (true, { b with head := b.head + 1 }) := by
  unfold ringbufDataPeek at h
  unfold ringbufDataPut
  split
  · rename_i hfull
    simp [hfull] at h
  · rename_i hroom
    rw [if_neg hroom, Option.some.injEq] at h
    rw [if_pos h]

theorem ringbufPop_full {b : RingBuffer α n} (h : b.contents ≠ []) :
    ringbufPop b = (true, { b with tail := b.tail + 1 }) := by
  have hne : ¬ ringbufEmpty b = true := by
    rw [ringbufEmpty_iff]
    exact h
  rw [ringbufPop, if_neg hne]

def RingBuffer.Holds (b : RingBuffer α n) (c : Fin n) : Prop :=
  ∃ i, i < b.size ∧ cell n (b.tail.toNat + i) = c

instance (b : RingBuffer α n) (c : Fin n) : Decidable (b.Holds c) :=
  inferInstanceAs (Decidable (∃ i, i < b.size ∧ cell n (b.tail.toNat + i) = c))

omit [NeZero n] in
theorem RingBuffer.Valid.fill {b : RingBuffer α n} (hb : b.Valid) (c : Fin n) (x : α) :
    (b.fill c x).Valid := ⟨hb.size_le, hb.lt, hb.dvd⟩

theorem RingBuffer.fill_contents_of_not_holds {b : RingBuffer α n} {c : Fin n} (h : ¬ b.Holds c)
    (x : α) : (b.fill c x).contents = b.contents := by
  apply window_update_of_not_mem
  intro i hi he
  exact h ⟨i, hi, he⟩

theorem RingBuffer.Holds.get {b : RingBuffer α n} {c : Fin n} (h : b.Holds c) :
    ∃ i : Nat, b.contents[i]? = some (b.buffer c) ∧
      ∀ x, (b.fill c x).contents[i]? = some x := by
  obtain ⟨i, hi, rfl⟩ := h
  refine ⟨i, window_get b.buffer b.tail.toNat hi, fun x => ?_⟩
  have hget := window_get (b.fill (cell n (b.tail.toNat + i)) x).buffer b.tail.toNat hi
  rw [fill_buffer, Function.update_self] at hget
  exact hget

theorem ringbufDataPeek_not_holds {b : RingBuffer α n} (hb : b.Valid) {c : Fin n}
    (h : ringbufDataPeek b = some c) : ¬ b.Holds c := by
  obtain ⟨hlt, rfl⟩ := ringbufDataPeek_some hb h
  rintro ⟨i, hi, he⟩
  have := cell_injective (by omega) hlt he
  omega

theorem RingBuffer.fill_contents {b : RingBuffer α n} (hb : b.Valid) {c : Fin n}
    (h : ringbufDataPeek b = some c) (x : α) : (b.fill c x).contents = b.contents :=
  fill_contents_of_not_holds (ringbufDataPeek_not_holds hb h) x

@[simp] theorem ringbufDataPut_tail (b : RingBuffer α n) (c : Fin n) :
    (ringbufDataPut b c).2.tail = b.tail := by
  unfold ringbufDataPut
  split
  · rfl
  · split <;> rfl

@[simp] theorem ringbufDataPut_buffer (b : RingBuffer α n) (c : Fin n) :
    (ringbufDataPut b c).2.buffer = b.buffer := by
  unfold ringbufDataPut
  split
  · rfl
  · split <;> rfl

omit [NeZero n] in
@[simp] theorem ringbufPop_buffer (b : RingBuffer α n) : (ringbufPop b).2.buffer = b.buffer := by
  unfold ringbufPop
  split <;> rfl

/-- Publishing a filled element appends it, also when `head` wraps. -/
theorem ringbufDataPut_fill {b : RingBuffer α n} (hb : b.Valid) {c : Fin n}
    (h : ringbufDataPeek b = some c) (x : α) :
    (ringbufDataPut (b.fill c x) c).1 = true ∧ (ringbufDataPut (b.fill c x) c).2.Valid ∧
      (ringbufDataPut (b.fill c x) c).2.contents = b.contents ++ [x] := by
  obtain ⟨hlt, hc⟩ := ringbufDataPeek_some hb h
  have hf : ringbufFull (b.fill c x) = false := by
    rw [Bool.eq_false_iff]
    intro hfull
    have : ringbufFull b = true := hfull
    rw [ringbufFull_iff hb] at this
    omega
  have hcell : cell n (b.fill c x).head.toNat = c := by
    rw [RingBuffer.fill_head, RingBuffer.head_cell hb, hc]
  have hsize : ({ b.fill c x with head := b.head + 1 } : RingBuffer α n).size = b.size + 1 := by
    have ht := b.tail.toNat_lt
    have hh := b.head.toNat_lt
    have hn := hb.lt
    simp only [RingBuffer.size, ringbufCount, UInt32.toNat_sub, UInt32.toNat_add] at hlt ⊢
    simp at hlt ⊢
    omega
  simp only [ringbufDataPut, hf, Bool.false_eq_true, if_false, hcell, if_true, true_and]
  refine ⟨⟨?_, hb.lt, hb.dvd⟩, ?_⟩
  · simp only [RingBuffer.fill_head, hsize]
    omega
  · simp only [RingBuffer.fill_head, RingBuffer.contents, hsize]
    rw [hc]
    exact window_push b.buffer b.tail.toNat hlt x

theorem ringbufDataPut_true {b : RingBuffer α n} (hb : b.Valid) {c : Fin n}
    (h : (ringbufDataPut b c).1 = true) :
    ringbufDataPeek b = some c ∧ (ringbufDataPut b c).2.Valid ∧
      (ringbufDataPut b c).2.contents = b.contents ++ [b.buffer c] := by
  have hpeek : ringbufDataPeek b = some c := by
    unfold ringbufDataPut at h
    unfold ringbufDataPeek
    split
    · simp_all
    · split at h
      · contradiction
      · split at h
        · simp_all
        · contradiction
  have hsame : b.fill c (b.buffer c) = b := by
    rw [RingBuffer.fill, Function.update_eq_self]
  have hfill := ringbufDataPut_fill hb hpeek (b.buffer c)
  rw [hsame] at hfill
  exact ⟨hpeek, hfill.2⟩

theorem ringbufDataPut_again {b : RingBuffer α n} (hb : b.Valid) {c : Fin n}
    (h : (ringbufDataPut b c).1 = true) : (ringbufDataPut (ringbufDataPut b c).2 c).1 = false := by
  obtain ⟨hpeek, hvalid, hcont⟩ := ringbufDataPut_true hb h
  obtain ⟨-, hc⟩ := ringbufDataPeek_some hb hpeek
  have hsize : (ringbufDataPut b c).2.size = b.size + 1 := by
    rw [← RingBuffer.contents_length, hcont]
    simp
  rw [Bool.eq_false_iff]
  intro hagain
  obtain ⟨hlt, hc'⟩ := ringbufDataPeek_some hvalid (ringbufDataPut_true hvalid hagain).1
  rw [hsize] at hlt hc'
  rw [ringbufDataPut_tail, hc] at hc'
  have := cell_injective (by omega) hlt hc'
  omega

theorem ringbufPop_dataPeek {b : RingBuffer α n} (hb : b.Valid) {c : Fin n}
    (h : ringbufDataPeek b = some c) : ringbufDataPeek (ringbufPop b).2 = some c := by
  cases hc : b.contents with
  | nil =>
    have hempty := (ringbufEmpty_iff b).mpr hc
    simpa [ringbufPop, hempty] using h
  | cons x xs =>
    obtain ⟨-, hvalid, hcont⟩ := ringbufPop_cons hb hc
    obtain ⟨hlt, -⟩ := ringbufDataPeek_some hb h
    have hhead : (ringbufPop b).2.head = b.head := by
      unfold ringbufPop
      split <;> rfl
    have hsize : (ringbufPop b).2.size = xs.length := by
      rw [← RingBuffer.contents_length, hcont]
    have hroom : b.size = xs.length + 1 := by
      rw [← RingBuffer.contents_length, hc]
      rfl
    have hfull : ¬ ringbufFull (ringbufPop b).2 = true := by
      rw [ringbufFull_iff hvalid]
      omega
    have hfull' : ¬ ringbufFull b = true := by
      rw [ringbufFull_iff hb]
      omega
    unfold ringbufDataPeek at h ⊢
    rw [if_neg hfull'] at h
    rw [if_neg hfull, hhead]
    exact h

end Umtp
