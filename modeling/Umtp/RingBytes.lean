import Umtp.RingBuf
import Mathlib.Tactic.Ring

/-! The ring of `ringbuf.c` as it lies in memory. -/

set_option autoImplicit false

namespace Umtp
open RingWindow

abbrev Element (k : Nat) := Fin k → UInt8

/-- The ring as it lies in memory: `n` elements of `k` bytes each, from `buffer` on. -/
structure ByteRing (n k : Nat) where
  buffer : Nat → UInt8
  head : UInt32
  tail : UInt32

variable {n k : Nat}

def ByteRing.store (b : ByteRing n k) (a : Nat) (x : UInt8) : ByteRing n k :=
  { b with buffer := Function.update b.buffer a x }

/-- `(counter % b->element_count) * b->element_size`, in unsigned arithmetic. -/
def ringDataOffset (n k : Nat) (counter : UInt32) : Nat :=
  (counter % UInt32.ofNat n * UInt32.ofNat k).toNat

/-- The block is within the reach of unsigned arithmetic. -/
structure BlockSize (n k : Nat) : Prop where
  lt : n < 2 ^ 32
  size_lt : k < 2 ^ 32
  block : n * k ≤ 2 ^ 32

namespace ByteRing

def ringbufInit (n k : Nat) (buffer : Nat → UInt8) : ByteRing n k := ⟨buffer, 0, 0⟩

def ringbufCount (b : ByteRing n k) : UInt32 := b.head - b.tail

def ringbufFull (b : ByteRing n k) : Bool := b.ringbufCount == UInt32.ofNat n

def ringbufEmpty (b : ByteRing n k) : Bool := b.ringbufCount == 0

/-- The loop that copies `data_element` to `ring_data`. -/
def copyIn (b : ByteRing n k) (ringData : Nat) (dataElement : Element k) : ByteRing n k :=
  (List.finRange k).foldl (fun b (i : Fin k) => b.store (ringData + i) (dataElement i)) b

/-- What the loop that copies `ring_data` to `data_element` leaves there. -/
def copyOut (b : ByteRing n k) (ringData : Nat) : Element k := fun i => b.buffer (ringData + i)

/-- A pointer into the block is the number of bytes in front of it. -/
def ringbufPeek (b : ByteRing n k) : Option Nat :=
  if b.ringbufEmpty then none else some (ringDataOffset n k b.tail)

def ringbufPop (b : ByteRing n k) : Bool × ByteRing n k :=
  if b.ringbufEmpty then (false, b) else (true, { b with tail := b.tail + 1 })

/-- With an element to copy to, which it leaves alone when it returns false. -/
def ringbufPopData (b : ByteRing n k) : Option (Element k) × ByteRing n k :=
  if b.ringbufEmpty then (none, b)
  else (some (b.copyOut (ringDataOffset n k b.tail)), { b with tail := b.tail + 1 })

def ringbufPut (b : ByteRing n k) : Option (Element k) → Bool × ByteRing n k
  | none => (false, b)
  | some dataElement =>
    if b.ringbufFull then (false, b)
    else
      let b := b.copyIn (ringDataOffset n k b.head) dataElement
      (true, { b with head := b.head + 1 })

def ringbufPutFront (b : ByteRing n k) : Option (Element k) → Bool × ByteRing n k
  | none => (false, b)
  | some dataElement =>
    if b.ringbufFull then (false, b)
    else
      let b := { b with tail := b.tail - 1 }
      (true, b.copyIn (ringDataOffset n k b.tail) dataElement)

def ringbufDataPeek (b : ByteRing n k) : Option Nat :=
  if b.ringbufFull then none else some (ringDataOffset n k b.head)

def ringbufDataPut (b : ByteRing n k) (dataElement : Nat) : Bool × ByteRing n k :=
  if b.ringbufFull then (false, b)
  else if ringDataOffset n k b.head = dataElement then (true, { b with head := b.head + 1 })
  else (false, b)

end ByteRing

def ByteRing.elements (b : ByteRing n k) : RingBuffer (Element k) n :=
  ⟨fun c i => b.buffer (c * k + i), b.head, b.tail⟩

theorem byte_injective {c d i j : Nat} (hi : i < k) (hj : j < k) (h : c * k + i = d * k + j) :
    c = d ∧ i = j := by
  have hk : 0 < k := by omega
  have hdiv := congrArg (· / k) h
  simp only [Nat.add_comm (_ * k), Nat.add_mul_div_right _ _ hk, Nat.div_eq_of_lt hi,
    Nat.div_eq_of_lt hj, Nat.zero_add] at hdiv
  subst hdiv
  omega

theorem ByteRing.elements_store (b : ByteRing n k) (c : Fin n) (i : Fin k) (x : UInt8) :
    (b.store (c * k + i) x).elements =
      b.elements.fill c (Function.update (b.elements.buffer c) i x) := by
  simp only [elements, store, RingBuffer.fill]
  congr 1
  funext d j
  by_cases hd : d = c
  · subst hd
    rw [Function.update_self]
    by_cases hj : j = i
    · subst hj
      rw [Function.update_self, Function.update_self]
    · have hne : (d : Nat) * k + j ≠ d * k + i := fun h =>
        hj (Fin.ext (byte_injective j.isLt i.isLt h).2)
      rw [Function.update_of_ne hj, Function.update_of_ne hne]
  · have hne : (d : Nat) * k + j ≠ c * k + i := fun h =>
      hd (Fin.ext (byte_injective j.isLt i.isLt h).1)
    rw [Function.update_of_ne hd, Function.update_of_ne hne]

theorem byte_lt (c : Fin n) (i : Fin k) : (c : Nat) * k + i < n * k := by
  have hle : ((c : Nat) + 1) * k ≤ n * k := Nat.mul_le_mul_right k c.isLt
  have hsplit : ((c : Nat) + 1) * k = c * k + k := by ring
  have hi := i.isLt
  omega

theorem ByteRing.elements_stores (c : Fin n) (x : Element k) (is : List (Fin k))
    (b : ByteRing n k) :
    (is.foldl (fun b (i : Fin k) => b.store (c * k + i) (x i)) b).elements =
      b.elements.fill c fun i => if i ∈ is then x i else b.elements.buffer c i := by
  induction is generalizing b with
  | nil => simp [RingBuffer.fill]
  | cons j is ih =>
    rw [List.foldl_cons, ih, b.elements_store c j (x j)]
    simp only [RingBuffer.fill, Function.update_idem, Function.update_self]
    congr 2
    funext i
    by_cases hi : i = j
    · subst hi
      simp
    · simp [hi]

theorem ByteRing.stores_counters (x : Element k) (ringData : Nat) (is : List (Fin k))
    (b : ByteRing n k) :
    (is.foldl (fun b (i : Fin k) => b.store (ringData + i) (x i)) b).head = b.head ∧
      (is.foldl (fun b (i : Fin k) => b.store (ringData + i) (x i)) b).tail = b.tail := by
  induction is generalizing b with
  | nil => exact ⟨rfl, rfl⟩
  | cons j is ih => exact ih _

@[simp] theorem ByteRing.copyIn_head (b : ByteRing n k) (ringData : Nat) (x : Element k) :
    (b.copyIn ringData x).head = b.head := (stores_counters x ringData _ b).1

@[simp] theorem ByteRing.copyIn_tail (b : ByteRing n k) (ringData : Nat) (x : Element k) :
    (b.copyIn ringData x).tail = b.tail := (stores_counters x ringData _ b).2

theorem ByteRing.elements_copyIn (b : ByteRing n k) (c : Fin n) (x : Element k) :
    (b.copyIn (c * k) x).elements = b.elements.fill c x := by
  rw [copyIn, elements_stores]
  simp

theorem ByteRing.exists_elements (block : Fin n → Element k) :
    ∃ buffer, (ByteRing.ringbufInit n k buffer).elements = Umtp.ringbufInit block := by
  have hinj : Function.Injective fun p : Fin n × Fin k => (p.1 : Nat) * k + p.2 := by
    rintro ⟨c, i⟩ ⟨d, j⟩ h
    obtain ⟨hc, hi⟩ := byte_injective i.isLt j.isLt h
    exact Prod.ext (Fin.ext hc) (Fin.ext hi)
  refine ⟨Function.extend (fun p : Fin n × Fin k => (p.1 : Nat) * k + p.2)
    (fun p => block p.1 p.2) fun _ => 0, ?_⟩
  have hbytes : ∀ (c : Fin n) (i : Fin k),
      Function.extend (fun p : Fin n × Fin k => (p.1 : Nat) * k + p.2) (fun p => block p.1 p.2)
        (fun _ => 0) (c * k + i) = block c i :=
    fun c i => hinj.extend_apply _ _ (c, i)
  simp only [elements, ringbufInit, Umtp.ringbufInit, hbytes]

variable [NeZero n]

theorem ringDataOffset_eq (h : BlockSize n k) (counter : UInt32) :
    ringDataOffset n k counter = cell n counter.toNat * k := by
  have hmod := Nat.mod_lt counter.toNat (NeZero.pos n)
  have hblock := h.block
  have hle : (counter.toNat % n + 1) * k ≤ n * k := Nat.mul_le_mul_right k hmod
  have hsplit : (counter.toNat % n + 1) * k = counter.toNat % n * k + k := by ring
  have hlt : counter.toNat % n * k < 2 ^ 32 := by
    by_cases hk : k = 0
    · subst hk
      simp
    · omega
  rw [ringDataOffset, UInt32.toNat_mul, UInt32.toNat_mod, UInt32.toNat_ofNat', UInt32.toNat_ofNat',
    Nat.mod_eq_of_lt h.lt, Nat.mod_eq_of_lt h.size_lt, Nat.mod_eq_of_lt hlt]
  rfl

end Umtp
