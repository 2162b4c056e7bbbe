import Umtp.Kit.Observed
import Umtp.Machine
import Umtp.RingBytes
import Mathlib.Data.Nat.Prime.Basic

/-! The ring as a bounded deque: its elements first, then the bytes they are made up of. -/

set_option autoImplicit false

namespace Umtp
open RingWindow Observed

variable {α : Type} {n : Nat}

/-- `none` is a NULL `data_element`. -/
def ringbufPut [NeZero n] (b : RingBuffer α n) : Option α → Bool × RingBuffer α n
  | none => (false, b)
  | some x =>
    if ringbufFull b then (false, b)
    else (true, { b.fill (cell n b.head.toNat) x with head := b.head + 1 })

/-- The tail moves first, and names the element to fill. -/
def ringbufPutFront [NeZero n] (b : RingBuffer α n) : Option α → Bool × RingBuffer α n
  | none => (false, b)
  | some x =>
    if ringbufFull b then (false, b)
    else (true, { b.fill (cell n (b.tail - 1).toNat) x with tail := b.tail - 1 })

def ringbufPopData [NeZero n] (b : RingBuffer α n) : Option α × RingBuffer α n :=
  (if ringbufEmpty b then none else some (b.buffer (cell n b.tail.toNat)), (ringbufPop b).2)

/-- The calls on a ring. `place` is a data peek, the filling of what it gives, and a data put. -/
inductive RingCall (α : Type) where
  | put (dataElement : Option α)
  | putFront (dataElement : Option α)
  | place (x : α)
  | pop
  | drop
  | peek
  | count
  | full
  | empty

inductive RingAnswer (α : Type) where
  | status (b : Bool)
  | element (x : Option α)
  | count (k : Nat)
  deriving DecidableEq

def ringPlace [NeZero n] (b : RingBuffer α n) (x : α) : Bool × RingBuffer α n :=
  match ringbufDataPeek b with
  | none => (false, b)
  | some c => ringbufDataPut (b.fill c x) c

def RingCall.exec [NeZero n] : RingCall α → RingBuffer α n → RingAnswer α × RingBuffer α n
  | .put x, b => ((ringbufPut b x).map .status id)
  | .putFront x, b => ((ringbufPutFront b x).map .status id)
  | .place x, b => ((ringPlace b x).map .status id)
  | .pop, b => ((ringbufPopData b).map .element id)
  | .drop, b => ((ringbufPop b).map .status id)
  | .peek, b => (.element ((ringbufPeek b).map b.buffer), b)
  | .count, b => (.count (ringbufCount b).toNat, b)
  | .full, b => (.status (ringbufFull b), b)
  | .empty, b => (.status (ringbufEmpty b), b)

def ByteRing.place {k : Nat} (b : ByteRing n k) (x : Element k) : Bool × ByteRing n k :=
  match b.ringbufDataPeek with
  | none => (false, b)
  | some ringData => (b.copyIn ringData x).ringbufDataPut ringData

def RingCall.execBytes {k : Nat} :
    RingCall (Element k) → ByteRing n k → RingAnswer (Element k) × ByteRing n k
  | .put x, b => ((b.ringbufPut x).map .status id)
  | .putFront x, b => ((b.ringbufPutFront x).map .status id)
  | .place x, b => ((b.place x).map .status id)
  | .pop, b => (b.ringbufPopData.map .element id)
  | .drop, b => (b.ringbufPop.map .status id)
  | .peek, b => (.element (b.ringbufPeek.map b.copyOut), b)
  | .count, b => (.count b.ringbufCount.toNat, b)
  | .full, b => (.status b.ringbufFull, b)
  | .empty, b => (.status b.ringbufEmpty, b)

/-- The calls on a deque of at most `n` elements. -/
def RingCall.deque (n : Nat) : RingCall α → List α → RingAnswer α × List α
  | .put none, xs => (.status false, xs)
  | .put (some x), xs => if xs.length = n then (.status false, xs) else (.status true, xs ++ [x])
  | .putFront none, xs => (.status false, xs)
  | .putFront (some x), xs => if xs.length = n then (.status false, xs) else (.status true, x :: xs)
  | .place x, xs => if xs.length = n then (.status false, xs) else (.status true, xs ++ [x])
  | .pop, xs => (.element xs.head?, xs.tail)
  | .drop, xs => (.status !xs.isEmpty, xs.tail)
  | .peek, xs => (.element xs.head?, xs)
  | .count, xs => (.count xs.length, xs)
  | .full, xs => (.status (xs.length == n), xs)
  | .empty, xs => (.status xs.isEmpty, xs)

section

variable [NeZero n] {b : RingBuffer α n}

theorem ringbufFull_eq (hb : b.Valid) : ringbufFull b = (b.contents.length == n) := by
  rw [Bool.eq_iff_iff, ringbufFull_iff hb, beq_iff_eq, RingBuffer.contents_length]

theorem ringbufEmpty_eq (b : RingBuffer α n) : ringbufEmpty b = b.contents.isEmpty := by
  rw [Bool.eq_iff_iff, ringbufEmpty_iff, List.isEmpty_iff]

theorem ringbufPut_some (b : RingBuffer α n) (x : α) : ringbufPut b (some x) = ringPlace b x := by
  by_cases hf : ringbufFull b = true
  · simp [ringbufPut, ringPlace, ringbufDataPeek, hf]
  · have hf' : ¬ ringbufFull (b.fill (cell n b.head.toNat) x) = true := hf
    simp [ringbufPut, ringPlace, ringbufDataPeek, ringbufDataPut, hf, hf']

theorem ringPlace_room (hb : b.Valid) (hlt : b.size < n) (x : α) :
    (ringPlace b x).1 = true ∧ (ringPlace b x).2.Valid ∧
      (ringPlace b x).2.contents = b.contents ++ [x] := by
  cases hpeek : ringbufDataPeek b with
  | none =>
    rw [ringbufDataPeek_none hb] at hpeek
    omega
  | some c =>
    simp only [ringPlace, hpeek]
    exact ringbufDataPut_fill hb hpeek x

theorem ringPlace_full (hb : b.Valid) (hfull : b.size = n) (x : α) :
    ringPlace b x = (false, b) := by
  simp [ringPlace, (ringbufDataPeek_none hb).mpr hfull]

theorem RingBuffer.tail_sub_one (hb : b.Valid) :
    cell n ((b.tail - 1).toNat + 1) = cell n b.tail.toNat := by
  have ht := b.tail.toNat_lt
  have hsum : ((b.tail - 1).toNat + 1) % 2 ^ 32 = b.tail.toNat := by
    rw [UInt32.toNat_sub]
    simp only [UInt32.reduceToNat]
    omega
  rw [← hsum, cell_mod hb.dvd]

omit [NeZero n] in
theorem RingBuffer.size_front (hb : b.Valid) (hlt : b.size < n) (block : Fin n → α) :
    (⟨block, b.head, b.tail - 1⟩ : RingBuffer α n).size = b.size + 1 := by
  have ht := b.tail.toNat_lt
  have hh := b.head.toNat_lt
  have hn := hb.lt
  simp only [RingBuffer.size, ringbufCount, UInt32.toNat_sub, UInt32.reduceToNat] at hlt ⊢
  omega

theorem ringbufPutFront_room (hb : b.Valid) (hlt : b.size < n) (x : α) :
    (ringbufPutFront b (some x)).1 = true ∧ (ringbufPutFront b (some x)).2.Valid ∧
      (ringbufPutFront b (some x)).2.contents = x :: b.contents := by
  have hfull : ¬ ringbufFull b = true := by
    rw [ringbufFull_iff hb]
    omega
  have hsize := RingBuffer.size_front hb hlt (Function.update b.buffer (cell n (b.tail - 1).toNat) x)
  have hmod : (b.tail - 1).toNat + 1 ≡ b.tail.toNat [MOD n] :=
    congrArg Fin.val (RingBuffer.tail_sub_one hb)
  simp only [ringbufPutFront, if_neg hfull, true_and]
  refine ⟨⟨hsize ▸ hlt, hb.lt, hb.dvd⟩, ?_⟩
  show window (Function.update b.buffer (cell n (b.tail - 1).toNat) x) (b.tail - 1).toNat
    (RingBuffer.size (⟨Function.update b.buffer (cell n (b.tail - 1).toNat) x, b.head, b.tail - 1⟩ :
      RingBuffer α n)) = x :: b.contents
  rw [hsize, window_pop, Function.update_self]
  congr 1
  rw [window_congr _ hmod]
  apply window_update_of_not_mem
  intro i hi he
  -- the cell in front of the tail is `n - 1` cells after it
  have hnext : cell n ((b.tail - 1).toNat + (1 + i)) = cell n ((b.tail - 1).toNat + 0) := by
    rw [← Nat.add_assoc]
    exact (cell_congr (Nat.ModEq.add_right i hmod)).trans he
  have := cell_injective (by omega) (by omega) hnext
  omega

theorem ringbufPop_eq (hb : b.Valid) : (ringbufPop b).1 = !b.contents.isEmpty ∧
    (ringbufPop b).2.Valid ∧ (ringbufPop b).2.contents = b.contents.tail := by
  cases hc : b.contents with
  | nil =>
    have hempty := (ringbufEmpty_iff b).mpr hc
    simp [ringbufPop, hempty, hb, hc]
  | cons x xs =>
    obtain ⟨hret, hvalid, hcont⟩ := ringbufPop_cons hb hc
    exact ⟨hret, hvalid, hcont⟩

theorem ringbufPeek_eq (b : RingBuffer α n) : (ringbufPeek b).map b.buffer = b.contents.head? := by
  cases hc : b.contents with
  | nil => simp [ringbufPeek_nil hc]
  | cons x xs =>
    obtain ⟨c, hpeek, hx⟩ := ringbufPeek_cons hc
    simp [hpeek, hx]

theorem ringbufPopData_fst (b : RingBuffer α n) :
    (ringbufPopData b).1 = (ringbufPeek b).map b.buffer := by
  unfold ringbufPopData ringbufPeek
  split <;> rfl

end

/-- One call: the ring answers as its contents do, and what it holds is what they become. -/
theorem ringCall_refines [NeZero n] (c : RingCall α) (b : RingBuffer α n) (xs : List α)
    (h : b.Valid ∧ b.contents = xs) :
    (c.exec b).1 = (c.deque n xs).1 ∧ (c.exec b).2.Valid ∧
      (c.exec b).2.contents = (c.deque n xs).2 := by
  obtain ⟨hb, rfl⟩ := h
  have hle := hb.size_le
  have hplace : ∀ x, .status (ringPlace b x).1 = ((RingCall.place x).deque n b.contents).1 ∧
      (ringPlace b x).2.Valid ∧
      (ringPlace b x).2.contents = ((RingCall.place x).deque n b.contents).2 := by
    intro x
    by_cases hfull : b.size = n
    · simp [RingCall.deque, ringPlace_full hb hfull, hfull, hb]
    · obtain ⟨hret, hvalid, hcont⟩ := ringPlace_room hb (Nat.lt_of_le_of_ne hle hfull) x
      simp [RingCall.deque, hfull, hret, hvalid, hcont]
  cases c with
  | put dataElement =>
    cases dataElement with
    | none => exact ⟨rfl, hb, rfl⟩
    | some x =>
      simp only [RingCall.exec, ringbufPut_some]
      exact hplace x
  | putFront dataElement =>
    cases dataElement with
    | none => exact ⟨rfl, hb, rfl⟩
    | some x =>
      by_cases hfull : b.size = n
      · have hf := (ringbufFull_iff hb).mpr hfull
        simp [RingCall.exec, RingCall.deque, ringbufPutFront, hf, hfull, hb]
      · obtain ⟨hret, hvalid, hcont⟩ := ringbufPutFront_room hb (Nat.lt_of_le_of_ne hle hfull) x
        simp [RingCall.exec, RingCall.deque, hfull, hret, hvalid, hcont]
  | place x => exact hplace x
  | pop =>
    obtain ⟨-, hvalid, hcont⟩ := ringbufPop_eq hb
    exact ⟨by rw [RingCall.deque, ← ringbufPeek_eq, ← ringbufPopData_fst]; rfl, hvalid, hcont⟩
  | drop =>
    obtain ⟨hret, hvalid, hcont⟩ := ringbufPop_eq hb
    exact ⟨by rw [RingCall.deque, ← hret]; rfl, hvalid, hcont⟩
  | peek => exact ⟨by rw [RingCall.deque, ← ringbufPeek_eq]; rfl, hb, rfl⟩
  | count => exact ⟨by rw [RingCall.deque, RingBuffer.contents_length]; rfl, hb, rfl⟩
  | full => exact ⟨by rw [RingCall.deque, ← ringbufFull_eq hb]; rfl, hb, rfl⟩
  | empty => exact ⟨by rw [RingCall.deque, ← ringbufEmpty_eq]; rfl, hb, rfl⟩

section

variable [NeZero n]

def wrappedRing (block : Fin n → α) (x : α) (k : Nat) : RingBuffer α n :=
  ⟨fun c => if c.val < k then x else block c, UInt32.ofNat k, -1⟩

omit [NeZero n] in
theorem wrappedRing_count (block : Fin n → α) (x : α) (k : Nat) :
    ringbufCount (wrappedRing block x k) = UInt32.ofNat (k + 1) := by
  rw [UInt32.ofNat_add]
  simp [ringbufCount, wrappedRing]

theorem wrappedRing_put (hlt : n < 2 ^ 32) (block : Fin n → α) (x : α) {k : Nat} (hk : k + 1 < n) :
    (RingCall.put (some x)).exec (wrappedRing block x k) =
      (.status true, wrappedRing block x (k + 1)) := by
  have hsucc : UInt32.ofNat k + 1 = UInt32.ofNat (k + 1) := (UInt32.ofNat_add k 1).symm
  have hfull : ringbufFull (wrappedRing block x k) = false := by
    rw [ringbufFull, wrappedRing_count, beq_eq_false_iff_ne, Ne, ← UInt32.toNat_inj]
    simp only [UInt32.toNat_ofNat']
    omega
  have hcell : cell n (UInt32.ofNat k).toNat = ⟨k, by omega⟩ := by
    apply Fin.ext
    simp only [cell, UInt32.toNat_ofNat']
    rw [Nat.mod_eq_of_lt (show k < 2 ^ 32 by omega), Nat.mod_eq_of_lt (by omega)]
  have hblock : Function.update (wrappedRing block x k).buffer ⟨k, by omega⟩ x =
      (wrappedRing block x (k + 1)).buffer := by
    funext c
    by_cases hc : c = ⟨k, by omega⟩
    · subst hc
      simp [wrappedRing]
    · have hne : c.val ≠ k := fun h => hc (Fin.ext h)
      have hiff : c.val < k ↔ c.val < k + 1 := by omega
      simp [wrappedRing, Function.update_of_ne hc, hiff]
  have hhead : (wrappedRing block x k).head = UInt32.ofNat k := rfl
  simp only [RingCall.exec, ringbufPut, hfull, Bool.false_eq_true, if_false, Prod.map, id, hhead, hcell,
    RingBuffer.fill, hblock, hsucc]
  rfl

theorem wrappedRing_puts (hlt : n < 2 ^ 32) (block : Fin n → α) (x : α) (k j : Nat) (h : j + k < n) :
    final RingCall.exec (wrappedRing block x j) (List.replicate k (.put (some x))) =
      wrappedRing block x (j + k) := by
  induction k generalizing j with
  | zero => rfl
  | succ k ih =>
    rw [List.replicate_succ, final, wrappedRing_put hlt block x (by omega), ih _ (by omega)]
    congr 1
    omega

theorem ringbufInit_putFront (hlt : n < 2 ^ 32) (block : Fin n → α) (x y : α) :
    ((RingCall.putFront (some y)).exec (ringbufInit block)).2 =
      wrappedRing (Function.update block (cell n (2 ^ 32 - 1)) y) x 0 := by
  have hpos := NeZero.pos n
  have hfull : ringbufFull (⟨block, 0, 0⟩ : RingBuffer α n) = false := by
    rw [ringbufFull, beq_eq_false_iff_ne, Ne, ← UInt32.toNat_inj]
    simp only [ringbufCount, UInt32.toNat_ofNat', UInt32.sub_self, UInt32.reduceToNat]
    omega
  simp [RingCall.exec, ringbufPutFront, hfull, wrappedRing, ringbufInit, RingBuffer.fill]

theorem wrappedRing_pop (hlt : n < 2 ^ 32) (block : Fin n → α) (x : α) {k : Nat} (hk : k + 1 ≤ n)
    (hover : (2 ^ 32 - 1) % n < k) :
    (RingCall.pop.exec (wrappedRing block x k)).1 = .element (some x) := by
  have hempty : ringbufEmpty (wrappedRing block x k) = false := by
    rw [ringbufEmpty, wrappedRing_count, beq_eq_false_iff_ne, Ne, ← UInt32.toNat_inj]
    simp only [UInt32.toNat_ofNat', UInt32.reduceToNat]
    omega
  have hfront : (wrappedRing block x k).buffer (cell n (wrappedRing block x k).tail.toNat) = x :=
    if_pos hover
  simp only [RingCall.exec, ringbufPopData, hempty, hfront, Bool.false_eq_true, if_false, Prod.map]

omit [NeZero n] in
theorem deque_puts (x : α) (k : Nat) (xs : List α) (h : xs.length + k ≤ n) :
    final (RingCall.deque n) xs (List.replicate k (.put (some x))) = xs ++ List.replicate k x := by
  induction k generalizing xs with
  | zero => simp [final]
  | succ k ih =>
    have hroom : xs.length ≠ n := by omega
    rw [List.replicate_succ, final]
    simp only [RingCall.deque, if_neg hroom]
    rw [ih _ (by simp; omega)]
    simp [List.replicate_succ]

/-- One more element behind than fits before the counter 2^32 - 1, and the one in front is
lost. -/
theorem ringbuf_not_deque (hlt : n < 2 ^ 32) (hn : ¬ n ∣ 2 ^ 32) (block : Fin n → α) {x y : α}
    (hne : x ≠ y) :
    ∃ calls, answers RingCall.exec (ringbufInit block) calls ≠
      answers (RingCall.deque n) ([] : List α) calls := by
  have hpos := NeZero.pos n
  have hr : (2 ^ 32 - 1) % n + 2 ≤ n := by
    by_contra hlast
    have hmod := Nat.mod_lt (2 ^ 32 - 1) hpos
    have hdiv := Nat.div_add_mod (2 ^ 32 - 1) n
    exact hn ⟨(2 ^ 32 - 1) / n + 1, by rw [Nat.mul_add, Nat.mul_one]; omega⟩
  let puts : List (RingCall α) := List.replicate ((2 ^ 32 - 1) % n + 1) (.put (some x))
  refine ⟨(.putFront (some y) :: puts) ++ [.pop], fun heq => ?_⟩
  rw [answers_append, answers_append] at heq
  have hlast := (List.append_inj heq (by rw [answers_length, answers_length])).2
  have hring : final RingCall.exec (ringbufInit block) (.putFront (some y) :: puts) =
      wrappedRing (Function.update block (cell n (2 ^ 32 - 1)) y) x ((2 ^ 32 - 1) % n + 1) := by
    rw [final, ringbufInit_putFront hlt block x y, wrappedRing_puts hlt _ _ _ _ (by omega),
      Nat.zero_add]
  have hdeque : final (RingCall.deque n) ([] : List α) (.putFront (some y) :: puts) =
      y :: List.replicate ((2 ^ 32 - 1) % n + 1) x := by
    have hne0 : ¬ ([] : List α).length = n := by
      simp only [List.length_nil]
      omega
    rw [final]
    simp only [RingCall.deque, if_neg hne0]
    exact deque_puts x _ [y] (by rw [List.length_singleton]; omega)
  rw [hring, hdeque] at hlast
  have hpop := (List.cons.inj hlast).1
  rw [wrappedRing_pop hlt _ x (by omega) (Nat.lt_succ_self _)] at hpop
  exact hne (Option.some.inj (RingAnswer.element.inj hpop))

end

theorem elements_deque_iff [NeZero n] (hlt : n < 2 ^ 32) [Nontrivial α] :
    (∀ (block : Fin n → α) (calls : List (RingCall α)),
      answers RingCall.exec (ringbufInit block) calls =
        answers (RingCall.deque n) ([] : List α) calls) ↔ ∃ k, n = 2 ^ k := by
  constructor
  · intro h
    obtain ⟨x, y, hne⟩ := exists_pair_ne α
    by_contra hpow
    have hn : ¬ n ∣ 2 ^ 32 := by
      intro hdvd
      obtain ⟨k, -, hk⟩ := (Nat.dvd_prime_pow Nat.prime_two).mp hdvd
      exact hpow ⟨k, hk⟩
    obtain ⟨calls, hcalls⟩ := ringbuf_not_deque hlt hn (fun _ => x) hne
    exact hcalls (h _ calls)
  · rintro ⟨k, rfl⟩ block calls
    have hk : k < 32 := (Nat.pow_lt_pow_iff_right (by omega)).mp hlt
    have hdvd : 2 ^ k ∣ 2 ^ 32 := pow_dvd_pow 2 (by omega)
    exact answers_eq (fun b xs => b.Valid ∧ b.contents = xs)
      (fun c b xs h => ringCall_refines c b xs h)
      ⟨ringbufInit_valid block hlt hdvd, ringbufInit_contents block⟩ calls

namespace ByteRing

variable {k : Nat} (b : ByteRing n k)

theorem elements_pop : b.ringbufPop.map id elements = Umtp.ringbufPop b.elements := by
  have hempty : Umtp.ringbufEmpty b.elements = b.ringbufEmpty := rfl
  rw [ByteRing.ringbufPop, Umtp.ringbufPop, hempty]
  split <;> rfl

variable [NeZero n] (hsize : BlockSize n k)

include hsize

theorem elements_peek :
    b.ringbufPeek.map b.copyOut = (Umtp.ringbufPeek b.elements).map b.elements.buffer := by
  have hempty : Umtp.ringbufEmpty b.elements = b.ringbufEmpty := rfl
  rw [ByteRing.ringbufPeek, Umtp.ringbufPeek, hempty, ringDataOffset_eq hsize]
  split <;> rfl

theorem elements_popData : b.ringbufPopData.map id elements = Umtp.ringbufPopData b.elements := by
  have hempty : Umtp.ringbufEmpty b.elements = b.ringbufEmpty := rfl
  rw [ByteRing.ringbufPopData, Umtp.ringbufPopData, Umtp.ringbufPop, hempty,
    ringDataOffset_eq hsize]
  split <;> rfl

theorem elements_put (x : Option (Element k)) :
    (b.ringbufPut x).map id elements = Umtp.ringbufPut b.elements x := by
  cases x with
  | none => rfl
  | some x =>
    have hfull : Umtp.ringbufFull b.elements = b.ringbufFull := rfl
    have hcopy := b.elements_copyIn (cell n b.head.toNat) x
    rw [ByteRing.ringbufPut, Umtp.ringbufPut, hfull, ringDataOffset_eq hsize]
    split
    · rfl
    · simp only [Prod.map, id, copyIn_head]
      exact congrArg (fun e => (true, { e with head := b.head + 1 })) hcopy

theorem elements_putFront (x : Option (Element k)) :
    (b.ringbufPutFront x).map id elements = Umtp.ringbufPutFront b.elements x := by
  cases x with
  | none => rfl
  | some x =>
    have hfull : Umtp.ringbufFull b.elements = b.ringbufFull := rfl
    have hcopy := elements_copyIn { b with tail := b.tail - 1 } (cell n (b.tail - 1).toNat) x
    rw [ByteRing.ringbufPutFront, Umtp.ringbufPutFront, hfull]
    split
    · rfl
    · simp only [Prod.map, id, ringDataOffset_eq hsize, hcopy]
      rfl

theorem elements_place (x : Element k) :
    (b.place x).map id elements = ringPlace b.elements x := by
  have hput : b.ringbufPut (some x) = b.place x := by
    by_cases hf : b.ringbufFull = true
    · simp [ByteRing.ringbufPut, place, ByteRing.ringbufDataPeek, hf]
    · have hf' : ¬ (b.copyIn (ringDataOffset n k b.head) x).ringbufFull = true := by
        rw [ByteRing.ringbufFull, ByteRing.ringbufCount, copyIn_head, copyIn_tail]
        exact hf
      simp [ByteRing.ringbufPut, place, ByteRing.ringbufDataPeek, ByteRing.ringbufDataPut, hf, hf']
  rw [← hput, elements_put b hsize, ringbufPut_some]

end ByteRing

theorem ringCall_bytes [NeZero n] {k : Nat} (hsize : BlockSize n k) (c : RingCall (Element k))
    (b : ByteRing n k) : (c.execBytes b).map id ByteRing.elements = c.exec b.elements := by
  cases c with
  | put x =>
    rw [RingCall.exec, ← b.elements_put hsize]
    rfl
  | putFront x =>
    rw [RingCall.exec, ← b.elements_putFront hsize]
    rfl
  | place x =>
    rw [RingCall.exec, ← b.elements_place hsize]
    rfl
  | pop =>
    rw [RingCall.exec, ← b.elements_popData hsize]
    rfl
  | drop =>
    rw [RingCall.exec, ← b.elements_pop]
    rfl
  | peek =>
    rw [RingCall.exec, ← b.elements_peek hsize]
    rfl
  | count => rfl
  | full => rfl
  | empty => rfl

theorem answers_elements [NeZero n] {k : Nat} (hsize : BlockSize n k) (b : ByteRing n k)
    (calls : List (RingCall (Element k))) :
    answers RingCall.execBytes b calls = answers RingCall.exec b.elements calls :=
  answers_eq (fun b e => b.elements = e)
    (fun c b e h => by
      subst h
      have hcall := ringCall_bytes hsize c b
      exact ⟨congrArg Prod.fst hcall, congrArg Prod.snd hcall⟩)
    rfl calls

/-- Where there are elements, none of them empty, in a block that unsigned arithmetic reaches:
the ring answers every sequence of calls as a deque of at most `element_count` elements if, and
only if, `element_count` is a power of two. -/
theorem ringbuf_deque_iff [NeZero n] {k : Nat} (hk : 0 < k) (hsize : BlockSize n k) :
    (∀ (buffer : Nat → UInt8) (calls : List (RingCall (Element k))),
      answers RingCall.execBytes (ByteRing.ringbufInit n k buffer) calls =
        answers (RingCall.deque n) ([] : List (Element k)) calls) ↔ ∃ j, n = 2 ^ j := by
  have : Nontrivial (Element k) := by
    have : Nonempty (Fin k) := ⟨⟨0, hk⟩⟩
    have : Nontrivial UInt8 := ⟨0, 1, by decide⟩
    exact Function.nontrivial
  rw [← elements_deque_iff (α := Element k) hsize.lt]
  constructor
  · intro h block calls
    obtain ⟨buffer, hblock⟩ := ByteRing.exists_elements block
    rw [← hblock, ← answers_elements hsize]
    exact h buffer calls
  · intro h buffer calls
    rw [answers_elements hsize]
    exact h _ calls

theorem ringbuf_deque_packets : BlockSize maxPduCount maxMpuData ∧
    ∀ (buffer : Nat → UInt8) (calls : List (RingCall (Element maxMpuData))),
      answers RingCall.execBytes (ByteRing.ringbufInit maxPduCount maxMpuData buffer) calls =
        answers (RingCall.deque maxPduCount) ([] : List (Element maxMpuData)) calls := by
  have hsize : BlockSize maxPduCount maxMpuData := ⟨by decide, by decide, by decide⟩
  exact ⟨hsize, (ringbuf_deque_iff (by decide) hsize).mpr ⟨4, rfl⟩⟩

end Umtp
