import Umtp.Kit.FiniteRun
import Umtp.MemoryPool
import Mathlib.Algebra.BigOperators.Intervals
import Mathlib.Algebra.Order.BigOperators.Group.Finset
import Mathlib.Data.Nat.ModEq

/-! Whose blocks are whose, over the calls on a pool. The counters say how many blocks are
free; where these are they say only as long as the oldest allocations are freed first. -/

set_option autoImplicit false

namespace Umtp
open FiniteRun

/-- A pointer that has been handed out, with the counter and the number of blocks it has
been given from there on. -/
structure Allocation where
  size : UInt64
  ptr : Nat
  tail : UInt32
  blocks : UInt32

structure PoolState where
  pool : MemoryPool
  made : Nat
  alloc : Nat → Allocation
  live : Nat → Bool

/-- `free k` and `write k` are about the allocation at position `k`; a caller writes to the
bytes it has asked for. -/
inductive PoolCall where
  | malloc (size : UInt64)
  | free (k : Nat)
  | write (k : Nat) (start : PoolMemory)

namespace PoolState

def Live (s : PoolState) (k : Nat) : Prop := k < s.made ∧ s.live k = true

def block (s : PoolState) (k i : Nat) : Nat :=
  ((s.alloc k).tail.toNat % s.pool.memblk.count.toNat + i) % s.pool.memblk.count.toNat

def Covers (s : PoolState) (k x : Nat) : Prop :=
  (s.alloc k).ptr ≤ x + memblkDescSize ∧ x < (s.alloc k).ptr + (s.alloc k).size.toNat

def Disjoint (s : PoolState) : Prop :=
  ∀ k l, s.Live k → s.Live l → k ≠ l →
    (∀ i < (s.alloc k).blocks.toNat, ∀ j < (s.alloc l).blocks.toNat, s.block k i ≠ s.block l j) ∧
      ∀ x, ¬ (s.Covers k x ∧ s.Covers l x)

def position (s : PoolState) (k : Nat) : Nat := ∑ i ∈ Finset.range k, (s.alloc i).blocks.toNat

def used (s : PoolState) : Nat :=
  ∑ i ∈ Finset.range s.made, if s.live i then (s.alloc i).blocks.toNat else 0

def start (p : MemoryPool) : PoolState := ⟨p, 0, fun _ => ⟨0, 0, 0, 0⟩, fun _ => false⟩

end PoolState

def PoolCall.Valid (s : PoolState) : PoolCall → Prop
  | .malloc _ => True
  | .free k => s.Live k
  | .write k start => s.Live k ∧
      ∀ x, x < (s.alloc k).ptr ∨ (s.alloc k).ptr + (s.alloc k).size.toNat ≤ x →
        start x = s.pool.start x

def PoolCall.exec (s : PoolState) : PoolCall → Option PoolState
  | .malloc size =>
    match memoryPoolMalloc s.pool size with
    | none => none
    | some (none, pool) => some { s with pool }
    | some (some ptr, pool) => some ⟨pool, s.made + 1,
        Function.update s.alloc s.made
          ⟨size, ptr, s.pool.memblk.tail, s.pool.cnt size + s.pool.extra size⟩,
        Function.update s.live s.made true⟩
  | .free k => some { s with
      pool := memoryPoolFree s.pool (s.alloc k).ptr
      live := Function.update s.live k false }
  | .write _ start => some { s with pool := { s.pool with start } }

def PoolStep (s : PoolState) (c : PoolCall) (s' : PoolState) : Prop :=
  c.Valid s ∧ c.exec s = some s'

def PoolState.Queued (s : PoolState) : Prop :=
  ∀ k l, k < l → l < s.made → s.live k = true → s.live l = true

/-- The counters go round in step with the blocks, or have not gone round since the live
allocations were made. -/
def PoolState.InStep (s : PoolState) : Prop :=
  s.pool.memblk.count.toNat ∣ 2 ^ 32 ∨
    ∀ k, s.Live k → s.position k / 2 ^ 32 = s.position s.made / 2 ^ 32

/-- A request that is let through finds the pool not empty, its blocks in a row and room for
a header in them, within 4 GiB. -/
def PoolCall.Good (s : PoolState) : PoolCall → Prop
  | .malloc size => s.pool.grants size = true →
      memoryBlockCount s.pool.memblk ≠ 0 ∧ s.Queued ∧ s.InStep ∧
      memblkDescSize + size.toNat ≤
        (s.pool.cnt size + s.pool.extra size).toNat * s.pool.blkSize.toNat ∧
      (s.pool.memblk.tail % s.pool.memblk.count).toNat * s.pool.blkSize.toNat < 2 ^ 32
  | _ => True

/-- Every live allocation has room for a header and its bytes, in blocks of its own. -/
structure PoolState.Layout (s : PoolState) : Prop where
  room : ∀ k, s.Live k → memblkDescSize + (s.alloc k).size.toNat ≤
    (s.alloc k).blocks.toNat * s.pool.blkSize.toNat
  ptr : ∀ k, s.Live k → (s.alloc k).ptr =
    (s.alloc k).tail.toNat % s.pool.memblk.count.toNat * s.pool.blkSize.toNat + memblkDescSize
  runs : ∀ k l, s.Live k → s.Live l → k ≠ l → ∀ i < (s.alloc k).blocks.toNat,
    ∀ j < (s.alloc l).blocks.toNat, s.block k i ≠ s.block l j

structure PoolState.Inv (s : PoolState) : Prop where
  count : 0 < s.pool.memblk.count.toNat
  perSize : s.pool.memblk.perSize = s.pool.blkSize.toUInt32
  free : (memoryBlockCount s.pool.memblk).toNat + s.used = s.pool.memblk.count.toNat
  tail : s.pool.memblk.tail.toNat = s.position s.made % 2 ^ 32
  tails : ∀ k < s.made, (s.alloc k).tail.toNat = s.position k % 2 ^ 32
  layout : s.Layout
  header : ∀ k, s.Live k →
    s.pool.start.read32 ((s.alloc k).ptr - memblkDescSize) = (s.alloc k).blocks

theorem block_of_byte {b c i x : Nat} (hle : i * b ≤ x) (hlt : x < i * b + c * b) :
    i ≤ x / b ∧ x / b < i + c := by
  have hb : 0 < b := by
    rcases Nat.eq_zero_or_pos b with rfl | hb
    · simp at hlt
    · exact hb
  rw [← Nat.add_mul] at hlt
  exact ⟨(Nat.le_div_iff_mul_le hb).mpr hle, (Nat.div_lt_iff_lt_mul hb).mpr hlt⟩

theorem PoolState.Layout.bytes {s : PoolState} (hs : s.Layout) {k l : Nat} (hk : s.Live k)
    (hl : s.Live l) (hkl : k ≠ l) (x : Nat) : ¬ (s.Covers k x ∧ s.Covers l x) := by
  rintro ⟨⟨hkx, hxk⟩, hlx, hxl⟩
  have hroomk := hs.room k hk
  have hrooml := hs.room l hl
  have hptrk := hs.ptr k hk
  have hptrl := hs.ptr l hl
  obtain ⟨hlek, hltk⟩ := block_of_byte (x := x) (c := (s.alloc k).blocks.toNat)
    (i := (s.alloc k).tail.toNat % s.pool.memblk.count.toNat) (b := s.pool.blkSize.toNat)
    (by omega) (by omega)
  obtain ⟨hlel, hltl⟩ := block_of_byte (x := x) (c := (s.alloc l).blocks.toNat)
    (i := (s.alloc l).tail.toNat % s.pool.memblk.count.toNat) (b := s.pool.blkSize.toNat)
    (by omega) (by omega)
  apply hs.runs k l hk hl hkl (x / s.pool.blkSize.toNat -
    (s.alloc k).tail.toNat % s.pool.memblk.count.toNat) (by omega)
    (x / s.pool.blkSize.toNat - (s.alloc l).tail.toNat % s.pool.memblk.count.toNat) (by omega)
  rw [block, block, Nat.add_sub_cancel' hlek, Nat.add_sub_cancel' hlel]

theorem PoolState.Layout.disjoint {s : PoolState} (hs : s.Layout) : s.Disjoint :=
  fun k l hk hl hkl => ⟨hs.runs k l hk hl hkl, hs.bytes hk hl hkl⟩

theorem PoolState.Layout.header_kept {s : PoolState} (hs : s.Layout) {k : Nat} (hk : s.Live k)
    {start start' : PoolMemory} (h : ∀ x, s.Covers k x → x < (s.alloc k).ptr → start' x = start x) :
    start'.read32 ((s.alloc k).ptr - memblkDescSize) =
      start.read32 ((s.alloc k).ptr - memblkDescSize) := by
  have hptr := hs.ptr k hk
  have hdesc : memblkDescSize = 16 := rfl
  apply PoolMemory.read32_congr
  intro x hle hlt
  exact h x ⟨by omega, by omega⟩ (by omega)

theorem PoolState.position_succ (s : PoolState) (k : Nat) :
    s.position (k + 1) = s.position k + (s.alloc k).blocks.toNat := Finset.sum_range_succ _ k

theorem PoolState.position_mono (s : PoolState) {k l : Nat} (h : k ≤ l) :
    s.position k ≤ s.position l :=
  Finset.sum_le_sum_of_subset (Finset.range_subset_range.mpr h)

/-- When nothing younger than a live allocation has been freed, all blocks from it on are in
use. -/
theorem PoolState.Queued.span {s : PoolState} (hq : s.Queued) {k : Nat} (hk : s.Live k) :
    s.position s.made ≤ s.position k + s.used := by
  obtain ⟨hlt, hlive⟩ := hk
  have hsplit := Finset.sum_range_add_sum_Ico (fun i => (s.alloc i).blocks.toNat)
    (Nat.le_of_lt hlt)
  have hin : ∑ i ∈ Finset.Ico k s.made, (s.alloc i).blocks.toNat =
      ∑ i ∈ Finset.Ico k s.made, if s.live i then (s.alloc i).blocks.toNat else 0 := by
    apply Finset.sum_congr rfl
    intro i hi
    obtain ⟨hki, him⟩ := Finset.mem_Ico.mp hi
    rcases Nat.eq_or_lt_of_le hki with rfl | hki
    · rw [hlive, if_pos rfl]
    · rw [hq k i hki him hlive, if_pos rfl]
  have hpart : (∑ i ∈ Finset.Ico k s.made, if s.live i then (s.alloc i).blocks.toNat else 0) ≤
      s.used := by
    apply Finset.sum_le_sum_of_subset
    intro i hi
    exact Finset.mem_range.mpr (Finset.mem_Ico.mp hi).2
  unfold position
  omega

theorem PoolState.InStep.congr {s : PoolState} (hstep : s.InStep) {k : Nat} (hk : s.Live k) :
    s.position s.made % 2 ^ 32 + s.position k ≡
      s.position k % 2 ^ 32 + s.position s.made [MOD s.pool.memblk.count.toNat] := by
  rcases hstep with hdvd | hsame
  · have hmade := (Nat.mod_modEq (s.position s.made) (2 ^ 32)).of_dvd hdvd
    have hpos := (Nat.mod_modEq (s.position k) (2 ^ 32)).of_dvd hdvd
    have hadd := (hmade.add_right (s.position k)).trans (hpos.symm.add_left (s.position s.made))
    rwa [Nat.add_comm (s.position s.made)] at hadd
  · have heq : s.position s.made % 2 ^ 32 + s.position k =
        s.position k % 2 ^ 32 + s.position s.made := by
      have hdiv := hsame k hk
      omega
    rw [heq]

/-- The blocks that are handed out next are no live allocation's. -/
theorem PoolState.Inv.fresh {s : PoolState} (hs : s.Inv) (hq : s.Queued) (hstep : s.InStep)
    {c : Nat} (hc : c ≤ (memoryBlockCount s.pool.memblk).toNat) {k : Nat} (hk : s.Live k)
    {i : Nat} (hi : i < (s.alloc k).blocks.toNat) {j : Nat} (hj : j < c) :
    s.block k i ≠ (s.pool.memblk.tail.toNat % s.pool.memblk.count.toNat + j) %
      s.pool.memblk.count.toNat := by
  intro heq
  have hspan := hq.span hk
  have hfree := hs.free
  have hbefore : s.position k + (s.alloc k).blocks.toNat ≤ s.position s.made := by
    rw [← s.position_succ]
    exact s.position_mono hk.1
  have hblock : s.position k % 2 ^ 32 + i ≡ s.position s.made % 2 ^ 32 + j
      [MOD s.pool.memblk.count.toNat] := by
    rw [← hs.tail, ← hs.tails k hk.1]
    exact ((Nat.mod_modEq _ _).symm.add_right i).trans
      (Nat.ModEq.trans heq ((Nat.mod_modEq _ _).add_right j))
  have hdist : s.position s.made % 2 ^ 32 + (s.position k + i) ≡
      s.position s.made % 2 ^ 32 + (s.position s.made + j) [MOD s.pool.memblk.count.toNat] := by
    have h1 := (hstep.congr hk).add_right i
    have h2 := hblock.add_right (s.position s.made)
    rw [Nat.add_right_comm] at h2
    have h3 := h1.trans h2
    rwa [Nat.add_assoc, Nat.add_right_comm, Nat.add_assoc _ (s.position s.made) j] at h3
  have hdvd := (Nat.modEq_iff_dvd' (by omega)).mp (Nat.ModEq.add_left_cancel' _ hdist)
  have hle := Nat.le_of_dvd (by omega) hdvd
  omega

theorem sum_live_free {n : Nat} {live : Nat → Bool} {k : Nat} (hk : k < n) (hlive : live k = true)
    (f : Nat → Nat) :
    (∑ i ∈ Finset.range n, if Function.update live k false i then f i else 0) + f k =
      ∑ i ∈ Finset.range n, if live i then f i else 0 := by
  have hmem := Finset.mem_range.mpr hk
  rw [← Finset.sum_erase_add _ _ hmem, ← Finset.sum_erase_add _ _ hmem]
  simp only [Function.update_self, hlive, if_true, Bool.false_eq_true, if_false, Nat.add_zero]
  congr 1
  apply Finset.sum_congr rfl
  intro i hi
  rw [Function.update_of_ne (Finset.ne_of_mem_erase hi)]

theorem sum_live_made (n : Nat) (live : Nat → Bool) {f g : Nat → Nat} (hg : ∀ i < n, g i = f i) :
    (∑ i ∈ Finset.range (n + 1), if Function.update live n true i then g i else 0) =
      (∑ i ∈ Finset.range n, if live i then f i else 0) + g n := by
  rw [Finset.sum_range_succ]
  congr 1
  · apply Finset.sum_congr rfl
    intro i hi
    have hlt := Finset.mem_range.mp hi
    rw [Function.update_of_ne (Nat.ne_of_lt hlt), hg i hlt]
  · simp

theorem PoolState.used_free (s : PoolState) {k : Nat} (hk : s.Live k) (pool : MemoryPool) :
    PoolState.used ⟨pool, s.made, s.alloc, Function.update s.live k false⟩ +
      (s.alloc k).blocks.toNat = s.used :=
  sum_live_free hk.1 hk.2 fun i => (s.alloc i).blocks.toNat

theorem PoolState.Inv.free_inv {s : PoolState} (hs : s.Inv) {k : Nat} (hk : s.Live k) :
    PoolState.Inv ⟨memoryPoolFree s.pool (s.alloc k).ptr, s.made, s.alloc,
      Function.update s.live k false⟩ := by
  have hlive : ∀ l, PoolState.Live ⟨memoryPoolFree s.pool (s.alloc k).ptr, s.made, s.alloc,
      Function.update s.live k false⟩ l → s.Live l := by
    rintro l ⟨hl, hlive⟩
    refine ⟨hl, ?_⟩
    dsimp only at hlive
    by_cases hlk : l = k
    · rw [hlk, Function.update_self] at hlive
      cases hlive
    · rwa [Function.update_of_ne hlk] at hlive
  have hused : PoolState.used ⟨memoryPoolFree s.pool (s.alloc k).ptr, s.made, s.alloc, _⟩ + _ =
      s.used := s.used_free hk _
  have hfree := hs.free
  have hcount := s.pool.memblk.count.toNat_lt
  have hput := memoryBlockCount_put (show (memoryBlockCount s.pool.memblk).toNat +
    (s.alloc k).blocks.toNat < 2 ^ 32 by omega)
  refine ⟨hs.count, hs.perSize, ?_, hs.tail, hs.tails, ⟨?_, ?_, ?_⟩, ?_⟩
  · show (memoryBlockCount (memoryBlockPut s.pool.memblk
      (s.pool.start.read32 ((s.alloc k).ptr - memblkDescSize)))).toNat + _ = _
    rw [hs.header k hk, hput]
    show _ = s.pool.memblk.count.toNat
    omega
  · exact fun l hl => hs.layout.room l (hlive l hl)
  · exact fun l hl => hs.layout.ptr l (hlive l hl)
  · exact fun l m hl hm => hs.layout.runs l m (hlive l hl) (hlive m hm)
  · exact fun l hl => hs.header l (hlive l hl)

theorem PoolState.Inv.write_inv {s : PoolState} (hs : s.Inv) {k : Nat} (hk : s.Live k)
    {start : PoolMemory} (hstart : ∀ x, x < (s.alloc k).ptr ∨
      (s.alloc k).ptr + (s.alloc k).size.toNat ≤ x → start x = s.pool.start x) :
    PoolState.Inv { s with pool := { s.pool with start } } := by
  refine ⟨hs.count, hs.perSize, hs.free, hs.tail, hs.tails,
    ⟨hs.layout.room, hs.layout.ptr, hs.layout.runs⟩, ?_⟩
  intro l hl
  show start.read32 _ = _
  refine (hs.layout.header_kept hl ?_).trans (hs.header l hl)
  intro x hx hlt
  apply hstart
  by_cases hlk : l = k
  · exact .inl (hlk ▸ hlt)
  · by_contra hin
    simp only [not_or, Nat.not_lt, Nat.not_le] at hin
    exact hs.layout.bytes hl hk hlk x ⟨hx, Nat.le_add_right_of_le hin.1, hin.2⟩

theorem PoolState.position_update (s : PoolState) (a : Allocation) {pool : MemoryPool}
    {live : Nat → Bool} {k : Nat} (hk : k ≤ s.made) :
    PoolState.position ⟨pool, s.made + 1, Function.update s.alloc s.made a, live⟩ k =
      s.position k := by
  apply Finset.sum_congr rfl
  intro i hi
  have hne : i ≠ s.made := Nat.ne_of_lt (Nat.lt_of_lt_of_le (Finset.mem_range.mp hi) hk)
  dsimp only
  rw [Function.update_of_ne hne]

theorem PoolState.used_update (s : PoolState) (a : Allocation) {pool : MemoryPool} :
    PoolState.used ⟨pool, s.made + 1, Function.update s.alloc s.made a,
      Function.update s.live s.made true⟩ = s.used + a.blocks.toNat := by
  have hsum := sum_live_made s.made s.live (f := fun i => (s.alloc i).blocks.toNat)
    (g := fun i => (Function.update s.alloc s.made a i).blocks.toNat)
    (fun i hi => by rw [Function.update_of_ne (Nat.ne_of_lt hi)])
  rw [Function.update_self] at hsum
  exact hsum

section

variable {s : PoolState} (hs : s.Inv) {size : UInt64} (hgrants : s.pool.grants size = true)
  (hne : memoryBlockCount s.pool.memblk ≠ 0) (hq : s.Queued) (hstep : s.InStep)
  (hroom : memblkDescSize + size.toNat ≤
    (s.pool.cnt size + s.pool.extra size).toNat * s.pool.blkSize.toNat)
  (hoff : (s.pool.memblk.tail % s.pool.memblk.count).toNat * s.pool.blkSize.toNat < 2 ^ 32)

def PoolState.malloced (s : PoolState) (size : UInt64) : PoolState where
  pool := { s.pool with
    refCount := s.pool.refCount + 1
    blkUsed := s.pool.blkUsed + (s.pool.cnt size + s.pool.extra size)
    memblk := { s.pool.memblk with
      tail := s.pool.memblk.tail + (s.pool.cnt size + s.pool.extra size) }
    start := s.pool.start.write32
      ((s.pool.memblk.tail % s.pool.memblk.count) * s.pool.memblk.perSize).toNat
      (s.pool.cnt size + s.pool.extra size) }
  made := s.made + 1
  alloc := Function.update s.alloc s.made ⟨size,
    ((s.pool.memblk.tail % s.pool.memblk.count) * s.pool.memblk.perSize).toNat + memblkDescSize,
    s.pool.memblk.tail, s.pool.cnt size + s.pool.extra size⟩
  live := Function.update s.live s.made true

omit hs hq hstep hroom hoff in
include hgrants hne in
theorem malloc_exec : (PoolCall.malloc size).exec s = some (s.malloced size) := by
  simp only [PoolCall.exec, memoryPoolMalloc, hgrants, if_true, memoryBlockGet_some hne]
  rfl

omit hs hgrants hne hq hstep hroom hoff in
theorem malloced_live {k : Nat} (hk : (s.malloced size).Live k) : k = s.made ∨ s.Live k := by
  obtain ⟨hlt, hlive⟩ := hk
  by_cases hkm : k = s.made
  · exact .inl hkm
  · have hlt' : k < s.made + 1 := hlt
    have hsame : (s.malloced size).live k = s.live k := Function.update_of_ne hkm _ _
    exact .inr ⟨by omega, hsame ▸ hlive⟩

include hs hgrants hne hq hstep hroom hoff

theorem malloced_layout : (s.malloced size).Layout := by
  have hc := MemoryPool.grants_toNat hgrants hne
  have hnew : (s.malloced size).alloc s.made = ⟨size,
      ((s.pool.memblk.tail % s.pool.memblk.count) * s.pool.memblk.perSize).toNat + memblkDescSize,
      s.pool.memblk.tail, s.pool.cnt size + s.pool.extra size⟩ := Function.update_self _ _ _
  have hold : ∀ k, s.Live k → (s.malloced size).alloc k = s.alloc k :=
    fun k hk => Function.update_of_ne (Nat.ne_of_lt hk.1) _ _
  refine ⟨?_, ?_, ?_⟩
  · intro k hk
    rcases malloced_live hk with rfl | hk
    · rw [hnew]
      exact hroom
    · rw [hold k hk]
      exact hs.layout.room k hk
  · intro k hk
    rcases malloced_live hk with rfl | hk
    · rw [hnew]
      show ((s.pool.memblk.tail % s.pool.memblk.count) * s.pool.memblk.perSize).toNat + _ =
        s.pool.memblk.tail.toNat % s.pool.memblk.count.toNat * s.pool.blkSize.toNat + _
      rw [UInt32.toNat_mod] at hoff
      rw [hs.perSize, UInt32.toNat_mul, UInt32.toNat_mod, UInt64.toNat_toUInt32,
        Nat.mul_mod_mod, Nat.mod_eq_of_lt hoff]
    · rw [hold k hk]
      exact hs.layout.ptr k hk
  · have hfresh : ∀ k, s.Live k → ∀ i < (s.alloc k).blocks.toNat,
        ∀ j < (s.pool.cnt size + s.pool.extra size).toNat,
        (s.malloced size).block k i ≠ (s.malloced size).block s.made j := by
      intro k hk i hi j hj
      rw [PoolState.block, PoolState.block, hold k hk, hnew]
      exact hs.fresh hq hstep hc hk hi hj
    intro k l hk hl hkl i hi j hj
    rcases malloced_live hk with rfl | hk
    · rcases malloced_live hl with rfl | hl
      · exact absurd rfl hkl
      · rw [hnew] at hi
        rw [hold l hl] at hj
        exact (hfresh l hl j hj i hi).symm
    · rw [hold k hk] at hi
      rcases malloced_live hl with rfl | hl
      · rw [hnew] at hj
        exact hfresh k hk i hi j hj
      · rw [hold l hl] at hj
        rw [PoolState.block, PoolState.block, hold k hk, hold l hl]
        exact hs.layout.runs k l hk hl hkl i hi j hj

theorem malloced_inv : (s.malloced size).Inv := by
  have hc := MemoryPool.grants_toNat hgrants hne
  have hlayout := malloced_layout hs hgrants hne hq hstep hroom hoff
  have hfree := hs.free
  have hlast : (s.malloced size).position (s.made + 1) =
      s.position s.made + (s.pool.cnt size + s.pool.extra size).toNat := by
    rw [PoolState.position_succ]
    congr 1
    · exact s.position_update _ (Nat.le_refl _)
    · simp [PoolState.malloced]
  refine ⟨hs.count, hs.perSize, ?_, ?_, ?_, hlayout, ?_⟩
  · have hused : (s.malloced size).used = s.used + (s.pool.cnt size + s.pool.extra size).toNat :=
      s.used_update _
    have hcount : (memoryBlockCount (s.malloced size).pool.memblk).toNat =
        (memoryBlockCount s.pool.memblk).toNat - (s.pool.cnt size + s.pool.extra size).toNat :=
      memoryBlockCount_get hc
    have hsame : (s.malloced size).pool.memblk.count = s.pool.memblk.count := rfl
    rw [hcount, hused, hsame]
    omega
  · show (s.pool.memblk.tail + (s.pool.cnt size + s.pool.extra size)).toNat =
      (s.malloced size).position (s.made + 1) % 2 ^ 32
    rw [hlast, UInt32.toNat_add, hs.tail, Nat.mod_add_mod]
  · intro k hk
    have hk' : k < s.made + 1 := hk
    have hpos : (s.malloced size).position k = s.position k := s.position_update _ (by omega)
    rw [hpos]
    by_cases hkm : k = s.made
    · subst hkm
      simp only [PoolState.malloced, Function.update_self]
      exact hs.tail
    · simp only [PoolState.malloced, Function.update_of_ne hkm]
      exact hs.tails k (by omega)
  · intro k hk
    by_cases hkm : k = s.made
    · subst hkm
      simp only [PoolState.malloced, Function.update_self, Nat.add_sub_cancel]
      exact PoolMemory.read32_write32 _ _ _
    · have hold : s.Live k := (malloced_live hk).resolve_left hkm
      have hnew : (s.malloced size).Live s.made :=
        ⟨Nat.lt_succ_self _, by simp [PoolState.malloced]⟩
      refine Eq.trans (hlayout.header_kept hk (?_ : ∀ x, _ → _ → _ = s.pool.start x)) ?_
      · intro x hx _
        apply PoolMemory.write32_other
        by_contra hin
        simp only [not_or, Nat.not_lt, Nat.not_le] at hin
        have hdesc : memblkDescSize = 16 := rfl
        apply hlayout.bytes hk hnew hkm x ⟨hx, ?_⟩
        simp only [PoolState.Covers, PoolState.malloced, Function.update_self]
        omega
      · simp only [PoolState.malloced, Function.update_of_ne hkm]
        exact hs.header k hold

end

theorem poolCall_exec {s : PoolState} (hs : s.Inv) {c : PoolCall} (hvalid : c.Valid s)
    (hgood : c.Good s) : ∃ s', c.exec s = some s' ∧ s'.Inv := by
  cases c with
  | malloc size =>
    cases hgrants : s.pool.grants size with
    | false =>
      refine ⟨s, ?_, hs⟩
      simp [PoolCall.exec, memoryPoolMalloc, hgrants]
    | true =>
      obtain ⟨hne, hq, hstep, hroom, hoff⟩ := hgood hgrants
      exact ⟨_, malloc_exec hgrants hne, malloced_inv hs hgrants hne hq hstep hroom hoff⟩
  | free k => exact ⟨_, rfl, hs.free_inv hvalid⟩
  | write k start => exact ⟨_, rfl, hs.write_inv hvalid.1 hvalid.2⟩

theorem poolStep_inv {s s' : PoolState} (hs : s.Inv) {c : PoolCall} (hstep : PoolStep s c s')
    (hgood : c.Good s) : s'.Inv := by
  obtain ⟨hvalid, hexec⟩ := hstep
  obtain ⟨t, ht, hinv⟩ := poolCall_exec hs hvalid hgood
  rw [hexec] at ht
  cases ht
  exact hinv

theorem PoolState.start_live (p : MemoryPool) (k : Nat) : ¬ (PoolState.start p).Live k :=
  fun hk => Nat.not_lt_zero k hk.1

theorem memoryPoolCreate_inv {totalSize memBlkSize : UInt64} {flag : UInt32} {p : MemoryPool}
    (h : memoryPoolCreate totalSize memBlkSize flag = some p) (hcnt : p.blkCnt ≠ 0) :
    (PoolState.start p).Inv := by
  unfold memoryPoolCreate at h
  dsimp only at h
  split at h
  · cases h
  · cases h
    have hpos : 0 < (align totalSize memBlkSize /
        align memBlkSize memblkDescSize.toUInt64).toUInt32.toNat := by
      apply Nat.pos_of_ne_zero
      intro h0
      exact hcnt (UInt32.toNat_inj.mp h0)
    refine ⟨hpos, rfl, ?_, rfl, fun k hk => absurd hk (Nat.not_lt_zero k), ⟨?_, ?_, ?_⟩, ?_⟩
    · simp [PoolState.used, PoolState.start, memoryBlockCount_toNat, memoryBlockInit,
        memoryBlockPut]
    · exact fun k hk => absurd hk (PoolState.start_live _ k)
    · exact fun k hk => absurd hk (PoolState.start_live _ k)
    · exact fun k _ hk => absurd hk (PoolState.start_live _ k)
    · exact fun k hk => absurd hk (PoolState.start_live _ k)

theorem pool_blocks_disjoint {totalSize memBlkSize : UInt64} {flag : UInt32} {p : MemoryPool}
    (hp : memoryPoolCreate totalSize memBlkSize flag = some p) (hcnt : p.blkCnt ≠ 0)
    {calls : List PoolCall} {s : PoolState}
    (hr : Run (fun s c s' => PoolStep s c s' ∧ c.Good s) (PoolState.start p) calls s) :
    s.Disjoint ∧ ∀ c : PoolCall, c.Valid s → c.Good s → ∃ s', PoolStep s c s' ∧ s'.Disjoint := by
  have hs : s.Inv := hr.invariant PoolState.Inv (fun _ _ _ hs h => poolStep_inv hs h.1 h.2)
    (memoryPoolCreate_inv hp hcnt)
  refine ⟨hs.layout.disjoint, fun c hvalid hgood => ?_⟩
  obtain ⟨s', hexec, hinv⟩ := poolCall_exec hs hvalid hgood
  exact ⟨s', ⟨hvalid, hexec⟩, hinv.layout.disjoint⟩

def smallPool : MemoryPool := ⟨1024, 512, 2, 0, 0, 0, ⟨512, 2, 2, 0⟩, fun _ => 0⟩

theorem smallPool_created : memoryPoolCreate 1024 512 0 = some smallPool := rfl

def halfUsed : PoolState := (PoolState.start smallPool).malloced 100

theorem pool_blocks_disjoint_two :
    ∃ s, Run PoolStep (PoolState.start smallPool) [.malloc 100, .malloc 100] s ∧ s.made = 2 ∧
      s.Disjoint := by
  have hinstep : (2 : UInt32).toNat ∣ 2 ^ 32 := by decide
  have hgood : (PoolCall.malloc 100).Good (PoolState.start smallPool) := fun _ =>
    ⟨by decide, fun k l _ hl => absurd hl (Nat.not_lt_zero l), .inl hinstep, by decide, by decide⟩
  have hqueued : halfUsed.Queued := by
    intro k l hkl hl
    have hl' : l < 1 := hl
    omega
  have hgood' : (PoolCall.malloc 100).Good halfUsed := fun _ =>
    ⟨by decide, hqueued, .inl hinstep, by decide, by decide⟩
  have hfirst : PoolStep (PoolState.start smallPool) (.malloc 100) halfUsed :=
    ⟨trivial, malloc_exec (by decide) (by decide)⟩
  have hsecond : PoolStep halfUsed (.malloc 100) (halfUsed.malloced 100) :=
    ⟨trivial, malloc_exec (by decide) (by decide)⟩
  have hr : Run (fun s c s' => PoolStep s c s' ∧ c.Good s) (PoolState.start smallPool)
      [.malloc 100, .malloc 100] (halfUsed.malloced 100) :=
    (Run.nil.snoc ⟨hfirst, hgood⟩).snoc ⟨hsecond, hgood'⟩
  exact ⟨halfUsed.malloced 100, (Run.nil.snoc hfirst).snoc hsecond, rfl,
    (pool_blocks_disjoint smallPool_created (by decide) hr).1⟩

/-- The younger of two allocations is freed, and the block of the older handed out. -/
theorem young_free_shares :
    ∃ s, Run PoolStep (PoolState.start smallPool)
        [.malloc 100, .malloc 100, .free 1, .malloc 100] s ∧
      s.Live 0 ∧ s.Live 2 ∧ (s.alloc 0).ptr = (s.alloc 2).ptr ∧ ¬ s.Disjoint := by
  have hr : Run PoolStep (PoolState.start smallPool)
      [.malloc 100, .malloc 100, .free 1, .malloc 100] _ :=
    (((Run.nil.snoc ⟨trivial, rfl⟩).snoc ⟨trivial, rfl⟩).snoc
      ⟨⟨by decide, rfl⟩, rfl⟩).snoc ⟨trivial, rfl⟩
  refine ⟨_, hr, ⟨by decide, rfl⟩, ⟨by decide, rfl⟩, rfl, fun h => ?_⟩
  have hruns := (h 0 2 ⟨by decide, rfl⟩ ⟨by decide, rfl⟩ (by decide)).1
  exact hruns 0 (by decide) 0 (by decide) rfl

end Umtp
