import Umtp.PoolSizes

set_option autoImplicit false

namespace Umtp
open FiniteRun RoundUp

/-- The blocks that the requests before the one at `k` have taken, by their sizes. -/
def PoolState.taken (s : PoolState) (k : Nat) : Nat :=
  ∑ i ∈ Finset.range k, s.pool.needs (s.alloc i).size

/-- The allocation at `k` is one run of blocks in the buffer, from where `tail` has been. -/
structure PoolState.Inside (s : PoolState) (k : Nat) : Prop where
  ptr : (s.alloc k).ptr =
    (s.alloc k).tail.toNat % s.pool.blkCnt.toNat * s.pool.blkSize.toNat + memblkDescSize
  blocks : (s.alloc k).tail.toNat % s.pool.blkCnt.toNat + (s.alloc k).blocks.toNat ≤
    s.pool.blkCnt.toNat
  bytes : (s.alloc k).ptr - memblkDescSize + (s.alloc k).blocks.toNat * s.pool.blkSize.toNat ≤
    s.pool.totalSize.toNat

/-- The sizes so far bring a request to where it does not pass the end of the ring, within
4 GiB. The running total goes round with `tail`. -/
def PoolState.Straight (s : PoolState) (k : Nat) : Prop :=
  (∀ r, ¬ (s.taken k % 2 ^ 32 < r * s.pool.blkCnt.toNat ∧
    r * s.pool.blkCnt.toNat < s.taken k % 2 ^ 32 + s.pool.needs (s.alloc k).size)) ∧
  s.taken k % 2 ^ 32 % s.pool.blkCnt.toNat * s.pool.blkSize.toNat < 2 ^ 32

/-- `tail` and the allocations follow from the sizes, whatever has been freed. -/
structure PoolState.Placed (s : PoolState) : Prop where
  tail : s.pool.memblk.tail.toNat = s.taken s.made % 2 ^ 32
  tails : ∀ k < s.made, (s.alloc k).tail.toNat = s.taken k % 2 ^ 32
  blocks : ∀ k < s.made, (s.alloc k).blocks.toNat = s.pool.needs (s.alloc k).size
  ptr : ∀ k < s.made, (s.alloc k).ptr =
    (((s.alloc k).tail % s.pool.memblk.count) * s.pool.memblk.perSize).toNat + memblkDescSize

theorem MemoryPool.SameShape.needs {p p' : MemoryPool} (h : p.SameShape p') (size : UInt64) :
    p'.needs size = p.needs size := by
  simp only [MemoryPool.needs, MemoryPool.cnt, MemoryPool.extra, h.blkSize]

theorem PoolState.taken_granted {s : PoolState} {p' : MemoryPool} (h : s.pool.SameShape p')
    (size : UInt64) (ptr : Nat) {k : Nat} (hk : k ≤ s.made) :
    (s.granted size ptr p').taken k = s.taken k := by
  apply Finset.sum_congr rfl
  intro i hi
  have hne : i ≠ s.made := Nat.ne_of_lt (Nat.lt_of_lt_of_le (Finset.mem_range.mp hi) hk)
  dsimp only [PoolState.granted]
  rw [Function.update_of_ne hne, h.needs]

theorem malloc_placed {s : PoolState} (hs : s.Placed) {size : UInt64} {ptr : Nat} {p' : MemoryPool}
    (h : memoryPoolMalloc s.pool size = some (some ptr, p')) : (s.granted size ptr p').Placed := by
  have hshape := memoryPoolMalloc_sameShape h
  obtain ⟨hgrants, hne, hptr, hpool⟩ := memoryPoolMalloc_some h
  have hexact := MemoryPool.grants_exact hgrants hne
  have hnew : (s.granted size ptr p').alloc s.made =
      ⟨size, ptr, s.pool.memblk.tail, s.pool.cnt size + s.pool.extra size⟩ :=
    Function.update_self _ _ _
  have hold : ∀ k < s.made, (s.granted size ptr p').alloc k = s.alloc k :=
    fun k hk => Function.update_of_ne (Nat.ne_of_lt hk) _ _
  have hcases : ∀ k < s.made + 1, k = s.made ∨ k < s.made :=
    fun k hk => (Nat.lt_succ_iff_lt_or_eq.mp hk).symm
  have htaken : (s.granted size ptr p').taken (s.made + 1) = s.taken s.made + s.pool.needs size := by
    have hbefore : (s.granted size ptr p').taken s.made = s.taken s.made :=
      PoolState.taken_granted hshape size ptr (Nat.le_refl _)
    rw [PoolState.taken, Finset.sum_range_succ, hnew]
    exact congrArg₂ _ hbefore (hshape.needs size)
  refine ⟨?_, ?_, ?_, ?_⟩
  · show p'.memblk.tail.toNat = (s.granted size ptr p').taken (s.made + 1) % 2 ^ 32
    rw [htaken, ← hexact, hpool, UInt32.toNat_add, hs.tail, Nat.mod_add_mod]
  · intro k hk
    rcases hcases k hk with rfl | hk
    · rw [hnew, PoolState.taken_granted hshape size ptr (Nat.le_refl _)]
      exact hs.tail
    · rw [hold k hk, PoolState.taken_granted hshape size ptr (Nat.le_of_lt hk)]
      exact hs.tails k hk
  · intro k hk
    rcases hcases k hk with rfl | hk
    · rw [hnew]
      exact hexact.trans (hshape.needs size).symm
    · rw [hold k hk]
      exact (hs.blocks k hk).trans (hshape.needs _).symm
  · intro k hk
    show _ = ((_ % p'.memblk.count) * p'.memblk.perSize).toNat + _
    rw [hshape.count, hshape.perSize]
    rcases hcases k hk with rfl | hk
    · rw [hnew]
      exact hptr
    · rw [hold k hk]
      exact hs.ptr k hk

theorem poolStep_placed {s s' : PoolState} (hs : s.Placed) {c : PoolCall}
    (hstep : PoolStep s c s') : s'.Placed := by
  obtain ⟨size, rfl, rfl⟩ | ⟨size, ptr, p', rfl, hmalloc, rfl⟩ | ⟨k, rfl, -, rfl⟩ |
    ⟨k, start, rfl, rfl⟩ := poolStep_cases hstep
  · exact hs
  · exact malloc_placed hs hmalloc
  · exact ⟨hs.tail, hs.tails, hs.blocks, hs.ptr⟩
  · exact ⟨hs.tail, hs.tails, hs.blocks, hs.ptr⟩

theorem poolStep_empty {s s' : PoolState} {c : PoolCall}
    (hs : s.made = 0 ∧ memoryBlockCount s.pool.memblk = 0) (hstep : PoolStep s c s') :
    s'.made = 0 ∧ memoryBlockCount s'.pool.memblk = 0 := by
  obtain ⟨size, rfl, rfl⟩ | ⟨size, ptr, p', rfl, hmalloc, rfl⟩ | ⟨k, rfl, hk, rfl⟩ |
    ⟨k, start, rfl, rfl⟩ := poolStep_cases hstep
  · exact hs
  · exact absurd hs.2 (memoryPoolMalloc_some hmalloc).2.1
  · have hlt := hk.1
    omega
  · exact hs

theorem block_offset_iff (perSize : UInt64) (tail count : UInt32) :
    ((tail % count) * perSize.toUInt32).toNat = tail.toNat % count.toNat * perSize.toNat ↔
      tail.toNat % count.toNat * perSize.toNat < 2 ^ 32 := by
  have hmul : ((tail % count) * perSize.toUInt32).toNat =
      tail.toNat % count.toNat * perSize.toNat % 2 ^ 32 := by
    rw [UInt32.toNat_mul, UInt32.toNat_mod, UInt64.toNat_toUInt32, Nat.mul_mod_mod]
  rw [hmul]
  constructor
  · intro h
    rw [← h]
    exact Nat.mod_lt _ (by decide)
  · exact Nat.mod_eq_of_lt

section

variable {totalSize memBlkSize : UInt64} {flag : UInt32} {p : MemoryPool}
  (hp : memoryPoolCreate totalSize memBlkSize flag = some p) {calls : List PoolCall}
  {s : PoolState} (hr : Run PoolStep (PoolState.start p) calls s)

include hp hr

theorem pool_placed : s.Placed := by
  obtain ⟨-, -, -, -, -, -, hblocks⟩ := memoryPoolCreate_some hp
  refine hr.invariant PoolState.Placed (fun _ _ _ hs h => poolStep_placed hs h) ⟨?_, ?_, ?_, ?_⟩
  · simp [PoolState.start, PoolState.taken, hblocks, memoryBlockInit, memoryBlockPut]
  · exact fun k hk => absurd hk (Nat.not_lt_zero k)
  · exact fun k hk => absurd hk (Nat.not_lt_zero k)
  · exact fun k hk => absurd hk (Nat.not_lt_zero k)

theorem pool_block_shape : s.pool.memblk.count = s.pool.blkCnt ∧
    s.pool.memblk.perSize = s.pool.blkSize.toUInt32 := by
  obtain ⟨-, -, -, -, -, -, hblocks⟩ := memoryPoolCreate_some hp
  have hshape := pool_sameShape hr
  refine ⟨?_, ?_⟩
  · rw [hshape.count, hshape.blkCnt, hblocks]
    rfl
  · rw [hshape.perSize, hshape.blkSize, hblocks]
    rfl

theorem pool_blkCnt_pos (hmade : 0 < s.made) : 0 < s.pool.blkCnt.toNat := by
  obtain ⟨-, -, -, -, -, -, hblocks⟩ := memoryPoolCreate_some hp
  apply Nat.pos_of_ne_zero
  intro h0
  rw [(pool_sameShape hr).blkCnt] at h0
  have hnone : (PoolState.start p).made = 0 ∧
      memoryBlockCount (PoolState.start p).pool.memblk = 0 := by
    refine ⟨rfl, ?_⟩
    show memoryBlockCount p.memblk = 0
    rw [hblocks, memoryBlockCount_init]
    exact UInt32.toNat_inj.mp h0
  have hempty := hr.invariant (fun s => s.made = 0 ∧ memoryBlockCount s.pool.memblk = 0)
    (fun _ _ _ hs h => poolStep_empty hs h) hnone
  omega

theorem pool_blocks_le : s.pool.blkCnt.toNat * s.pool.blkSize.toNat ≤ s.pool.totalSize.toNat := by
  obtain ⟨-, -, -, hcnt, -, -, -⟩ := memoryPoolCreate_some hp
  have hshape := pool_sameShape hr
  rw [hshape.blkCnt, hshape.blkSize, hshape.totalSize, hcnt, UInt64.toNat_toUInt32,
    UInt64.toNat_div]
  exact (Nat.mul_le_mul_right _ (Nat.mod_le _ _)).trans (Nat.div_mul_le_self _ _)

theorem pool_run_inside_iff {k : Nat} (hk : k < s.made) : s.Inside k ↔ s.Straight k := by
  have hs := pool_placed hp hr
  have hpos := pool_blkCnt_pos hp hr (by omega)
  have hall := pool_blocks_le hp hr
  obtain ⟨hcount, hper⟩ := pool_block_shape hp hr
  have hptr := hs.ptr k hk
  rw [hcount, hper] at hptr
  have hoff := block_offset_iff s.pool.blkSize (s.alloc k).tail s.pool.blkCnt
  have htail := hs.tails k hk
  have hneeds := hs.blocks k hk
  have hrun := no_multiple_passed_iff (n := s.taken k % 2 ^ 32)
    (k := s.pool.needs (s.alloc k).size) hpos
  constructor
  · intro h
    refine ⟨?_, ?_⟩
    · rw [hrun, ← htail, ← hneeds]
      exact h.blocks
    · rw [← htail, ← hoff]
      have hfirst := h.ptr
      omega
  · rintro ⟨hstraight, hnear⟩
    rw [hrun, ← htail, ← hneeds] at hstraight
    rw [← htail, ← hoff] at hnear
    rw [hnear] at hptr
    refine ⟨hptr, hstraight, ?_⟩
    have hbytes := Nat.mul_le_mul_right s.pool.blkSize.toNat hstraight
    rw [Nat.add_mul] at hbytes
    omega

end

theorem pool_run_inside_second : ∃ s, Run PoolStep (PoolState.start smallPool)
    [.malloc 100, .malloc 100] s ∧ s.made = 2 ∧ s.Inside 1 := by
  have hr : Run PoolStep (PoolState.start smallPool) [.malloc 100, .malloc 100] _ :=
    (Run.nil.snoc ⟨trivial, rfl⟩).snoc ⟨trivial, rfl⟩
  refine ⟨_, hr, rfl, (pool_run_inside_iff smallPool_created hr (k := 1) (by decide)).mpr ?_⟩
  refine ⟨?_, by decide⟩
  rw [no_multiple_passed_iff (by decide)]
  decide

/-- After one block has been in use, two are handed out from the second of two on. -/
theorem pool_run_over_end : ∃ s, Run PoolStep (PoolState.start smallPool)
    [.malloc 100, .free 0, .malloc 600] s ∧ s.Live 1 ∧ (s.alloc 1).ptr = 512 + 16 ∧
      s.pool.totalSize = 1024 ∧ 16 + (s.alloc 1).size.toNat = 616 ∧ ¬ s.Inside 1 := by
  have hr : Run PoolStep (PoolState.start smallPool) [.malloc 100, .free 0, .malloc 600] _ :=
    ((Run.nil.snoc ⟨trivial, rfl⟩).snoc ⟨⟨by decide, rfl⟩, rfl⟩).snoc ⟨trivial, rfl⟩
  refine ⟨_, hr, ⟨by decide, rfl⟩, rfl, rfl, rfl, ?_⟩
  intro h
  exact absurd h.blocks (by decide)

end Umtp
