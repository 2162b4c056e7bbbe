import Umtp.Machine
import Umtp.PoolSizes

/-! The counters of a pool against the allocations that are live, and what malloc says when
the blocks run out. -/

set_option autoImplicit false

namespace Umtp
open FiniteRun

/-- `memory_pool_malloc`, with a pool that may be NULL, and `errno`. -/
def memoryPoolMallocErrno (p : Option MemoryPool) (size : UInt64) (errno : Int) :
    Option (Option Nat × Option MemoryPool × Int) :=
  match p with
  | none => some (none, none, einval)
  | some p =>
    match memoryPoolMalloc p size with
    | none => none
    | some (none, p') => some (none, some p', enomem)
    | some (some ptr, p') => some (some ptr, some p', errno)

/-- A request is let through when there are blocks for it. Else `errno` says so, and the pool
is what it was. -/
def MemoryPool.Reports (p : MemoryPool) (size : UInt64) : Prop :=
  ∀ errno, ∃ r p' e, memoryPoolMallocErrno (some p) size errno = some (r, some p', e) ∧
    (r.isSome = true ↔ p.needs size ≤ (memoryBlockCount p.memblk).toNat) ∧
    (r = none → e = enomem ∧ p' = p)

/-- There is a block left, or the check does not take one from none. -/
def MemoryPool.Checks (p : MemoryPool) (size : UInt64) : Prop :=
  memoryBlockCount p.memblk ≠ 0 ∨ p.extra size = 0 ∧ p.cnt size ≠ 0

theorem MemoryPool.grants_iff {p : MemoryPool} (size : UInt64)
    (hne : memoryBlockCount p.memblk ≠ 0) :
    p.grants size = true ↔ p.needs size ≤ (memoryBlockCount p.memblk).toNat := by
  have hextra := p.extra_le size
  have hlt := (memoryBlockCount p.memblk).toNat_lt
  have hpos : (memoryBlockCount p.memblk).toNat ≠ 0 := fun h0 => hne (UInt32.toNat_inj.mp h0)
  rw [grants, decide_eq_true_iff, UInt32.le_iff_toNat_le, UInt32.toNat_sub, needs]
  omega

/-- On an empty pool it lets through what makes the ring give no block. -/
theorem MemoryPool.grants_empty {p : MemoryPool} (size : UInt64)
    (hempty : memoryBlockCount p.memblk = 0) :
    p.grants size = true ↔ ¬ (p.extra size = 0 ∧ p.cnt size ≠ 0) := by
  have hcnt := (p.cnt size).toNat_lt
  have hzero : ∀ x : UInt32, x = 0 ↔ x.toNat = 0 := fun x => UInt32.toNat_inj.symm
  rw [grants, decide_eq_true_iff, UInt32.le_iff_toNat_le, UInt32.toNat_sub, hempty, hzero, ne_eq,
    hzero, p.extra_toNat]
  split
  · simp
  · simp
    omega

theorem memoryPoolMalloc_empty {p : MemoryPool} {size : UInt64}
    (hempty : memoryBlockCount p.memblk = 0) (hgrants : p.grants size = true) :
    memoryPoolMalloc p size = none := by
  simp [memoryPoolMalloc, hgrants, memoryBlockGet, memoryBlockEmpty, hempty]

theorem memoryPoolMalloc_refused {p : MemoryPool} {size : UInt64} (h : p.grants size = false) :
    memoryPoolMalloc p size = some (none, p) := by
  simp [memoryPoolMalloc, h]

theorem memoryPoolMalloc_granted {p : MemoryPool} {size : UInt64} (h : p.grants size = true)
    (hne : memoryBlockCount p.memblk ≠ 0) :
    ∃ ptr p', memoryPoolMalloc p size = some (some ptr, p') := by
  simp only [memoryPoolMalloc, h, if_true, memoryBlockGet_some hne]
  exact ⟨_, _, rfl⟩

theorem MemoryPool.reports_iff (p : MemoryPool) (size : UInt64) :
    p.Reports size ↔ p.Checks size := by
  by_cases hempty : memoryBlockCount p.memblk = 0
  · cases hgrants : p.grants size with
    | true =>
      have hnull := (MemoryPool.grants_empty size hempty).mp hgrants
      constructor
      · intro h
        obtain ⟨r, p', e, heq, -⟩ := h 0
        simp [memoryPoolMallocErrno, memoryPoolMalloc_empty hempty hgrants] at heq
      · rintro (hne | hwhole)
        · exact absurd hempty hne
        · exact absurd hwhole hnull
    | false =>
      have hwhole := Decidable.not_not.mp (mt (MemoryPool.grants_empty size hempty).mpr
        (by simp [hgrants]))
      have hcnt : (p.cnt size).toNat ≠ 0 := fun h0 => hwhole.2 (UInt32.toNat_inj.mp h0)
      refine ⟨fun _ => .inr hwhole, fun _ errno => ⟨none, p, enomem, ?_, ?_, ?_⟩⟩
      · simp [memoryPoolMallocErrno, memoryPoolMalloc_refused hgrants]
      · simp [needs, hempty]
        omega
      · simp
  · refine ⟨fun _ => .inl hempty, fun _ errno => ?_⟩
    have hiff := MemoryPool.grants_iff size hempty
    cases hgrants : p.grants size with
    | true =>
      obtain ⟨ptr, p', hmalloc⟩ := memoryPoolMalloc_granted hgrants hempty
      exact ⟨some ptr, p', errno, by simp [memoryPoolMallocErrno, hmalloc],
        by simp [hiff.mp hgrants], by simp⟩
    | false =>
      refine ⟨none, p, enomem, ?_, ?_, ?_⟩
      · simp [memoryPoolMallocErrno, memoryPoolMalloc_refused hgrants]
      · rw [← hiff, hgrants]
        simp
      · simp

def PoolState.liveCount (s : PoolState) : Nat :=
  ∑ i ∈ Finset.range s.made, if s.live i then 1 else 0

theorem PoolState.liveCount_update (s : PoolState) {pool : MemoryPool} {alloc : Nat → Allocation} :
    PoolState.liveCount ⟨pool, s.made + 1, alloc, Function.update s.live s.made true⟩ =
      s.liveCount + 1 :=
  sum_live_made s.made s.live (f := fun _ => 1) (g := fun _ => 1) fun _ _ => rfl

theorem PoolState.liveCount_free (s : PoolState) {k : Nat} (hk : s.Live k) (pool : MemoryPool) :
    PoolState.liveCount ⟨pool, s.made, s.alloc, Function.update s.live k false⟩ + 1 =
      s.liveCount :=
  sum_live_free hk.1 hk.2 fun _ => 1

structure PoolState.Accounted (s : PoolState) : Prop where
  free : (memoryBlockCount s.pool.memblk).toNat + s.used = s.pool.blkCnt.toNat
  blkUsed : s.pool.blkUsed.toNat = s.used
  blkUsed_le : s.pool.blkUsed.toNat ≤ s.pool.blkCnt.toNat
  refCount : s.pool.refCount.toNat = s.liveCount

def PoolCall.HeaderKept (s : PoolState) : PoolCall → Prop
  | .free k => s.pool.start.read32 ((s.alloc k).ptr - memblkDescSize) = (s.alloc k).blocks
  | _ => True

/-- What the calls keep: `ref_count` goes round after 2^32 allocations. -/
structure PoolState.Tally (s : PoolState) : Prop where
  free : (memoryBlockCount s.pool.memblk).toNat + s.used = s.pool.blkCnt.toNat
  blkUsed : s.pool.blkUsed.toNat = s.used
  refCount : s.pool.refCount.toNat = s.liveCount % 2 ^ 32

theorem PoolState.Tally.accounted_iff {s : PoolState} (hs : s.Tally) :
    s.Accounted ↔ s.liveCount < 2 ^ 32 := by
  have hfree := hs.free
  have hused := hs.blkUsed
  have hcount := hs.refCount
  constructor
  · intro h
    have hlt := s.pool.refCount.toNat_lt
    rwa [h.refCount] at hlt
  · intro hlt
    exact ⟨hfree, hused, by omega, by rw [hcount, Nat.mod_eq_of_lt hlt]⟩

theorem memoryPoolCreate_tally {totalSize memBlkSize : UInt64} {flag : UInt32} {p : MemoryPool}
    (h : memoryPoolCreate totalSize memBlkSize flag = some p) : (PoolState.start p).Tally := by
  obtain ⟨-, -, -, -, hused, hrefs, hblocks⟩ := memoryPoolCreate_some h
  refine ⟨?_, ?_, ?_⟩
  · simp [PoolState.start, PoolState.used, hblocks, memoryBlockCount_init]
  · simp [PoolState.start, PoolState.used, hused]
  · simp [PoolState.start, PoolState.liveCount, hrefs]

theorem malloc_tally {s : PoolState} (hs : s.Tally) {size : UInt64} {ptr : Nat} {p' : MemoryPool}
    (h : memoryPoolMalloc s.pool size = some (some ptr, p')) : (s.granted size ptr p').Tally := by
  obtain ⟨hgrants, hne, -, rfl⟩ := memoryPoolMalloc_some h
  have hle := MemoryPool.grants_toNat hgrants hne
  have hget := memoryBlockCount_get hle
  have hlt := s.pool.blkCnt.toNat_lt
  have hfree := hs.free
  have hblk := hs.blkUsed
  have hrefs := hs.refCount
  refine ⟨?_, ?_, ?_⟩
  · rw [PoolState.granted, s.used_update]
    dsimp only
    omega
  · rw [PoolState.granted, s.used_update]
    dsimp only
    rw [UInt32.toNat_add]
    omega
  · rw [PoolState.granted, s.liveCount_update]
    dsimp only
    rw [UInt32.toNat_add, hrefs]
    simp

theorem free_tally {s : PoolState} (hs : s.Tally) {k : Nat} (hk : s.Live k)
    (hheader : (PoolCall.free k).HeaderKept s) :
    PoolState.Tally ⟨memoryPoolFree s.pool (s.alloc k).ptr, s.made, s.alloc,
      Function.update s.live k false⟩ := by
  have hused := s.used_free hk (memoryPoolFree s.pool (s.alloc k).ptr)
  have hlive := s.liveCount_free hk (memoryPoolFree s.pool (s.alloc k).ptr)
  have hlt := s.pool.blkCnt.toNat_lt
  have hfree := hs.free
  have hblk := hs.blkUsed
  have hrefs := hs.refCount
  have hput := memoryBlockCount_put (show (memoryBlockCount s.pool.memblk).toNat +
    (s.alloc k).blocks.toNat < 2 ^ 32 by omega)
  have hread : s.pool.start.read32 ((s.alloc k).ptr - memblkDescSize) = (s.alloc k).blocks :=
    hheader
  refine ⟨?_, ?_, ?_⟩
  · simp only [memoryPoolFree, hread] at hused ⊢
    rw [hput]
    omega
  · simp only [memoryPoolFree, hread] at hused ⊢
    rw [UInt32.toNat_sub]
    omega
  · rw [← hlive] at hrefs
    simp only [memoryPoolFree] at hrefs ⊢
    rw [UInt32.toNat_sub, hrefs, UInt32.toNat_one]
    omega

theorem poolStep_tally {s s' : PoolState} (hs : s.Tally) {c : PoolCall} (hstep : PoolStep s c s')
    (hheader : c.HeaderKept s) : s'.Tally := by
  obtain ⟨size, rfl, rfl⟩ | ⟨size, ptr, p', rfl, hmalloc, rfl⟩ | ⟨k, rfl, hk, rfl⟩ |
    ⟨k, start, rfl, rfl⟩ := poolStep_cases hstep
  · exact hs
  · exact malloc_tally hs hmalloc
  · exact free_tally hs hk hheader
  · exact ⟨hs.free, hs.blkUsed, hs.refCount⟩

theorem pool_accounting_iff {totalSize memBlkSize : UInt64} {flag : UInt32} {p : MemoryPool}
    (hp : memoryPoolCreate totalSize memBlkSize flag = some p) {calls : List PoolCall}
    {s : PoolState}
    (hr : Run (fun s c s' => PoolStep s c s' ∧ c.HeaderKept s) (PoolState.start p) calls s)
    (size : UInt64) :
    (s.Accounted ∧ s.pool.Reports size) ↔ (s.liveCount < 2 ^ 32 ∧ s.pool.Checks size) := by
  have hs : s.Tally := hr.invariant PoolState.Tally (fun _ _ _ hs h => poolStep_tally hs h.1 h.2)
    (memoryPoolCreate_tally hp)
  rw [hs.accounted_iff, MemoryPool.reports_iff]

theorem pool_accounting_half : ∃ s, Run (fun s c s' => PoolStep s c s' ∧ c.HeaderKept s)
    (PoolState.start smallPool) [.malloc 100] s ∧ s.pool.blkUsed = 1 ∧
      s.Accounted ∧ s.pool.Reports 100 := by
  have hr : Run (fun s c s' => PoolStep s c s' ∧ c.HeaderKept s) (PoolState.start smallPool)
      [.malloc 100] _ := Run.nil.snoc ⟨⟨trivial, rfl⟩, trivial⟩
  refine ⟨_, hr, rfl, (pool_accounting_iff smallPool_created hr 100).mpr ⟨by decide, .inl ?_⟩⟩
  decide

/-- With both blocks in use, a request for two is written through NULL. -/
theorem exhausted_pool_faults : ∃ s, Run (fun s c s' => PoolStep s c s' ∧ c.HeaderKept s)
    (PoolState.start smallPool) [.malloc 600] s ∧ memoryBlockCount s.pool.memblk = 0 ∧
      s.pool.needs 10 = 2 ∧ memoryPoolMallocErrno (some s.pool) 10 0 = none ∧
      ¬ s.pool.Reports 10 := by
  have hr : Run (fun s c s' => PoolStep s c s' ∧ c.HeaderKept s) (PoolState.start smallPool)
      [.malloc 600] _ := Run.nil.snoc ⟨⟨trivial, rfl⟩, trivial⟩
  refine ⟨_, hr, rfl, rfl, rfl, ?_⟩
  intro h
  obtain ⟨r, p', e, heq, -⟩ := h 0
  cases heq

end Umtp
