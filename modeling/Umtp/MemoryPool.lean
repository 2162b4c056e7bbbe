import Mathlib.Data.UInt
import Mathlib.Logic.Function.Basic
import Mathlib.Tactic.Common

/-! `memory.c`: a pool of equal blocks, handed out at `tail` and given back at `head`. -/

set_option autoImplicit false

namespace Umtp

/-- Bytes by their offset from the start of the pool. -/
abbrev PoolMemory := Nat → UInt8

def PoolMemory.read32 (m : PoolMemory) (off : Nat) : UInt32 :=
  UInt32.ofNat ((m off).toNat + 256 * ((m (off + 1)).toNat +
    256 * ((m (off + 2)).toNat + 256 * (m (off + 3)).toNat)))

def PoolMemory.write32 (m : PoolMemory) (off : Nat) (x : UInt32) : PoolMemory := fun i =>
  if i = off then UInt8.ofNat x.toNat
  else if i = off + 1 then UInt8.ofNat (x.toNat / 256)
  else if i = off + 2 then UInt8.ofNat (x.toNat / 256 / 256)
  else if i = off + 3 then UInt8.ofNat (x.toNat / 256 / 256 / 256)
  else m i

theorem PoolMemory.read32_write32 (m : PoolMemory) (off : Nat) (x : UInt32) :
    (m.write32 off x).read32 off = x := by
  have hx := x.toNat_lt
  apply UInt32.toNat_inj.mp
  simp [read32, write32]
  omega

theorem PoolMemory.read32_congr {m m' : PoolMemory} {off : Nat}
    (h : ∀ i, off ≤ i → i < off + 4 → m' i = m i) : m'.read32 off = m.read32 off := by
  simp only [read32, h off (by omega) (by omega), h (off + 1) (by omega) (by omega),
    h (off + 2) (by omega) (by omega), h (off + 3) (by omega) (by omega)]

theorem PoolMemory.write32_other (m : PoolMemory) {off i : Nat} (x : UInt32)
    (h : i < off ∨ off + 4 ≤ i) : m.write32 off x i = m i := by
  simp only [write32]
  rw [if_neg (by omega), if_neg (by omega), if_neg (by omega), if_neg (by omega)]

structure MemoryBlocks where
  perSize : UInt32
  count : UInt32
  head : UInt32
  tail : UInt32

/-- `struct memory_pool`, with the bytes at its start. -/
structure MemoryPool where
  totalSize : UInt64
  blkSize : UInt64
  blkCnt : UInt32
  blkUsed : UInt32
  refCount : UInt32
  flag : UInt32
  memblk : MemoryBlocks
  start : PoolMemory

abbrev memblkDescSize : Nat := 16

def memoryBlockCount (m : MemoryBlocks) : UInt32 := m.head - m.tail

def memoryBlockEmpty (m : MemoryBlocks) : Bool := memoryBlockCount m == 0

/-- The offset of the block at `tail`, or NULL. -/
def memoryBlockGet (m : MemoryBlocks) (cnt : UInt32) : Option Nat × MemoryBlocks :=
  if memoryBlockEmpty m then (none, m)
  else (some ((m.tail % m.count) * m.perSize).toNat, { m with tail := m.tail + cnt })

def memoryBlockPut (m : MemoryBlocks) (cnt : UInt32) : MemoryBlocks :=
  { m with head := m.head + cnt }

def memoryBlockInit (perSize cnt : UInt32) : MemoryBlocks := memoryBlockPut ⟨perSize, cnt, 0, 0⟩ cnt

def align (size align : UInt64) : UInt64 :=
  if size ≤ align then align
  else if size % align ≠ 0 then size + (align - size % align)
  else size

/-- The pool when there is memory for it, and no size is divided by 0. -/
def memoryPoolCreate (totalSize memBlkSize : UInt64) (flag : UInt32) : Option MemoryPool :=
  let blkSize := align memBlkSize memblkDescSize.toUInt64
  if blkSize = 0 ∨ memBlkSize = 0 ∧ totalSize ≠ 0 then none
  else
    let total := align totalSize memBlkSize
    let blkCnt := (total / blkSize).toUInt32
    some ⟨total, blkSize, blkCnt, 0, 0, flag, memoryBlockInit blkSize.toUInt32 blkCnt, fun _ => 0⟩

/-- One more block, unless the last is used by more than the size of a header. -/
def MemoryPool.extra (p : MemoryPool) (size : UInt64) : UInt32 :=
  if size % p.blkSize > memblkDescSize.toUInt64 then 0 else 1

/-- `cnt`, the blocks that the size is rounded up to. -/
def MemoryPool.cnt (p : MemoryPool) (size : UInt64) : UInt32 :=
  (align size p.blkSize / p.blkSize).toUInt32

def MemoryPool.grants (p : MemoryPool) (size : UInt64) : Bool :=
  p.cnt size ≤ memoryBlockCount p.memblk - p.extra size

/-- The offset of the payload, or NULL. The call does not come back from writing the header
of a block that `memory_block_get` has not found. -/
def memoryPoolMalloc (p : MemoryPool) (size : UInt64) : Option (Option Nat × MemoryPool) :=
  if p.grants size then
    match memoryBlockGet p.memblk (p.cnt size + p.extra size) with
    | (none, _) => none
    | (some pref, memblk) => some (some (pref + memblkDescSize), { p with
        refCount := p.refCount + 1
        blkUsed := p.blkUsed + (p.cnt size + p.extra size)
        memblk
        start := p.start.write32 pref (p.cnt size + p.extra size) })
  else some (none, p)

def memoryPoolFree (p : MemoryPool) (ptr : Nat) : MemoryPool :=
  let blkCnt := p.start.read32 (ptr - memblkDescSize)
  { p with
    memblk := memoryBlockPut p.memblk blkCnt
    blkUsed := p.blkUsed - blkCnt
    refCount := p.refCount - 1 }

theorem memoryBlockGet_some {m : MemoryBlocks} (h : memoryBlockCount m ≠ 0) (cnt : UInt32) :
    memoryBlockGet m cnt =
      (some ((m.tail % m.count) * m.perSize).toNat, { m with tail := m.tail + cnt }) := by
  simp [memoryBlockGet, memoryBlockEmpty, h]

theorem memoryBlockCount_toNat (m : MemoryBlocks) :
    (memoryBlockCount m).toNat = (2 ^ 32 - m.tail.toNat + m.head.toNat) % 2 ^ 32 :=
  UInt32.toNat_sub _ _

theorem memoryBlockCount_get {m : MemoryBlocks} {cnt : UInt32}
    (h : cnt.toNat ≤ (memoryBlockCount m).toNat) :
    (memoryBlockCount { m with tail := m.tail + cnt }).toNat =
      (memoryBlockCount m).toNat - cnt.toNat := by
  have hhead := m.head.toNat_lt
  have htail := m.tail.toNat_lt
  rw [memoryBlockCount_toNat] at h
  rw [memoryBlockCount_toNat, memoryBlockCount_toNat, UInt32.toNat_add]
  dsimp only
  omega

theorem memoryBlockCount_put {m : MemoryBlocks} {cnt : UInt32}
    (h : (memoryBlockCount m).toNat + cnt.toNat < 2 ^ 32) :
    (memoryBlockCount (memoryBlockPut m cnt)).toNat =
      (memoryBlockCount m).toNat + cnt.toNat := by
  have hhead := m.head.toNat_lt
  have htail := m.tail.toNat_lt
  rw [memoryBlockCount_toNat] at h
  rw [memoryBlockCount_toNat, memoryBlockCount_toNat, memoryBlockPut, UInt32.toNat_add]
  dsimp only
  omega

theorem MemoryPool.extra_le (p : MemoryPool) (size : UInt64) : (p.extra size).toNat ≤ 1 := by
  unfold extra
  split <;> decide

/-- While the pool is not empty, the check is what it should be: the sum does not wrap. -/
theorem MemoryPool.grants_sum {p : MemoryPool} {size : UInt64} (h : p.grants size = true)
    (hne : memoryBlockCount p.memblk ≠ 0) :
    (p.cnt size + p.extra size).toNat = (p.cnt size).toNat + (p.extra size).toNat ∧
      (p.cnt size).toNat + (p.extra size).toNat ≤ (memoryBlockCount p.memblk).toNat := by
  have hextra := p.extra_le size
  have hlt := (memoryBlockCount p.memblk).toNat_lt
  have hpos : (memoryBlockCount p.memblk).toNat ≠ 0 := fun h0 => hne (UInt32.toNat_inj.mp h0)
  have hle := UInt32.le_iff_toNat_le.mp (of_decide_eq_true h)
  rw [UInt32.toNat_sub] at hle
  rw [UInt32.toNat_add]
  omega

theorem MemoryPool.grants_toNat {p : MemoryPool} {size : UInt64} (h : p.grants size = true)
    (hne : memoryBlockCount p.memblk ≠ 0) :
    (p.cnt size + p.extra size).toNat ≤ (memoryBlockCount p.memblk).toNat := by
  obtain ⟨hsum, hle⟩ := MemoryPool.grants_sum h hne
  rwa [hsum]

end Umtp
