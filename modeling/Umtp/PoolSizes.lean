import Umtp.Kit.RoundUp
import Umtp.PoolRuns

set_option autoImplicit false

namespace Umtp
open FiniteRun RoundUp

/-- `align` rounds up to whole pieces, modulo the range of `size_t`. -/
theorem align_toNat (size : UInt64) {a : UInt64} (ha : a ≠ 0) :
    (align size a).toNat = roundUp size.toNat a.toNat % 2 ^ 64 := by
  have hpos : 0 < a.toNat := Nat.pos_of_ne_zero fun h => ha (UInt64.toNat_inj.mp h)
  have halt := a.toNat_lt
  unfold align
  split
  case isTrue hle =>
    rw [roundUp_of_le hpos (UInt64.le_iff_toNat_le.mp hle), Nat.mod_eq_of_lt halt]
  case isFalse hgt =>
    have hlt : a.toNat < size.toNat := UInt64.lt_iff_toNat_lt.mp (UInt64.not_le.mp hgt)
    have hmod := Nat.mod_lt size.toNat hpos
    split
    case isTrue hne =>
      have hne' : size.toNat % a.toNat ≠ 0 := by
        intro h
        rw [← UInt64.toNat_mod] at h
        exact hne (UInt64.toNat_inj.mp h)
      rw [roundUp_of_mod hpos hne', UInt64.toNat_add, UInt64.toNat_sub, UInt64.toNat_mod]
      omega
    case isFalse heq =>
      have heq' : size.toNat % a.toNat = 0 := by
        rw [← UInt64.toNat_mod]
        exact congrArg UInt64.toNat (Decidable.not_not.mp heq)
      rw [roundUp_of_dvd hpos (by omega) (Nat.dvd_of_mod_eq_zero heq')]
      exact (Nat.mod_eq_of_lt size.toNat_lt).symm

structure MemoryPool.WellFormed (p : MemoryPool) (totalSize memBlkSize : UInt64) : Prop where
  aligned : memblkDescSize ∣ p.blkSize.toNat
  block : memBlkSize.toNat ≤ p.blkSize.toNat
  total : totalSize.toNat ≤ p.totalSize.toNat
  one : 1 ≤ p.blkCnt.toNat
  inside : p.blkCnt.toNat * p.blkSize.toNat ≤ p.totalSize.toNat
  free : memoryBlockCount p.memblk = p.blkCnt

structure MemoryPool.Exact (p : MemoryPool) (totalSize memBlkSize : UInt64) : Prop where
  block : p.blkSize.toNat = roundUp memBlkSize.toNat memblkDescSize
  total : p.totalSize.toNat = roundUp totalSize.toNat memBlkSize.toNat
  count : p.blkCnt.toNat = roundUp totalSize.toNat memBlkSize.toNat /
    roundUp memBlkSize.toNat memblkDescSize

/-- Both sizes can be rounded up within `size_t`, the total to one block or more, but not to
more than 32 bits count. -/
structure CreatesWell (totalSize memBlkSize : Nat) : Prop where
  pos : 0 < memBlkSize
  block : memBlkSize ≤ 2 ^ 64 - memblkDescSize
  total : roundUp totalSize memBlkSize < 2 ^ 64
  one : roundUp memBlkSize memblkDescSize ≤ roundUp totalSize memBlkSize
  few : roundUp totalSize memBlkSize < 2 ^ 32 * roundUp memBlkSize memblkDescSize

theorem align_memblkDescSize (size : UInt64) :
    (align size memblkDescSize.toUInt64).toNat = roundUp size.toNat memblkDescSize % 2 ^ 64 :=
  align_toNat size (by decide)

theorem memoryPoolCreate_some {totalSize memBlkSize : UInt64} {flag : UInt32} {p : MemoryPool}
    (h : memoryPoolCreate totalSize memBlkSize flag = some p) :
    p.blkSize ≠ 0 ∧ p.blkSize = align memBlkSize memblkDescSize.toUInt64 ∧
      p.totalSize = align totalSize memBlkSize ∧ p.blkCnt = (p.totalSize / p.blkSize).toUInt32 ∧
      p.blkUsed = 0 ∧ p.refCount = 0 ∧
      p.memblk = memoryBlockInit p.blkSize.toUInt32 p.blkCnt := by
  unfold memoryPoolCreate at h
  dsimp only at h
  split at h
  case isTrue => cases h
  case isFalse hzero =>
    cases h
    exact ⟨fun h0 => hzero (.inl h0), rfl, rfl, rfl, rfl, rfl, rfl⟩

theorem memoryBlockCount_init (perSize cnt : UInt32) :
    memoryBlockCount (memoryBlockInit perSize cnt) = cnt := by
  simp [memoryBlockCount, memoryBlockInit, memoryBlockPut]

theorem roundUp_memblkDescSize (n : Nat) :
    roundUp n memblkDescSize < 2 ^ 64 ↔ n ≤ 2 ^ 64 - memblkDescSize := by
  have hdesc : memblkDescSize = 16 := rfl
  have hlast : roundUp (2 ^ 64 - memblkDescSize) memblkDescSize = 2 ^ 64 - memblkDescSize :=
    roundUp_of_dvd (by decide) (by decide) (by decide)
  constructor
  · intro h
    obtain ⟨k, hk⟩ : 16 ∣ roundUp n memblkDescSize := roundUp_dvd
    have hle : n ≤ roundUp n memblkDescSize := le_roundUp (by decide)
    omega
  · intro h
    have hmono : roundUp n memblkDescSize ≤ _ := roundUp_mono (by decide) h
    omega

theorem memoryPoolCreate_wellFormed {totalSize memBlkSize : UInt64} (flag : UInt32)
    (h : CreatesWell totalSize.toNat memBlkSize.toNat) :
    ∃ p, memoryPoolCreate totalSize memBlkSize flag = some p ∧
      p.WellFormed totalSize memBlkSize ∧ p.Exact totalSize memBlkSize := by
  obtain ⟨hpos, hblock, htotal, hone, hfew⟩ := h
  have hmem : memBlkSize ≠ 0 := by
    rintro rfl
    exact Nat.lt_irrefl 0 hpos
  have hdesc : 0 < memblkDescSize := by decide
  have hlt := (roundUp_memblkDescSize memBlkSize.toNat).mpr hblock
  have halign := (align_memblkDescSize memBlkSize).trans (Nat.mod_eq_of_lt hlt)
  have htot := (align_toNat totalSize hmem).trans (Nat.mod_eq_of_lt htotal)
  have hup := le_roundUp (n := memBlkSize.toNat) hdesc
  have hblk : align memBlkSize memblkDescSize.toUInt64 ≠ 0 := by
    intro h0
    rw [h0] at halign
    exact absurd halign (by rw [UInt64.toNat_zero]; omega)
  have hcnt : (align totalSize memBlkSize / align memBlkSize memblkDescSize.toUInt64).toUInt32.toNat
      = roundUp totalSize.toNat memBlkSize.toNat / roundUp memBlkSize.toNat memblkDescSize := by
    rw [UInt64.toNat_toUInt32, UInt64.toNat_div, htot, halign]
    exact Nat.mod_eq_of_lt ((Nat.div_lt_iff_lt_mul (by omega)).mpr hfew)
  refine ⟨_, if_neg (by simp [hblk, hmem]), ⟨?_, ?_, ?_, ?_, ?_, ?_⟩, halign, htot, hcnt⟩
  · rw [halign]
    exact roundUp_dvd
  · rw [halign]
    exact hup
  · rw [htot]
    exact le_roundUp hpos
  · rw [hcnt]
    exact (Nat.one_le_div_iff (by omega)).mpr hone
  · rw [hcnt, halign, htot]
    exact Nat.div_mul_le_self _ _
  · exact memoryBlockCount_init _ _

theorem memory_pool_create_iff (totalSize memBlkSize : UInt64) (flag : UInt32) :
    (∃ p, memoryPoolCreate totalSize memBlkSize flag = some p ∧
      p.WellFormed totalSize memBlkSize ∧ p.Exact totalSize memBlkSize) ↔
    CreatesWell totalSize.toNat memBlkSize.toNat := by
  constructor
  · rintro ⟨p, hp, hwell, hexact⟩
    have hone := hwell.one
    rw [hexact.count] at hone
    have hup : 0 < roundUp memBlkSize.toNat memblkDescSize := by
      apply Nat.pos_of_ne_zero
      intro h0
      rw [h0, Nat.div_zero] at hone
      exact absurd hone (by decide)
    refine ⟨?_, ?_, ?_, ?_, ?_⟩
    · -- no size is rounded up to pieces of 0 bytes
      apply Nat.pos_of_ne_zero
      intro h0
      rw [h0, roundUp, Nat.mul_zero, Nat.zero_div] at hone
      exact absurd hone (by decide)
    · rw [← roundUp_memblkDescSize, ← hexact.block]
      exact p.blkSize.toNat_lt
    · rw [← hexact.total]
      exact p.totalSize.toNat_lt
    · exact (Nat.one_le_div_iff hup).mp hone
    · rw [← Nat.div_lt_iff_lt_mul hup, ← hexact.count]
      exact p.blkCnt.toNat_lt
  · exact memoryPoolCreate_wellFormed flag

/-- A total of one `mem_blk_size` that is not a multiple of 16 is less than a block. -/
theorem memory_pool_create_no_block :
    ¬ (∀ (totalSize memBlkSize : UInt64) (flag : UInt32),
      ∃ p, memoryPoolCreate totalSize memBlkSize flag = some p ∧
        p.WellFormed totalSize memBlkSize ∧ p.Exact totalSize memBlkSize) ∧
    ∃ p, memoryPoolCreate 8 8 0 = some p ∧ p.blkSize = 16 ∧ p.totalSize = 8 ∧ p.blkCnt = 0 := by
  refine ⟨?_, ⟨_, rfl, rfl, rfl, rfl⟩⟩
  intro h
  obtain ⟨p, hp, hwell, -⟩ := h 8 8 0
  cases hp
  exact absurd hwell.one (by decide)

def MemoryPool.needs (p : MemoryPool) (size : UInt64) : Nat :=
  (p.cnt size).toNat + (p.extra size).toNat

/-- The blocks that the ring has given up are those that the header counts, and they hold
the header and the request. -/
structure MemoryPool.Reserves (p p' : MemoryPool) (size : UInt64) (ptr : Nat) : Prop where
  header : p'.start.read32 (ptr - memblkDescSize) = p.cnt size + p.extra size
  ring : p'.memblk.tail = p.memblk.tail + (p.cnt size + p.extra size)
  exact : (p.cnt size + p.extra size).toNat = p.needs size
  room : memblkDescSize + size.toNat ≤ p.needs size * p.blkSize.toNat

/-- The size, rounded up to blocks, is neither more than `size_t` nor more than 32 bits of
them, and a header fits after it or gets a block of its own. -/
structure MemoryPool.HasRoom (p : MemoryPool) (size : UInt64) : Prop where
  total : roundUp size.toNat p.blkSize.toNat < 2 ^ 64
  few : pieces size.toNat p.blkSize.toNat < 2 ^ 32
  last : size.toNat % p.blkSize.toNat ≤ memblkDescSize ∨
    size.toNat % p.blkSize.toNat + memblkDescSize ≤ p.blkSize.toNat

theorem MemoryPool.extra_toNat (p : MemoryPool) (size : UInt64) : (p.extra size).toNat =
    if memblkDescSize < size.toNat % p.blkSize.toNat then 0 else 1 := by
  have hmod : size % p.blkSize > memblkDescSize.toUInt64 ↔
      memblkDescSize < size.toNat % p.blkSize.toNat := by
    rw [gt_iff_lt, UInt64.lt_iff_toNat_lt, UInt64.toNat_mod]
    exact Iff.rfl
  simp only [extra, hmod]
  split <;> rfl

theorem MemoryPool.cnt_toNat {p : MemoryPool} (hp : p.blkSize ≠ 0) (size : UInt64) :
    (p.cnt size).toNat =
      roundUp size.toNat p.blkSize.toNat % 2 ^ 64 / p.blkSize.toNat % 2 ^ 32 := by
  rw [cnt, UInt64.toNat_toUInt32, UInt64.toNat_div, align_toNat size hp]

theorem memoryPoolMalloc_some {p p' : MemoryPool} {size : UInt64} {ptr : Nat}
    (h : memoryPoolMalloc p size = some (some ptr, p')) :
    p.grants size = true ∧ memoryBlockCount p.memblk ≠ 0 ∧
      ptr = ((p.memblk.tail % p.memblk.count) * p.memblk.perSize).toNat + memblkDescSize ∧
      p' = { p with
        refCount := p.refCount + 1
        blkUsed := p.blkUsed + (p.cnt size + p.extra size)
        memblk := { p.memblk with tail := p.memblk.tail + (p.cnt size + p.extra size) }
        start := p.start.write32 (ptr - memblkDescSize) (p.cnt size + p.extra size) } := by
  unfold memoryPoolMalloc at h
  split at h
  case isFalse => cases h
  case isTrue hgrants =>
    by_cases hne : memoryBlockCount p.memblk = 0
    · simp [memoryBlockGet, memoryBlockEmpty, hne] at h
    · rw [memoryBlockGet_some hne] at h
      cases h
      exact ⟨hgrants, hne, rfl, by rw [Nat.add_sub_cancel]⟩

theorem memoryPoolMalloc_null {p p' : MemoryPool} {size : UInt64}
    (h : memoryPoolMalloc p size = some (none, p')) : p' = p := by
  unfold memoryPoolMalloc at h
  split at h
  case isTrue => split at h <;> cases h
  case isFalse =>
    cases h
    rfl

theorem MemoryPool.grants_exact {p : MemoryPool} {size : UInt64} (h : p.grants size = true)
    (hne : memoryBlockCount p.memblk ≠ 0) :
    (p.cnt size + p.extra size).toNat = p.needs size :=
  (MemoryPool.grants_sum h hne).1

section

variable {p : MemoryPool} {size : UInt64} (hdesc : memblkDescSize ≤ p.blkSize.toNat)
include hdesc

theorem MemoryPool.blkSize_ne : p.blkSize ≠ 0 := by
  intro h0
  rw [h0] at hdesc
  exact absurd hdesc (by decide)

theorem MemoryPool.cnt_of_lt (h : roundUp size.toNat p.blkSize.toNat < 2 ^ 64) :
    (p.cnt size).toNat = pieces size.toNat p.blkSize.toNat % 2 ^ 32 := by
  have h16 : memblkDescSize = 16 := rfl
  rw [MemoryPool.cnt_toNat (blkSize_ne hdesc), Nat.mod_eq_of_lt h, roundUp,
    Nat.mul_div_cancel _ (by omega)]

/-- When rounding up goes past the range of `size_t`, what is left is less than a block. -/
theorem MemoryPool.cnt_of_ge (h : 2 ^ 64 ≤ roundUp size.toNat p.blkSize.toNat) :
    (p.cnt size).toNat = 0 := by
  have h16 : memblkDescSize = 16 := rfl
  have hb : 0 < p.blkSize.toNat := by omega
  have hblk := p.blkSize.toNat_lt
  have hsize := size.toNat_lt
  have hpos : 0 < size.toNat := by
    apply Nat.pos_of_ne_zero
    intro h0
    rw [roundUp_of_le hb (by omega)] at h
    omega
  have hlt := roundUp_lt_add hb hpos
  have hless : roundUp size.toNat p.blkSize.toNat % 2 ^ 64 < p.blkSize.toNat := by omega
  rw [MemoryPool.cnt_toNat (blkSize_ne hdesc), Nat.div_eq_of_lt hless, Nat.zero_mod]

theorem MemoryPool.HasRoom.room (h : p.HasRoom size) :
    memblkDescSize + size.toNat ≤ p.needs size * p.blkSize.toNat := by
  have h16 : memblkDescSize = 16 := rfl
  have hb : 0 < p.blkSize.toNat := by omega
  have hle : size.toNat ≤ roundUp size.toNat p.blkSize.toNat := le_roundUp hb
  rw [needs, cnt_of_lt hdesc h.total, Nat.mod_eq_of_lt h.few, Nat.add_mul, ← roundUp, p.extra_toNat]
  split
  case isTrue hlast =>
    have hend := h.last
    rw [roundUp_of_mod hb (by omega)]
    omega
  case isFalse hlast => omega

theorem MemoryPool.HasRoom.of_room
    (h : memblkDescSize + size.toNat ≤ p.needs size * p.blkSize.toNat) : p.HasRoom size := by
  have h16 : memblkDescSize = 16 := rfl
  have hb : 0 < p.blkSize.toNat := by omega
  have hextra := p.extra_le size
  have hblk := p.blkSize.toNat_lt
  have htotal : roundUp size.toNat p.blkSize.toNat < 2 ^ 64 := by
    by_contra hge
    have hcnt := cnt_of_ge hdesc (Nat.le_of_not_lt hge)
    have hone := Nat.mul_le_mul_right p.blkSize.toNat hextra
    rw [needs, hcnt, Nat.zero_add] at h
    rw [roundUp_of_le hb (by omega)] at hge
    exact hge hblk
  rw [needs, cnt_of_lt hdesc htotal] at h
  refine ⟨htotal, ?_, ?_⟩
  · -- the count falls short of the blocks by 2^32 or more, and only one is added
    by_contra hge
    have hup : roundUp size.toNat p.blkSize.toNat ≤ size.toNat + p.blkSize.toNat := by
      rcases Nat.eq_zero_or_pos size.toNat with h0 | hpos
      · rw [h0, roundUp_of_le hb (Nat.zero_le _), Nat.zero_add]
      · exact Nat.le_of_lt (roundUp_lt_add hb hpos)
    have hfew : pieces size.toNat p.blkSize.toNat % 2 ^ 32 + (p.extra size).toNat + 1 ≤
        pieces size.toNat p.blkSize.toNat := by omega
    have hmul := Nat.mul_le_mul_right p.blkSize.toNat hfew
    rw [Nat.add_one_mul, ← roundUp] at hmul
    omega
  · by_contra hlast
    have hend : memblkDescSize < size.toNat % p.blkSize.toNat := by omega
    have hmod := Nat.mul_le_mul_right p.blkSize.toNat
      (Nat.mod_le (pieces size.toNat p.blkSize.toNat) (2 ^ 32))
    rw [← roundUp, roundUp_of_mod hb (by omega)] at hmod
    rw [p.extra_toNat, if_pos hend, Nat.add_zero] at h
    omega

end

theorem memoryPoolCreate_blkSize {totalSize memBlkSize : UInt64} {flag : UInt32}
    {p : MemoryPool} (h : memoryPoolCreate totalSize memBlkSize flag = some p) :
    memblkDescSize ≤ p.blkSize.toNat := by
  obtain ⟨hne, hblk, -⟩ := memoryPoolCreate_some h
  have hup := align_memblkDescSize memBlkSize
  rw [← hblk] at hup
  have h16 : memblkDescSize = 16 := rfl
  have hpos : p.blkSize.toNat ≠ 0 := fun h0 => hne (UInt64.toNat_inj.mp h0)
  obtain ⟨k, hk⟩ : 16 ∣ roundUp memBlkSize.toNat memblkDescSize := roundUp_dvd
  omega

structure MemoryPool.SameShape (p p' : MemoryPool) : Prop where
  totalSize : p'.totalSize = p.totalSize
  blkSize : p'.blkSize = p.blkSize
  blkCnt : p'.blkCnt = p.blkCnt
  perSize : p'.memblk.perSize = p.memblk.perSize
  count : p'.memblk.count = p.memblk.count

theorem memoryPoolMalloc_sameShape {p p' : MemoryPool} {size : UInt64} {r : Option Nat}
    (h : memoryPoolMalloc p size = some (r, p')) : p.SameShape p' := by
  cases r with
  | none =>
    rw [memoryPoolMalloc_null h]
    exact ⟨rfl, rfl, rfl, rfl, rfl⟩
  | some ptr =>
    obtain ⟨-, -, -, rfl⟩ := memoryPoolMalloc_some h
    exact ⟨rfl, rfl, rfl, rfl, rfl⟩

def PoolState.granted (s : PoolState) (size : UInt64) (ptr : Nat) (p' : MemoryPool) :
    PoolState where
  pool := p'
  made := s.made + 1
  alloc := Function.update s.alloc s.made
    ⟨size, ptr, s.pool.memblk.tail, s.pool.cnt size + s.pool.extra size⟩
  live := Function.update s.live s.made true

/-- What one call can do. -/
theorem poolStep_cases {s s' : PoolState} {c : PoolCall} (h : PoolStep s c s') :
    (∃ size, c = .malloc size ∧ s' = s) ∨
    (∃ size ptr p', c = .malloc size ∧ memoryPoolMalloc s.pool size = some (some ptr, p') ∧
      s' = s.granted size ptr p') ∨
    (∃ k, c = .free k ∧ s.Live k ∧ s' = { s with
      pool := memoryPoolFree s.pool (s.alloc k).ptr
      live := Function.update s.live k false }) ∨
    ∃ k start, c = .write k start ∧ s' = { s with pool := { s.pool with start } } := by
  obtain ⟨hvalid, hexec⟩ := h
  cases c with
  | malloc size =>
    simp only [PoolCall.exec] at hexec
    split at hexec
    · cases hexec
    case h_2 hmalloc =>
      cases hexec
      rw [memoryPoolMalloc_null hmalloc]
      exact .inl ⟨size, rfl, rfl⟩
    case h_3 hmalloc =>
      cases hexec
      exact .inr (.inl ⟨size, _, _, rfl, hmalloc, rfl⟩)
  | free k =>
    cases hexec
    exact .inr (.inr (.inl ⟨k, rfl, hvalid, rfl⟩))
  | write k start =>
    cases hexec
    exact .inr (.inr (.inr ⟨k, start, rfl, rfl⟩))

theorem poolStep_sameShape {s s' : PoolState} {c : PoolCall} (h : PoolStep s c s') :
    s.pool.SameShape s'.pool := by
  obtain ⟨size, rfl, rfl⟩ | ⟨size, ptr, p', rfl, hmalloc, rfl⟩ | ⟨k, rfl, -, rfl⟩ |
    ⟨k, start, rfl, rfl⟩ := poolStep_cases h
  · exact ⟨rfl, rfl, rfl, rfl, rfl⟩
  · exact memoryPoolMalloc_sameShape hmalloc
  · exact ⟨rfl, rfl, rfl, rfl, rfl⟩
  · exact ⟨rfl, rfl, rfl, rfl, rfl⟩

theorem pool_sameShape {p : MemoryPool} {calls : List PoolCall} {s : PoolState}
    (hr : Run PoolStep (PoolState.start p) calls s) : p.SameShape s.pool := by
  refine hr.invariant (fun s => p.SameShape s.pool) ?_ ⟨rfl, rfl, rfl, rfl, rfl⟩
  intro t c u ht h
  have hu := poolStep_sameShape h
  exact ⟨hu.totalSize.trans ht.totalSize, hu.blkSize.trans ht.blkSize, hu.blkCnt.trans ht.blkCnt,
    hu.perSize.trans ht.perSize, hu.count.trans ht.count⟩

theorem allocation_has_room_iff {totalSize memBlkSize : UInt64} {flag : UInt32} {p : MemoryPool}
    (hp : memoryPoolCreate totalSize memBlkSize flag = some p) {calls : List PoolCall}
    {s : PoolState} (hr : Run PoolStep (PoolState.start p) calls s) {size : UInt64} {ptr : Nat}
    {p' : MemoryPool} (hmalloc : memoryPoolMalloc s.pool size = some (some ptr, p')) :
    s.pool.Reserves p' size ptr ↔ s.pool.HasRoom size := by
  have hdesc : memblkDescSize ≤ s.pool.blkSize.toNat := by
    rw [(pool_sameShape hr).blkSize]
    exact memoryPoolCreate_blkSize hp
  obtain ⟨hgrants, hne, hptr, rfl⟩ := memoryPoolMalloc_some hmalloc
  constructor
  · exact fun h => .of_room hdesc h.room
  · intro h
    exact ⟨PoolMemory.read32_write32 _ _ _, rfl, MemoryPool.grants_exact hgrants hne, h.room hdesc⟩

theorem allocation_has_room_hundred :
    ∃ p', memoryPoolMalloc smallPool 100 = some (some 16, p') ∧
      (smallPool.Reserves p' 100 16 ↔ smallPool.HasRoom 100) ∧ smallPool.HasRoom 100 := by
  have hroom : smallPool.HasRoom 100 := ⟨by decide, by decide, by decide⟩
  exact ⟨_, rfl, allocation_has_room_iff smallPool_created Run.nil rfl, hroom⟩

/-- A size just below a block's gets one block, and with the header is more than that. -/
theorem allocation_short_of_header :
    memoryPoolCreate 1024 512 0 = some smallPool ∧
    ∃ p', memoryPoolMalloc smallPool 510 = some (some 16, p') ∧
      (smallPool.cnt 510, smallPool.extra 510) = (1, 0) ∧
      (p'.start.read32 0).toNat * smallPool.blkSize.toNat = 512 ∧
      memblkDescSize + (510 : UInt64).toNat = 526 ∧ ¬ smallPool.Reserves p' 510 16 := by
  refine ⟨smallPool_created, _, rfl, rfl, rfl, rfl, ?_⟩
  intro h
  exact absurd h.room (by decide)

end Umtp
