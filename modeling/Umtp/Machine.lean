import Umtp.Kit.CheckedBuffer
import Umtp.Kit.StateExcept
import Mathlib.Data.UInt

/-! The C side of the model: array sizes, error numbers, pointers into arrays, and the
ways in which a call can fail to come back. -/

set_option autoImplicit false

namespace Umtp
open CheckedBuffer StateExcept

abbrev maxApdu : Nat := 1024
abbrev maxNpdu : Nat := maxApdu + 1
abbrev maxPdu : Nat := maxApdu + maxNpdu
abbrev maxPduCount : Nat := 16
abbrev maxMpuData : Nat := 2000
abbrev maxUmtpSession : Nat := 255
abbrev maxMacLen : Nat := 7

instance : NeZero maxPduCount := ⟨by decide⟩

def enoent : Int := 2
def ebadf : Int := 9
def enomem : Int := 12
def eexist : Int := 17
def einval : Int := 22
def eproto : Int := 71
def etimedout : Int := 110

/-- Address of a `struct umtp`; 0 is NULL. -/
abbrev Ref := Nat

/-- The arrays that hold message bytes, one for each buffer of the source. -/
inductive Store where
  | submitTmp
  | apduData
  | apduTransBlk
  | sessionPdu (slot : Fin maxUmtpSession)
  | mpuRecv (slot : Fin maxPduCount)
  | mpuSend (slot : Fin maxPduCount)
  | npduTmp
  | dludpPdu
  | dludpBuf
  | taskBuf
  | application
  deriving DecidableEq, Repr

/-- A `uint8_t *`: the array it points into, that array's bytes, and the offset. The
library forms such pointers with `&` only, so none of them is NULL. -/
structure Ptr where
  store : Store
  obj : List UInt8
  off : Nat
  deriving DecidableEq, Repr

def Ptr.add (p : Ptr) (k : Nat) : Ptr := { p with off := p.off + k }

def Ptr.get (p : Ptr) (i : Nat) : Option UInt8 := p.obj[p.off + i]?

def Ptr.bytes (p : Ptr) : List UInt8 := p.obj.drop p.off

/-- What keeps a call from coming back: an access outside an array, a NULL pointer
followed, or a sleep that only another thread can end. -/
inductive Stop where
  | overrun (store : Store) (index : Nat)
  | overread (store : Store) (index : Nat)
  | null
  | asleep
  deriving DecidableEq, Repr

variable {σ : Type} {n : Nat}

/-- `dst[off] = x` -/
def poke (store : Store) (dst : Buf UInt8 n) (off : Nat) (x : UInt8) :
    EStateM Stop σ (Buf UInt8 n) :=
  match dst.write off [x] with
  | some dst' => pure dst'
  | none => throw (.overrun store off)

/-- `memcpy(&dst[off], src, len)`, and the byte loops that do the same. -/
def memcpy (store : Store) (dst : Buf UInt8 n) (off : Nat) (src : Ptr) (len : Nat) :
    EStateM Stop σ (Buf UInt8 n) :=
  if src.off + len ≤ src.obj.length then
    match dst.write off (src.bytes.take len) with
    | some dst' => pure dst'
    | none => throw (.overrun store (max n off))
  else throw (.overread src.store (max src.obj.length src.off))

/-- The conversion of an `int` length to `size_t`. -/
def sizeT (len : Int) : Nat := (len % 2 ^ 64).toNat

theorem sizeT_of_nonneg {len : Int} (h : 0 ≤ len) (hl : len < 2 ^ 64) : sizeT len = len.toNat := by
  rw [sizeT, Int.emod_eq_of_lt h hl]

theorem uint16_ofInt_toNat {len : Int} (h : 0 ≤ len) (hl : len < 2 ^ 16) :
    (UInt16.ofInt len).toNat = len.toNat := by
  obtain ⟨k, rfl⟩ := Int.eq_ofNat_of_zero_le h
  simp [UInt16.ofInt]
  omega

theorem uint16_ofInt_natCast (x : UInt16) : UInt16.ofInt (x.toNat : Int) = x := by
  have hlt := x.toNat_lt
  rw [← UInt16.toNat_inj, uint16_ofInt_toNat (by omega) (by omega), Int.toNat_natCast]

theorem uint8_ofInt_toNat (x : Int) : ((UInt8.ofInt x).toNat : Int) = x % 256 := by
  rw [UInt8.ofInt, UInt8.toNat_ofNat']
  omega

@[simp] theorem Ptr.add_zero (p : Ptr) : p.add 0 = p := rfl

@[simp] theorem Ptr.add_obj (p : Ptr) (k : Nat) : (p.add k).obj = p.obj := rfl

@[simp] theorem Ptr.add_store (p : Ptr) (k : Nat) : (p.add k).store = p.store := rfl

@[simp] theorem Ptr.add_off (p : Ptr) (k : Nat) : (p.add k).off = p.off + k := rfl

theorem Ptr.add_get (p : Ptr) (k i : Nat) : (p.add k).get i = p.get (k + i) := by
  simp [get, Nat.add_assoc]

theorem Ptr.add_bytes (p : Ptr) (k : Nat) : (p.add k).bytes = p.bytes.drop k := by
  simp [add, bytes]

theorem poke_run {store : Store} {dst dst' : Buf UInt8 n} {off : Nat} {x : UInt8}
    (h : dst.write off [x] = some dst') (s : σ) : (poke store dst off x).run s = .ok dst' s := by
  simp [poke, h]

theorem memcpy_run {store : Store} {dst : Buf UInt8 n} {off len : Nat} {src : Ptr}
    (hr : src.off + len ≤ src.obj.length) {dst' : Buf UInt8 n}
    (hw : dst.write off (src.bytes.take len) = some dst') (s : σ) :
    (memcpy store dst off src len).run s = .ok dst' s := by
  simp [memcpy, hr, hw]

theorem memcpy_list {store store' : Store} {dst dst' : Buf UInt8 n} {off len : Nat}
    {xs : List UInt8} (hlen : xs.length = len) (hw : dst.write off xs = some dst') (s : σ) :
    (memcpy store dst off ⟨store', xs, 0⟩ len).run s = .ok dst' s := by
  apply memcpy_run
  · simp [hlen]
  · simpa [Ptr.bytes, ← hlen] using hw

theorem memcpy_overrun {store : Store} {dst : Buf UInt8 n} {off len : Nat} {src : Ptr}
    (hr : src.off + len ≤ src.obj.length) (hw : n < off + len) (s : σ) :
    (memcpy store dst off src len).run s = .error (.overrun store (max n off)) s := by
  have hlen : (src.bytes.take len).length = len := by simp [Ptr.bytes]; omega
  have hnone : dst.write off (src.bytes.take len) = none := by
    rw [Buf.write_eq_none, hlen]; exact hw
  simp [memcpy, hr, hnone]

theorem poke_moves {R : σ → σ → Prop} [Std.Refl R] (store : Store) (dst : Buf UInt8 n)
    (off : Nat) (x : UInt8) : Moves R (poke store dst off x) := by
  unfold poke
  cases dst.write off [x] with
  | none => exact moves_throw _
  | some dst' => exact moves_pure _

theorem memcpy_moves {R : σ → σ → Prop} [Std.Refl R] (store : Store) (dst : Buf UInt8 n)
    (off : Nat) (src : Ptr) (len : Nat) : Moves R (memcpy store dst off src len) := by
  unfold memcpy
  split
  · cases dst.write off (src.bytes.take len) with
    | none => exact moves_throw _
    | some dst' => exact moves_pure _
  · exact moves_throw _

/-- `struct umtp_addr`: a length of 0 is the broadcast address. -/
structure UmtpAddr where
  addrLen : UInt8
  addr : Buf UInt8 maxMacLen
  deriving DecidableEq

def UmtpAddr.zero : UmtpAddr := ⟨0, Buf.fill maxMacLen 0⟩

end Umtp
