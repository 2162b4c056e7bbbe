import Umtp.Apdu

set_option autoImplicit false

namespace Umtp
open CheckedBuffer StateExcept

variable {σ : Type}

/-- Stores `npdu[0]` and returns the length of the header. -/
def npduDecode (npdu : Ptr) : Proc σ (UInt8 × Nat) := do
  let protocolVersion ← readPdu npdu 0
  return (protocolVersion, 1)

def npduHandler (umtp : Ref) (src : UmtpAddr) (pdu : Ptr) (pduLen : UInt16) : Proc σ Int := do
  if umtp = 0 then
    return -einval
  let version ← readPdu pdu 0
  if version ≠ fttpProtocolVersion then
    return -eproto
  let (_, decodeLen) ← npduDecode pdu
  if 0 < decodeLen ∧ decodeLen < pduLen.toNat then
    apduHandler umtp src (pdu.add decodeLen) (pduLen - UInt16.ofNat decodeLen)
  else
    return 0

theorem npduHandler_moves {R : World σ → World σ → Prop} (hR : HandlerFrame R) (umtp : Ref)
    (src : UmtpAddr) (pdu : Ptr) (pduLen : UInt16) :
    Moves R (npduHandler umtp src pdu pduLen) := by
  have := hR.refl
  have := hR.trans
  unfold npduHandler
  split
  · exact moves_pure _
  · refine moves_bind (readPdu_moves fun w => hR.reads w _) (fun version => ?_)
    split
    · exact moves_pure _
    · refine moves_bind (moves_bind (readPdu_moves fun w => hR.reads w _) fun _ => moves_pure _)
        (fun d => ?_)
      split
      split
      · exact apduHandler_moves hR _ _ _ _
      · exact moves_pure _

theorem pduLen_sub_one {pduLen : UInt16} (h : 1 ≤ pduLen.toNat) :
    (pduLen - 1).toNat = pduLen.toNat - 1 := by
  have hlt := pduLen.toNat_lt
  rw [UInt16.toNat_sub]
  simp
  omega

section

variable {umtp : Ref} {pdu : Ptr} {version : UInt8} {pduLen : UInt16}

theorem npduHandler_version (hu : umtp ≠ 0) (h0 : pdu.get 0 = some version)
    (hv : version ≠ fttpProtocolVersion) (src : UmtpAddr) (w : World σ) :
    (npduHandler umtp src pdu pduLen).run w = .ok (-eproto) (w.read pdu.off) := by
  unfold npduHandler
  rw [if_neg hu, readPdu_bind h0, if_pos hv]
  rfl

theorem npduHandler_header (hu : umtp ≠ 0) (h0 : pdu.get 0 = some fttpProtocolVersion)
    (hl : pduLen.toNat ≤ 1) (src : UmtpAddr) (w : World σ) :
    (npduHandler umtp src pdu pduLen).run w = .ok 0 ((w.read pdu.off).read pdu.off) := by
  unfold npduHandler npduDecode
  rw [if_neg hu, readPdu_bind h0, if_neg (by simp), EStateM.run_bind, readPdu_bind h0]
  simp [Nat.not_lt.mpr hl]

theorem npduHandler_apdu (hu : umtp ≠ 0) (h0 : pdu.get 0 = some fttpProtocolVersion)
    (hl : 1 < pduLen.toNat) (src : UmtpAddr) (w : World σ) :
    (npduHandler umtp src pdu pduLen).run w =
      (apduHandler umtp src (pdu.add 1) (pduLen - 1)).run ((w.read pdu.off).read pdu.off) := by
  unfold npduHandler npduDecode
  rw [if_neg hu, readPdu_bind h0, if_neg (by simp), EStateM.run_bind, readPdu_bind h0]
  simp [hl]

end

end Umtp
