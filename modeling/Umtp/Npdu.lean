import Umtp.World

set_option autoImplicit false

namespace Umtp
open CheckedBuffer StateExcept

variable {σ : Type}

def fttpProtocolVersion : UInt8 := 1

/-- Stores the header and returns its length. -/
def encodeNpdu (npdu : Buf UInt8 maxNpdu) : Proc σ (Buf UInt8 maxNpdu × Nat) := do
  let npdu ← poke .npduTmp npdu 0 fttpProtocolVersion
  return (npdu, 1)

/-- `dl->send_data(dl, dst, pdu, len)` -/
def sendData (dl : UmtpDl σ) (dst : UmtpAddr) (pdu : Ptr) (len : Int) : Proc σ Int := do
  emit (.send dst (pdu.bytes.take len.toNat))
  onApp (dl.sendData dst pdu len)

def npduSend (umtp : Ref) (dst : UmtpAddr) (data : Ptr) (len : Int) : Proc σ Int := do
  if len ≤ 0 then
    return -einval
  let (tmp, encodeLen) ← encodeNpdu (Buf.fill maxNpdu 0)
  let tmp ← memcpy .npduTmp tmp encodeLen data (sizeT len)
  if umtp = 0 then
    throw .null
  match (← get).dl with
  | some dl => sendData dl dst ⟨.npduTmp, tmp.cells, 0⟩ (encodeLen + len)
  | none => return -einval

theorem sendData_run (dl : UmtpDl σ) (dst : UmtpAddr) (pdu : Ptr) (len : Int) (w : World σ) :
    (sendData dl dst pdu len).run w =
      match (dl.sendData dst pdu len).run w.app with
      | .ok r app =>
        .ok r { w with app, trace := w.trace ++ [.send dst (pdu.bytes.take len.toNat)] }
      | .error e app =>
        .error e { w with app, trace := w.trace ++ [.send dst (pdu.bytes.take len.toNat)] } := by
  simp only [sendData, EStateM.run_bind, emit_run, onApp_run]
  cases (dl.sendData dst pdu len).run w.app <;> rfl

theorem sendData_callsOut (dl : UmtpDl σ) (dst : UmtpAddr) (pdu : Ptr) (len : Int) :
    Moves (CallsOut Event.IsSend) (sendData dl dst pdu len) :=
  moves_bind (emit_callsOut trivial) (fun _ => onApp_callsOut _ _)

theorem npduSend_callsOut (umtp : Ref) (dst : UmtpAddr) (data : Ptr) (len : Int) :
    Moves (@CallsOut σ Event.IsSend) (npduSend umtp dst data len) := by
  unfold npduSend encodeNpdu
  split
  · exact moves_pure _
  · refine moves_bind (moves_bind (poke_moves _ _ _ _) (fun _ => moves_pure _)) (fun enc => ?_)
    refine moves_bind (memcpy_moves _ _ _ _ _) (fun tmp => ?_)
    have hlink : Moves (@CallsOut σ Event.IsSend) (do
        match (← get).dl with
        | some dl => sendData dl dst ⟨.npduTmp, tmp.cells, 0⟩ (enc.2 + len)
        | none => pure (-einval)) := by
      refine moves_bind moves_get (fun w => ?_)
      cases w.dl with
      | none => exact moves_pure _
      | some dl => exact sendData_callsOut dl _ _ _
    split
    · exact moves_bind (moves_throw _) (fun _ => hlink)
    · exact hlink

/-- `tmp` of `npdu_send`: the header, the message, and the zeros after it. -/
def npduFrame (msg : List UInt8) : List UInt8 :=
  fttpProtocolVersion :: (msg ++ List.replicate (maxApdu - msg.length) 0)

theorem npduFrame_length {msg : List UInt8} (h : msg.length ≤ maxApdu) :
    (npduFrame msg).length = maxNpdu := by
  simp [npduFrame]
  omega

theorem npduFrame_sent (msg : List UInt8) :
    (⟨.npduTmp, npduFrame msg, 0⟩ : Ptr).bytes.take (1 + (msg.length : Int)).toNat =
      fttpProtocolVersion :: msg := by
  rw [show (1 + (msg.length : Int)).toNat = msg.length + 1 by omega]
  simp [Ptr.bytes, npduFrame]

section

variable {umtp : Ref} (hu : umtp ≠ 0) {w : World σ} {dl : UmtpDl σ} (hdl : w.dl = some dl)
  {data : Ptr} {len : Int} (h0 : 0 < len) (hread : data.off + len.toNat ≤ data.obj.length)

include h0 hread

theorem npduSend_overrun (hlen : (maxApdu : Int) < len) (hmax : len < 2 ^ 64) (dst : UmtpAddr) :
    (npduSend umtp dst data len).run w = .error (.overrun .npduTmp maxNpdu) w := by
  obtain ⟨tmp, htmp⟩ : ∃ tmp, (Buf.fill maxNpdu (0 : UInt8)).write 0 [fttpProtocolVersion] =
      some tmp := Buf.exists_write (by decide)
  have hmaxApdu : (maxApdu : Int) = 1024 := rfl
  have hmaxNpdu : maxNpdu = 1025 := rfl
  have hover : (memcpy .npduTmp tmp 1 data len.toNat).run w =
      .error (.overrun .npduTmp maxNpdu) w := memcpy_overrun hread (by omega) w
  have hneg : ¬ len ≤ 0 := by omega
  simp [npduSend, encodeNpdu, hneg, poke, htmp, sizeT_of_nonneg (Int.le_of_lt h0) hmax, hover]

include hu

theorem npduSend_framed (hlen : len ≤ maxApdu) (dst : UmtpAddr) :
    (npduSend umtp dst data len).run w =
      match w.dl with
      | some dl =>
        (sendData dl dst ⟨.npduTmp, npduFrame (data.bytes.take len.toNat), 0⟩ (1 + len)).run w
      | none => .ok (-einval) w := by
  have hmaxApdu : (maxApdu : Int) = 1024 := rfl
  have hmaxNpdu : maxNpdu = 1025 := rfl
  have hcopy : (data.bytes.take len.toNat).length = len.toNat := by
    simp [Ptr.bytes]
    omega
  obtain ⟨tmp, htmp⟩ : ∃ tmp, (Buf.fill maxNpdu (0 : UInt8)).write 0 [fttpProtocolVersion] =
      some tmp := Buf.exists_write (by decide)
  obtain ⟨tmp', htmp'⟩ : ∃ tmp', tmp.write 1 (data.bytes.take len.toNat) = some tmp' :=
    Buf.exists_write (by rw [hcopy]; omega)
  have hcells : tmp'.cells = npduFrame (data.bytes.take len.toNat) := by
    obtain ⟨-, h1⟩ := Buf.write_some htmp
    obtain ⟨-, h2⟩ := Buf.write_some htmp'
    rw [h2, h1, npduFrame, hcopy]
    simp [Buf.fill, Nat.add_comm 1 len.toNat]
  have hneg : ¬ len ≤ 0 := by omega
  have hrun : (memcpy .npduTmp tmp 1 data len.toNat).run w = .ok tmp' w := memcpy_run hread htmp' w
  cases hdl : w.dl with
  | none =>
    simp [npduSend, encodeNpdu, hneg, poke, htmp, sizeT_of_nonneg (Int.le_of_lt h0)
      (show len < 2 ^ 64 by omega), hrun, hu, hdl]
  | some dl =>
    simp [npduSend, encodeNpdu, hneg, poke, htmp, sizeT_of_nonneg (Int.le_of_lt h0)
      (show len < 2 ^ 64 by omega), hrun, hu, hdl, hcells]

include hdl

theorem npduSend_run (hlen : len ≤ maxApdu) (dst : UmtpAddr) :
    (npduSend umtp dst data len).run w =
      (sendData dl dst ⟨.npduTmp, npduFrame (data.bytes.take len.toNat), 0⟩ (1 + len)).run w := by
  rw [npduSend_framed hu h0 hread hlen dst, hdl]

/-- However the link fares, it has been given the message once. -/
theorem npduSend_trace (hlen : len ≤ maxApdu) (dst : UmtpAddr) :
    (final ((npduSend umtp dst data len).run w)).trace =
      w.trace ++ [.send dst (fttpProtocolVersion :: data.bytes.take len.toNat)] := by
  have hcopy : ((data.bytes.take len.toNat).length : Int) = len := by
    simp [Ptr.bytes]
    omega
  have hsent := npduFrame_sent (data.bytes.take len.toNat)
  rw [hcopy] at hsent
  rw [npduSend_run hu hdl h0 hread hlen dst, sendData_run, hsent]
  cases (dl.sendData dst _ _).run w.app <;> rfl

end

end Umtp
