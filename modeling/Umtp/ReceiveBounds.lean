import Umtp.MpuDrain
import Umtp.Task

/-! A datagram's way from the socket into the receive queue: which datagrams stay inside
`pdu`, `buf` and the packet's `buffer`. -/

set_option autoImplicit false

namespace Umtp
open CheckedBuffer StateExcept

variable {σ : Type}

/-- The receive queue after a message with these bytes has been put in it, or refused. -/
def Enqueued (w : World σ) (umtp : Ref) (body : List UInt8) (sin : SockAddr) (w' : World σ) :
    Prop :=
  w' = w ∨ ∃ m ring pkt, w.mpu = some m ∧ w' = w.setQueue .recv ring ∧
    ring.contents = (m.queue .recv).contents ++ [pkt] ∧ pkt.length.toNat = body.length ∧
    pkt.buffer.cells.take body.length = body ∧ pkt.addr.Names sin ∧ pkt.data = umtp

/-- `dludp_recv_data` comes back, so it has stored inside `pdu` and `buf`; and so does
`mpu_put_recv` where the message goes there, with the packet as it should be. -/
def ReceiveInside (host : Endian) (dl : Dludp) (umtp : Ref) (w : World σ) (t : TaskLocals)
    (bytes : List UInt8) (sin : SockAddr) : Prop :=
  ∃ len src buf, (dludpRecvData host dl t.src t.buf maxPdu (.datagram bytes sin)).run w =
      .ok (len, src, buf) w ∧
    (0 < len → w.syncMode = false →
      Returns (fun _ => Enqueued w umtp (datagramBody bytes) sin)
        (umtpTaskMessage umtp src buf len) w)

def World.RefusesRecv (w : World σ) : Prop :=
  ∀ m, w.mpu = some m → m.running = false ∨ (m.queue .recv).size = maxPduCount

/-- Where the copy into the packet is not made, or the packet has room. -/
def ReceiveFits (host : Endian) (dl : Dludp) (w : World σ) (bytes : List UInt8) (sin : SockAddr) :
    Prop :=
  w.syncMode = true ∨ w.RefusesRecv ∨ ¬ dl.Delivers host bytes sin ∨
    bytes.length ≤ maxMpuData + 1

theorem mpuPutRecv_refused {w : World σ} (h : w.RefusesRecv)
    (hv : ∀ m, w.mpu = some m → (m.queue .recv).Valid) (src : UmtpAddr) (umtp : Ref) (msg : Ptr)
    (len : Int) : Returns (fun _ w' => w' = w) (mpuPutRecv src umtp msg len) w := by
  cases hm : w.mpu with
  | none => exact ⟨-einval, w, by simp [mpuPutRecv, mpuPut, hm], rfl⟩
  | some m =>
    cases hrun : m.running with
    | false => exact ⟨0, w, by simp [mpuPutRecv, mpuPut, hm, hrun], rfl⟩
    | true =>
      rcases h m hm with hr | hfull
      · rw [hrun] at hr
        contradiction
      · exact ⟨-enomem, w, mpuPut_full src umtp hm hrun (hv m hm) hfull, rfl⟩

section

variable {host : Endian} {dl : Dludp} {umtp : Ref} {w : World σ} {t : TaskLocals}
  {bytes : List UInt8} {sin : SockAddr}

theorem umtpTaskMessage_async (hasync : w.syncMode = false) (src : UmtpAddr)
    (buf : Buf UInt8 maxPdu) (len : Int) :
    (umtpTaskMessage umtp src buf len).run w =
      (mpuPutRecv src umtp ⟨.taskBuf, buf.cells, 0⟩ len).run w := by
  simp [umtpTaskMessage, hasync]

theorem umtpTaskMessage_enqueued {m : Mpu} (hm : w.mpu = some m) (hrun : m.running = true)
    (hv : (m.queue .recv).Valid) (hroom : (m.queue .recv).size < maxPduCount)
    (hasync : w.syncMode = false) {src : UmtpAddr} (hsrc : src.Names sin)
    {buf : Buf UInt8 maxPdu}
    (hbuf : buf.cells.take (datagramBody bytes).length = datagramBody bytes)
    (hlen : (datagramBody bytes).length ≤ maxMpuData) :
    Returns (fun _ => Enqueued w umtp (datagramBody bytes) sin)
      (umtpTaskMessage umtp src buf (datagramBody bytes).length) w := by
  have hmax : maxMpuData = 2000 := rfl
  have hpdu : maxPdu = 2049 := rfl
  have hread : (⟨.taskBuf, buf.cells, 0⟩ : Ptr).off + ((datagramBody bytes).length : Int).toNat ≤
      buf.cells.length := by
    simp
    omega
  obtain ⟨ring, pkt, hput, -, -, hcont, hpl, hpb, hpa, hpd⟩ :=
    mpuPut_room src umtp hm hrun hv hroom hread (by simpa using hlen)
  have hshort := uint16_ofInt_toNat (show 0 ≤ ((datagramBody bytes).length : Int) by omega)
    (by omega)
  refine ⟨0, _, (umtpTaskMessage_async hasync src buf _).trans hput, .inr
    ⟨m, ring, pkt, hm, rfl, hcont, ?_, ?_, by rwa [hpa], hpd⟩⟩
  · rw [hpl, hshort]
    simp
  · rw [Int.toNat_natCast] at hpb
    rw [hpb]
    exact hbuf

variable (umtp) in
theorem umtpTaskMessage_overrun {m : Mpu} (hm : w.mpu = some m) (hrun : m.running = true)
    (hv : (m.queue .recv).Valid) (hroom : (m.queue .recv).size < maxPduCount)
    (hasync : w.syncMode = false) (src : UmtpAddr) (buf : Buf UInt8 maxPdu)
    (hlen : maxMpuData < (datagramBody bytes).length) :
    ∃ slot, (umtpTaskMessage umtp src buf (datagramBody bytes).length).run w =
      .error (.overrun (.mpuRecv slot) maxMpuData) w := by
  rw [umtpTaskMessage_async hasync]
  apply mpuPut_overrun (q := .recv) src umtp hm hrun hv hroom
  · rw [datagramBody_length]
    simp
  · simpa using hlen

theorem receive_overrun (umtp : Ref) (t : TaskLocals) (hdec : dl.decrypt = none)
    (hv : ∀ m, w.mpu = some m → (m.queue .recv).Valid) (hfits : ¬ ReceiveFits host dl w bytes sin) :
    ∃ src buf slot, (dludpRecvData host dl t.src t.buf maxPdu (.datagram bytes sin)).run w =
        .ok (((datagramBody bytes).length : Int), src, buf) w ∧
      0 < (datagramBody bytes).length ∧ w.syncMode = false ∧
      (umtpTaskMessage umtp src buf (datagramBody bytes).length).run w =
        .error (.overrun (.mpuRecv slot) maxMpuData) w := by
  simp only [ReceiveFits, World.RefusesRecv, not_or, not_forall, Bool.not_eq_true, not_not]
    at hfits
  obtain ⟨hasync, ⟨m, hm, hrun, hroom⟩, hd, hlong⟩ := hfits
  have hmax : maxMpuData = 2000 := rfl
  have hpdu : maxPdu = 2049 := rfl
  have hlen : maxMpuData < (datagramBody bytes).length := by
    rw [datagramBody_length]
    omega
  have hle := (hv m hm).size_le
  obtain ⟨src, buf, hrecv, -, -⟩ := dludpRecvData_delivers t.src t.buf hdec hd w
  obtain ⟨slot, hover⟩ := umtpTaskMessage_overrun umtp hm (by simpa using hrun)
    (hv m hm) (by omega) hasync src buf hlen
  exact ⟨src, buf, slot, hrecv, by omega, hasync, hover⟩

theorem receive_not_inside (umtp : Ref) (t : TaskLocals) (hdec : dl.decrypt = none)
    (hv : ∀ m, w.mpu = some m → (m.queue .recv).Valid) (hfits : ¬ ReceiveFits host dl w bytes sin) :
    ¬ ReceiveInside host dl umtp w t bytes sin := by
  obtain ⟨src, buf, slot, hrecv, hpos, hasync, hover⟩ := receive_overrun umtp t hdec hv hfits
  rintro ⟨len, src', buf', hrecv', hmsg⟩
  rw [hrecv] at hrecv'
  cases hrecv'
  obtain ⟨r, w', hok, -⟩ := hmsg (by omega) hasync
  rw [hover] at hok
  cases hok

theorem umtpTaskRound_overrun (umtp : Ref) (t : TaskLocals) (now : Int) (hdec : dl.decrypt = none)
    (hv : ∀ m, w.mpu = some m → (m.queue .recv).Valid) (hfits : ¬ ReceiveFits host dl w bytes sin) :
    ∃ slot, (umtpTaskRound umtp host dl now (.datagram bytes sin) t).run w =
      .error (.overrun (.mpuRecv slot) maxMpuData) w := by
  obtain ⟨src, buf, slot, hrecv, hpos, -, hover⟩ := receive_overrun umtp t hdec hv hfits
  have hneg : ¬ ((datagramBody bytes).length : Int) < 0 := by omega
  exact ⟨slot, by simp [umtpTaskRound, hrecv, hneg, hpos, hover]⟩

theorem receive_inside (umtp : Ref) (t : TaskLocals) (hdec : dl.decrypt = none)
    (hv : ∀ m, w.mpu = some m → (m.queue .recv).Valid) (hfits : ReceiveFits host dl w bytes sin) :
    ReceiveInside host dl umtp w t bytes sin := by
  by_cases hd : dl.Delivers host bytes sin
  · obtain ⟨src, buf, hrecv, hsrc, hbuf⟩ := dludpRecvData_delivers t.src t.buf hdec hd w
    refine ⟨_, src, buf, hrecv, fun _ hasync => ?_⟩
    by_cases hrefuse : w.RefusesRecv
    · obtain ⟨r, w', hput, rfl⟩ := mpuPutRecv_refused hrefuse hv src umtp
        ⟨.taskBuf, buf.cells, 0⟩ (datagramBody bytes).length
      exact ⟨r, w', (umtpTaskMessage_async hasync src buf _).trans hput, .inl rfl⟩
    · have hshort : bytes.length ≤ maxMpuData + 1 := by
        simpa [ReceiveFits, hasync, hrefuse, hd] using hfits
      simp only [World.RefusesRecv, not_forall, not_or] at hrefuse
      obtain ⟨m, hm, hrun, hroom⟩ := hrefuse
      have hle := (hv m hm).size_le
      apply umtpTaskMessage_enqueued hm (by simpa using hrun) (hv m hm) (by omega) hasync hsrc hbuf
      rw [datagramBody_length]
      omega
  · obtain ⟨len, hrecv, hlen⟩ := dludpRecvData_dropped t.src t.buf hd w
    refine ⟨len, _, _, hrecv, fun hpos => ?_⟩
    omega

theorem receive_inside_iff (umtp : Ref) (t : TaskLocals) (hdec : dl.decrypt = none)
    (hv : ∀ m, w.mpu = some m → (m.queue .recv).Valid) :
    ReceiveInside host dl umtp w t bytes sin ↔ ReceiveFits host dl w bytes sin :=
  ⟨fun h => not_not.mp fun hfits => receive_not_inside umtp t hdec hv hfits h,
    receive_inside umtp t hdec hv⟩

end

theorem idleNode_recvValid : ∀ m, idleNode.mpu = some m → (m.queue .recv).Valid := by
  obtain ⟨m, hinv, -, -⟩ := idleNode_inv
  intro m' hm'
  cases hinv.up.symm.trans hm'
  exact hinv.recvValid

theorem peer_delivers (bytes : List UInt8) (h : bytes[0]? = some umtpSignature) :
    localLink.Delivers .little bytes peerAddr := ⟨by decide, by decide, h⟩

theorem receive_inside_signature :
    ReceiveInside .little localLink 1 idleNode taskStart [umtpSignature, 1] peerAddr :=
  (receive_inside_iff 1 taskStart rfl idleNode_recvValid).mpr (.inr (.inr (.inr (by decide))))

theorem idleNode_takes : ¬ idleNode.RefusesRecv := by
  obtain ⟨m, hinv, hrun, hempty⟩ := idleNode_inv
  intro hrefuse
  rcases hrefuse m hinv.up with hr | hfull
  · rw [hrun] at hr
    contradiction
  · rw [← RingBuffer.contents_length, hempty] at hfull
    contradiction

/-- 2002 bytes are one too many for a packet. -/
theorem receive_overruns :
    ¬ ReceiveInside .little localLink 1 idleNode taskStart
      (List.replicate 2002 umtpSignature) peerAddr := by
  apply receive_not_inside 1 taskStart rfl idleNode_recvValid
  have hd : localLink.Delivers .little (List.replicate 2002 umtpSignature) peerAddr :=
    peer_delivers _ (List.getElem?_replicate_of_lt (by omega))
  have hlen : ¬ (List.replicate 2002 umtpSignature).length ≤ maxMpuData + 1 := by
    rw [List.length_replicate]
    decide
  have hasync : idleNode.syncMode = false := rfl
  simp only [ReceiveFits, hasync, idleNode_takes, hd, hlen]
  decide

end Umtp
