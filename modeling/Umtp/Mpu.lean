import Umtp.World

/-! `mpu.c`: the two packet queues between the receiving task, the application and the mpu
task. -/

set_option autoImplicit false

namespace Umtp
open CheckedBuffer StateExcept RingWindow

variable {σ : Type}

/-- `mpu_create` and `mpu_start`: both queues empty, their packets as `malloc` left them. -/
def mpuCreate (recvBuffer sendBuffer : Fin maxPduCount → Packet) : Mpu :=
  ⟨ringbufInit recvBuffer, ringbufInit sendBuffer, true⟩

section

variable (recvBuffer sendBuffer : Fin maxPduCount → Packet) (q : QueueName)

theorem mpuCreate_valid : ((mpuCreate recvBuffer sendBuffer).queue q).Valid := by
  cases q <;> exact ringbufInit_valid _ (by decide) (by decide)

theorem mpuCreate_contents : ((mpuCreate recvBuffer sendBuffer).queue q).contents = [] := by
  cases q <;> exact ringbufInit_contents _

theorem mpuCreate_size : ((mpuCreate recvBuffer sendBuffer).queue q).size = 0 := by
  rw [← RingBuffer.contents_length, mpuCreate_contents, List.length_nil]

end

/-- The common body of `mpu_put_recv` and `mpu_put_send`: a packet is filled in place, and
then published. -/
def mpuPut (q : QueueName) (addr : UmtpAddr) (data : Ref) (msg : Ptr) (len : Int) :
    Proc σ Int := do
  match (← get).mpu with
  | none => return -einval
  | some mpu =>
    if !mpu.running then
      return 0
    match ringbufDataPeek (mpu.queue q) with
    | none => return -enomem
    | some slot =>
      let buffer ← memcpy (q.store slot) ((mpu.queue q).buffer slot).buffer 0 msg len.toNat
      let pkt : Packet := { length := UInt16.ofInt len, buffer, addr, data }
      let (published, ring) := ringbufDataPut ((mpu.queue q).fill slot pkt) slot
      modify fun w => w.setQueue q ring
      return if published then 0 else -enomem

def mpuPutRecv (src : UmtpAddr) (data : Ref) (msg : Ptr) (len : Int) : Proc σ Int :=
  mpuPut .recv src data msg len

def mpuPutSend (dst : UmtpAddr) (data : Ref) (msg : Ptr) (len : Int) : Proc σ Int :=
  mpuPut .send dst data msg len

/-- `(void)ringbuf_pop(queue, NULL)` -/
def mpuPop (q : QueueName) : Proc σ Unit :=
  modify fun w => { w with mpu := w.mpu.map fun m => m.setQueue q (ringbufPop (m.queue q)).2 }

/-- The handler works on the packet in place, so it is told where the packet lies. A packet
it rejects stays where it is. -/
def mpuMsgHandle (q : QueueName) (handler : Fin maxPduCount → Packet → Proc σ Int) :
    Proc σ Unit := do
  let mpu ← umtpMpu
  if ringbufEmpty (mpu.queue q) then
    return
  match ringbufPeek (mpu.queue q) with
  | none => return
  | some slot =>
    let ret ← handler slot ((mpu.queue q).buffer slot)
    if ret ≠ 0 then
      return
    mpuPop q

theorem mpuPut_moves {q : QueueName} {R : World σ → World σ → Prop} [Std.Refl R]
    [IsTrans (World σ) R] (hR : ∀ w ring, R w (w.setQueue q ring)) (addr : UmtpAddr) (data : Ref)
    (msg : Ptr) (len : Int) : Moves R (mpuPut q addr data msg len) := by
  refine moves_bind moves_get (fun w => ?_)
  split
  · exact moves_pure _
  · split
    · exact moves_pure _
    · split
      · exact moves_pure _
      · refine moves_bind (memcpy_moves _ _ _ _ _) (fun buffer => ?_)
        exact moves_bind (moves_modify fun w => hR w _) (fun _ => moves_pure _)

theorem mpuMsgHandle_moves {q : QueueName} {R : World σ → World σ → Prop} [Std.Refl R]
    [IsTrans (World σ) R] (hR : ∀ w mpu, R w { w with mpu })
    {f : Fin maxPduCount → Packet → Proc σ Int} (hf : ∀ slot pkt, Moves R (f slot pkt)) :
    Moves R (mpuMsgHandle q f) := by
  have hmpu : Moves R (@umtpMpu σ) := by
    apply moves_bind moves_get
    intro w
    split
    · exact moves_pure _
    · exact moves_throw _
  apply moves_bind hmpu
  intro mpu
  split
  · exact moves_pure _
  · split
    · exact moves_pure _
    · apply moves_bind (hf _ _)
      intro ret
      split
      · exact moves_pure _
      · exact moves_modify fun w => hR w _

section

variable {q : QueueName} (addr : UmtpAddr) (data : Ref) {msg : Ptr} {len : Int} {w : World σ}
  {m : Mpu}

theorem mpuPut_full (hm : w.mpu = some m) (hr : m.running = true) (hv : (m.queue q).Valid)
    (hfull : (m.queue q).size = maxPduCount) :
    (mpuPut q addr data msg len).run w = .ok (-enomem) w := by
  have hnone := (ringbufDataPeek_none hv).mpr hfull
  simp [mpuPut, hm, hr, hnone]

theorem mpuPut_room (hm : w.mpu = some m) (hr : m.running = true) (hv : (m.queue q).Valid)
    (hroom : (m.queue q).size < maxPduCount) (hread : msg.off + len.toNat ≤ msg.obj.length)
    (hlen : len.toNat ≤ maxMpuData) :
    ∃ ring pkt, (mpuPut q addr data msg len).run w = .ok 0 (w.setQueue q ring) ∧
      ring.Valid ∧ ring.tail = (m.queue q).tail ∧
      ring.contents = (m.queue q).contents ++ [pkt] ∧
      pkt.length = UInt16.ofInt len ∧
      pkt.buffer.cells.take len.toNat = msg.bytes.take len.toNat ∧
      pkt.addr = addr ∧ pkt.data = data := by
  cases hpeek : ringbufDataPeek (m.queue q) with
  | none =>
    have := (ringbufDataPeek_none hv).mp hpeek
    omega
  | some slot =>
    have hcopy : (msg.bytes.take len.toNat).length = len.toNat := by
      simp [Ptr.bytes]
      omega
    cases hw : ((m.queue q).buffer slot).buffer.write 0 (msg.bytes.take len.toNat) with
    | none =>
      rw [Buf.write_eq_none, hcopy] at hw
      omega
    | some buffer =>
      obtain ⟨hput, hvalid, hcont⟩ := ringbufDataPut_fill hv hpeek
        { length := UInt16.ofInt len, buffer, addr, data }
      refine ⟨_, _, ?_, hvalid, by simp, hcont, rfl, ?_, rfl, rfl⟩
      · simp [mpuPut, hm, hr, hpeek, memcpy_run hread hw, hput]
      · have := Buf.read_write hw
        rwa [hcopy] at this

/-- A call that comes back has put its packet at the end of the queue, or has done nothing. -/
theorem mpuPut_ok (hm : w.mpu = some m) (hr : m.running = true) (hv : (m.queue q).Valid)
    {ret : Int} {w' : World σ} (h : (mpuPut q addr data msg len).run w = .ok ret w') :
    (ret ≠ 0 ∧ w' = w) ∨ (ret = 0 ∧ ∃ ring pkt, w' = w.setQueue q ring ∧ ring.Valid ∧
      ring.contents = (m.queue q).contents ++ [pkt]) := by
  cases hpeek : ringbufDataPeek (m.queue q) with
  | none =>
    rw [mpuPut_full addr data hm hr hv ((ringbufDataPeek_none hv).mp hpeek)] at h
    cases h
    exact .inl ⟨by decide, rfl⟩
  | some slot =>
    by_cases hread : msg.off + len.toNat ≤ msg.obj.length
    · cases hw : ((m.queue q).buffer slot).buffer.write 0 (msg.bytes.take len.toNat) with
      | none => simp [mpuPut, hm, hr, hpeek, memcpy, hread, hw] at h
      | some buffer =>
        obtain ⟨hput, hvalid, hcont⟩ := ringbufDataPut_fill hv hpeek
          { length := UInt16.ofInt len, buffer, addr, data }
        simp [mpuPut, hm, hr, hpeek, memcpy_run hread hw, hput] at h
        obtain ⟨rfl, rfl⟩ := h
        exact .inr ⟨rfl, _, _, rfl, hvalid, hcont⟩
    · simp [mpuPut, hm, hr, hpeek, memcpy, hread] at h

/-- Bytes past the packet's buffer are stored all the same. -/
theorem mpuPut_overrun (hm : w.mpu = some m) (hr : m.running = true) (hv : (m.queue q).Valid)
    (hroom : (m.queue q).size < maxPduCount) (hread : msg.off + len.toNat ≤ msg.obj.length)
    (hlen : maxMpuData < len.toNat) :
    ∃ slot, (mpuPut q addr data msg len).run w =
      .error (.overrun (q.store slot) maxMpuData) w := by
  cases hpeek : ringbufDataPeek (m.queue q) with
  | none =>
    have := (ringbufDataPeek_none hv).mp hpeek
    omega
  | some slot =>
    refine ⟨slot, ?_⟩
    have hover : (memcpy (q.store slot) ((m.queue q).buffer slot).buffer 0 msg len.toNat).run w =
        .error (.overrun (q.store slot) maxMpuData) w := memcpy_overrun hread (by omega) w
    simp [mpuPut, hm, hr, hpeek, hover]

end

section

variable {q : QueueName} (handler : Fin maxPduCount → Packet → Proc σ Int) {w : World σ} {m : Mpu}

theorem mpuMsgHandle_nil (hup : w.mpu = some m) (hc : (m.queue q).contents = []) :
    (mpuMsgHandle q handler).run w = .ok () w := by
  simp [mpuMsgHandle, umtpMpu, hup, (ringbufEmpty_iff _).mpr hc]

theorem mpuMsgHandle_peek (hup : w.mpu = some m) {slot : Fin maxPduCount}
    (hpeek : ringbufPeek (m.queue q) = some slot) :
    (mpuMsgHandle q handler).run w =
      (do
        let ret ← handler slot ((m.queue q).buffer slot)
        if ret ≠ 0 then
          return
        mpuPop q).run w := by
  have hne : ringbufEmpty (m.queue q) = false := by
    rw [Bool.eq_false_iff]
    intro hempty
    simp [ringbufPeek, hempty] at hpeek
  simp [mpuMsgHandle, umtpMpu, hup, hne, hpeek]

theorem mpuMsgHandle_cons (hup : w.mpu = some m) {p : Packet} {ps : List Packet}
    (hc : (m.queue q).contents = p :: ps) :
    ∃ slot, (mpuMsgHandle q handler).run w =
      (do
        let ret ← handler slot p
        if ret ≠ 0 then
          return
        mpuPop q).run w := by
  obtain ⟨slot, hpeek, rfl⟩ := ringbufPeek_cons hc
  exact ⟨slot, mpuMsgHandle_peek handler hup hpeek⟩

end

end Umtp
