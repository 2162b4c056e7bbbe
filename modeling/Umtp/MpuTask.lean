import Umtp.Kit.FuelLoop
import Umtp.Receive

/-! The mpu task: the two handlers `umtp_start` gives it, and its inner loop. -/

set_option autoImplicit false

namespace Umtp
open CheckedBuffer StateExcept

variable {σ : Type}

def _umtpSendMsg (slot : Fin maxPduCount) (pkt : Packet) : Proc σ Int :=
  npduSend pkt.data pkt.addr ⟨.mpuSend slot, pkt.buffer.cells, 0⟩ pkt.length.toNat

def _umtpHandleMsg (slot : Fin maxPduCount) (pkt : Packet) : Proc σ Int :=
  npduHandler pkt.data pkt.addr ⟨.mpuRecv slot, pkt.buffer.cells, 0⟩ pkt.length

/-- The body of the inner loop of `mpu_task`, with the handlers `umtp_start` installs. -/
def mpuTaskRound : Proc σ Unit := do
  mpuMsgHandle .recv _umtpHandleMsg
  mpuMsgHandle .send _umtpSendMsg

def mpuIdle (mpu : Mpu) : Bool := ringbufEmpty mpu.sendQueue && ringbufEmpty mpu.recvQueue

/-- The inner loop of `mpu_task` as a loop over worlds: it leaves when both queues are
empty, or when a round does not come back. -/
def mpuDrainStep (w : World σ) : World σ ⊕ EStateM.Result Stop (World σ) Unit :=
  match w.mpu with
  | none => .inr (.error .null w)
  | some mpu =>
    if mpuIdle mpu then .inr (.ok () w)
    else
      match mpuTaskRound.run w with
      | .ok _ w' => .inl w'
      | .error e w' => .inr (.error e w')

end Umtp
