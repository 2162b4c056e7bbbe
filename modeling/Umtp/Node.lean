import Umtp.MpuTask
import Umtp.Request
import Umtp.DlUdp

/-! A node: the calls its threads make on the session table and the send queue, in any
order. `npdu_handler` is called by `umtp_task` or, for a queued message, by `mpu_task`. -/

set_option autoImplicit false

namespace Umtp
open CheckedBuffer StateExcept FiniteRun

variable {σ : Type}

inductive NodeCall where
  | submit (dst : UmtpAddr) (d : ApduData)
  | process (milliseconds : UInt16)
  | handle (src : UmtpAddr) (npdu : Ptr) (len : UInt16)
  | sendQueued

def NodeCall.exec (umtp : Ref) : NodeCall → Proc σ Unit
  | .submit dst d => do let _ ← umtpApduSubmit umtp dst (some d)
  | .process milliseconds => umtpSessionProcess milliseconds
  | .handle src npdu len => do let _ ← npduHandler umtp src npdu len
  | .sendQueued => mpuMsgHandle .send _umtpSendMsg

/-- `data_len` is within the array it counts the bytes of. -/
def NodeCall.Valid : NodeCall → Prop
  | .submit _ d => d.InRange
  | _ => True

def NodeStep (umtp : Ref) (w : World σ) (c : NodeCall) (w' : World σ) : Prop :=
  c.Valid ∧ (c.exec umtp).run w = .ok () w'

/-- A node after `umtp_start`, before its first call: over a link without an encryption
hook, with an mpu or, in sync mode, without. -/
structure World.Started (w : World σ) (host : Endian) (link : Dludp) (sendto : SendTo σ) :
    Prop where
  sessions : w.sessions = .init
  dl : w.dl = some (link.link host sendto)
  encrypt : link.encrypt = none
  mpu : w.mpu = none ∨ ∃ recvBuffer sendBuffer, w.mpu = some (mpuCreate recvBuffer sendBuffer)

abbrev Wire := List (SockAddr × List UInt8)

def wireSendto : SendTo Wire := fun wire dest bytes =>
  (wire ++ [(dest, bytes)], bytes.length, 0)

def startedNode : World Wire :=
  { World.init [] with
    dl := some (localLink.link .little wireSendto)
    mpu := some (mpuCreate (fun _ => .zero) (fun _ => .zero)) }

theorem startedNode_started : startedNode.Started .little localLink wireSendto :=
  ⟨rfl, rfl, rfl, .inr ⟨_, _, rfl⟩⟩

def zeroData (confirmed : Bool) (dataLen : Int) : ApduData :=
  ⟨5, confirmed, Buf.fill maxApdu 0, dataLen⟩

end Umtp
