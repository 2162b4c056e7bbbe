import Umtp.DlUdp
import Umtp.Receive
import Umtp.SessionProcess

/-! `umtp_task`, the thread that receives datagrams and runs the session timers. -/

set_option autoImplicit false

namespace Umtp
open CheckedBuffer StateExcept

variable {σ : Type}

/-- The local variables that a round of the loop leaves to the next one. -/
structure TaskLocals where
  src : UmtpAddr
  buf : Buf UInt8 maxPdu
  lastSeconds : Int

def taskStart : TaskLocals := ⟨UmtpAddr.zero, Buf.fill maxPdu 0, 0⟩

/-- `if (len > 0)`: the message goes to the mpu or is handled at once. -/
def umtpTaskMessage (umtp : Ref) (src : UmtpAddr) (buf : Buf UInt8 maxPdu) (len : Int) :
    Proc σ Int := do
  let msg : Ptr := ⟨.taskBuf, buf.cells, 0⟩
  if !(← get).syncMode then
    mpuPutRecv src umtp msg len
  else
    npduHandler umtp src msg (UInt16.ofInt len)

/-- The body of the loop in `umtp_task`, in a round where `time` gives `now`; `none` is
the `break`. -/
def umtpTaskRound (umtp : Ref) (host : Endian) (dl : Dludp) (now : Int) (arrival : Arrival)
    (t : TaskLocals) : Proc σ (Option TaskLocals) := do
  let (len, src, buf) ← dludpRecvData host dl t.src t.buf maxPdu arrival
  if len < 0 ∧ len ≠ -etimedout then
    return none
  if 0 < len then
    let _ ← umtpTaskMessage umtp src buf len
  let elapsedSeconds := UInt32.ofInt (now - t.lastSeconds)
  if elapsedSeconds ≠ 0 then
    umtpSessionProcess (elapsedSeconds * 1000).toUInt16
    return some { src, buf, lastSeconds := now }
  return some { src, buf, lastSeconds := t.lastSeconds }

end Umtp
