import Umtp.Kit.StateExcept
import Umtp.RingBuf
import Umtp.Session

/-! The state of one process that uses the library: its static variables, its one
`struct umtp`, and the application and network around it. -/

set_option autoImplicit false

namespace Umtp
open CheckedBuffer StateExcept

structure Packet where
  length : UInt16
  buffer : Buf UInt8 maxMpuData
  addr : UmtpAddr
  data : Ref
  deriving DecidableEq

def Packet.zero : Packet := ⟨0, Buf.fill maxMpuData 0, UmtpAddr.zero, 0⟩

inductive QueueName where
  | recv
  | send
  deriving DecidableEq, Repr

structure Mpu where
  recvQueue : RingBuffer Packet maxPduCount
  sendQueue : RingBuffer Packet maxPduCount
  running : Bool

def Mpu.queue (m : Mpu) : QueueName → RingBuffer Packet maxPduCount
  | .recv => m.recvQueue
  | .send => m.sendQueue

def Mpu.setQueue (m : Mpu) (q : QueueName) (b : RingBuffer Packet maxPduCount) : Mpu :=
  match q with
  | .recv => { m with recvQueue := b }
  | .send => { m with sendQueue := b }

def QueueName.store : QueueName → Fin maxPduCount → Store
  | .recv => .mpuRecv
  | .send => .mpuSend

/-- What a request handler leaves behind: its result, the bytes it stored from `sd->data`
on, `sd->data_len`, and the application's own array if it made `sd->data` point there. -/
structure ReqReply where
  status : Int
  stored : List UInt8
  dataLen : UInt32
  own : Option (List UInt8)

/-- Handlers are code of the application. They read and change its state `σ`, and do not
call back into the library. -/
structure ServiceType (σ : Type) where
  id : Int
  reqHandler : Option (σ → UmtpAddr → Int → Ptr → Int → σ × ReqReply)
  rspHandler : Option (σ → UmtpAddr → Option (Fin maxUmtpSession × Session) → Ptr → Int → σ)
  errorHandler : Option (σ → UmtpAddr → Int → Option (Fin maxUmtpSession × Session) → σ)
  timeoutHandler : Option (σ → UmtpAddr → Int → Ptr → Int → σ)

def silentHandler {σ : Type} (s : σ) (_ : UmtpAddr) (_ : Int) (_ : Ptr) (_ : Int) : σ × ReqReply :=
  (s, ⟨0, [], 0, none⟩)

/-- The data link, with `send_data` closed over its own structure. -/
structure UmtpDl (σ : Type) where
  sendData : UmtpAddr → Ptr → Int → EStateM Stop σ Int

/-- The calls that leave the library. A callback carries the id of the service type whose
handler is called, and a session pointer the slot with its contents at the call. -/
inductive Event where
  | req (service : Int) (src : UmtpAddr) (data : Ptr) (len : Int)
  | rsp (service : Int) (src : UmtpAddr) (session : Option (Fin maxUmtpSession × Session))
      (data : Ptr) (len : Int)
  | error (service : Int) (src : UmtpAddr) (status : Int)
      (session : Option (Fin maxUmtpSession × Session))
  | timeout (service : Int) (dst : UmtpAddr) (serviceId : Int) (data : Ptr) (len : Int)
  | send (dst : UmtpAddr) (npdu : List UInt8)
  deriving DecidableEq

def Event.IsSend : Event → Prop
  | .send _ _ => True
  | _ => False

/-- `trace` and `reads` only observe: the calls out of the library, and the indexes at which
`npdu_handler` and `apdu_handler` have read the PDU given to them, oldest first. -/
structure World (σ : Type) where
  sessions : SessionState
  apduTimeout : UInt32
  apduRetry : UInt8
  services : List (ServiceType σ)
  apduTransBlk : Buf UInt8 maxApdu
  syncMode : Bool
  dl : Option (UmtpDl σ)
  mpu : Option Mpu
  app : σ
  trace : List Event
  reads : List Nat

/-- The static variables as the source initialises them, before any `struct umtp` is up. -/
def World.init {σ : Type} (app : σ) : World σ where
  sessions := .init
  apduTimeout := 3000
  apduRetry := 1
  services := []
  apduTransBlk := Buf.fill maxApdu 0
  syncMode := false
  dl := none
  mpu := none
  app
  trace := []
  reads := []

abbrev Proc (σ : Type) := EStateM Stop (World σ)

variable {σ α : Type}

def onSessions (x : EStateM Stop SessionState α) : Proc σ α := fun w =>
  match x.run w.sessions with
  | .ok a s => .ok a { w with sessions := s }
  | .error e s => .error e { w with sessions := s }

def onApp (x : EStateM Stop σ α) : Proc σ α := fun w =>
  match x.run w.app with
  | .ok a s => .ok a { w with app := s }
  | .error e s => .error e { w with app := s }

def freeSession : Proc σ UInt8 := modifyGet fun w =>
  ((umtpFreeSession w.apduTimeout w.sessions).2,
    { w with sessions := (umtpFreeSession w.apduTimeout w.sessions).1 })

def sessionSet (id : UInt8) (timeout : Option TimeoutFn) (data : Ref) (dest : UmtpAddr)
    (pdu : Ptr) (pduLen : UInt16) : Proc σ Unit := do
  onSessions (umtpSessionSet (← get).apduTimeout id timeout data dest pdu pduLen)

def sessionClear (id : UInt8) : Proc σ Unit :=
  modify fun w => { w with sessions := umtpSessionClear id w.sessions }

def emit (e : Event) : Proc σ Unit := modify fun w => { w with trace := w.trace ++ [e] }

def World.read (w : World σ) (i : Nat) : World σ := { w with reads := w.reads ++ [i] }

/-- `pdu[i]` on a message being handled. -/
def readPdu (pdu : Ptr) (i : Nat) : Proc σ UInt8 := do
  modify fun w => w.read (pdu.off + i)
  match pdu.get i with
  | some b => pure b
  | none => throw (.overread pdu.store (pdu.off + i))

def umtpMpu : Proc σ Mpu := do
  match (← get).mpu with
  | some mpu => pure mpu
  | none => throw .null

def World.setQueue (w : World σ) (q : QueueName) (b : RingBuffer Packet maxPduCount) : World σ :=
  { w with mpu := w.mpu.map (fun m => m.setQueue q b) }

@[simp] theorem onSessions_run (x : EStateM Stop SessionState α) (w : World σ) :
    (onSessions x).run w =
      match x.run w.sessions with
      | .ok a s => .ok a { w with sessions := s }
      | .error e s => .error e { w with sessions := s } := rfl

@[simp] theorem freeSession_run (w : World σ) :
    freeSession.run w = .ok (umtpFreeSession w.apduTimeout w.sessions).2
      { w with sessions := (umtpFreeSession w.apduTimeout w.sessions).1 } := rfl

@[simp] theorem sessionClear_run (id : UInt8) (w : World σ) :
    (sessionClear id).run w = .ok () { w with sessions := umtpSessionClear id w.sessions } := rfl

@[simp] theorem sessionSet_run (id : UInt8) (timeout : Option TimeoutFn) (data : Ref)
    (dest : UmtpAddr) (pdu : Ptr) (pduLen : UInt16) (w : World σ) :
    (sessionSet id timeout data dest pdu pduLen).run w =
      (onSessions (umtpSessionSet w.apduTimeout id timeout data dest pdu pduLen)).run w := rfl

@[simp] theorem onApp_run (x : EStateM Stop σ α) (w : World σ) :
    (onApp x).run w =
      match x.run w.app with
      | .ok a s => .ok a { w with app := s }
      | .error e s => .error e { w with app := s } := rfl

@[simp] theorem emit_run (e : Event) (w : World σ) :
    (emit e).run w = .ok () { w with trace := w.trace ++ [e] } := rfl

theorem readPdu_bind {pdu : Ptr} {i : Nat} {b : UInt8} (h : pdu.get i = some b)
    (f : UInt8 → Proc σ α) (w : World σ) :
    (readPdu pdu i >>= f).run w = (f b).run (w.read (pdu.off + i)) := by
  simp [readPdu, h]

def World.readFirst (w : World σ) (pdu : Ptr) (n : Nat) : World σ :=
  { w with reads := w.reads ++ (List.range n).map (pdu.off + ·) }

@[simp] theorem World.read_sessions (w : World σ) (i : Nat) : (w.read i).sessions = w.sessions :=
  rfl

@[simp] theorem World.read_app (w : World σ) (i : Nat) : (w.read i).app = w.app := rfl

@[simp] theorem World.read_trace (w : World σ) (i : Nat) : (w.read i).trace = w.trace := rfl

@[simp] theorem World.read_reads (w : World σ) (i : Nat) : (w.read i).reads = w.reads ++ [i] := rfl

@[simp] theorem World.readFirst_sessions (w : World σ) (pdu : Ptr) (n : Nat) :
    (w.readFirst pdu n).sessions = w.sessions := rfl

@[simp] theorem World.readFirst_trace (w : World σ) (pdu : Ptr) (n : Nat) :
    (w.readFirst pdu n).trace = w.trace := rfl

@[simp] theorem Mpu.queue_setQueue (m : Mpu) (q : QueueName)
    (b : RingBuffer Packet maxPduCount) : (m.setQueue q b).queue q = b := by
  cases q <;> rfl

theorem Mpu.queue_setQueue_ne (m : Mpu) {q q' : QueueName} (h : q' ≠ q)
    (b : RingBuffer Packet maxPduCount) : (m.setQueue q b).queue q' = m.queue q' := by
  cases q <;> cases q' <;> first | rfl | contradiction

@[simp] theorem Mpu.setQueue_running (m : Mpu) (q : QueueName)
    (b : RingBuffer Packet maxPduCount) : (m.setQueue q b).running = m.running := by
  cases q <;> rfl

/-- What a computation may change that only calls out of the library, with the calls it
makes all in `E`. -/
def CallsOut (E : Event → Prop) (w w' : World σ) : Prop :=
  ∃ es app, (∀ e ∈ es, E e) ∧ w' = { w with app, trace := w.trace ++ es }

instance (E : Event → Prop) : Std.Refl (@CallsOut σ E) := ⟨fun w => ⟨[], w.app, by simp⟩⟩

instance (E : Event → Prop) : IsTrans (World σ) (CallsOut E) where
  trans := by
    rintro w _ _ ⟨es, app, hes, rfl⟩ ⟨fs, app', hfs, rfl⟩
    refine ⟨es ++ fs, app', ?_, by simp⟩
    intro e he
    exact (List.mem_append.mp he).elim (hes e) (hfs e)

theorem emit_callsOut {E : Event → Prop} {e : Event} (he : E e) :
    Moves (CallsOut E) (emit e : Proc σ Unit) :=
  moves_modify fun w => ⟨[e], w.app, by simpa using he, rfl⟩

theorem onApp_callsOut (E : Event → Prop) (x : EStateM Stop σ α) :
    Moves (CallsOut E) (onApp x) := by
  constructor
  intro w
  rw [onApp_run]
  cases x.run w.app with
  | ok a s => exact ⟨[], s, by simp⟩
  | error e s => exact ⟨[], s, by simp⟩

theorem onSessions_final (x : EStateM Stop SessionState α) (w : World σ) :
    (final ((onSessions x).run w)).sessions = final (x.run w.sessions) := by
  rw [onSessions_run]
  cases x.run w.sessions <;> rfl

theorem CallsOut.mpu {E : Event → Prop} {w w' : World σ} (h : CallsOut E w w') :
    w'.mpu = w.mpu := by
  obtain ⟨es, app, -, rfl⟩ := h
  rfl

theorem emit_total (e : Event) : Total (emit e : Proc σ Unit) := total_modify _

theorem onApp_modify_total (f : σ → σ) : Total (onApp (modify f)) :=
  ⟨fun w => ⟨(), { w with app := f w.app }, rfl⟩⟩

theorem readPdu_total {pdu : Ptr} {i : Nat} {b : UInt8} (h : pdu.get i = some b) :
    Total (@readPdu σ pdu i) :=
  ⟨fun w => ⟨b, w.read (pdu.off + i), by simp [readPdu, h]⟩⟩

theorem CallsOut.sessions {E : Event → Prop} {w w' : World σ} (h : CallsOut E w w') :
    w'.sessions = w.sessions := by
  obtain ⟨es, app, -, rfl⟩ := h
  rfl

end Umtp
