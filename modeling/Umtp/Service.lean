import Umtp.World

set_option autoImplicit false

namespace Umtp
open CheckedBuffer StateExcept

variable {σ : Type}

def serviceTypeGet (types : List (ServiceType σ)) (id : Int) : Option (ServiceType σ) :=
  types.find? (fun type => type.id == id)

theorem serviceTypeGet_id {types : List (ServiceType σ)} {id : Int} {type : ServiceType σ}
    (h : serviceTypeGet types id = some type) : type.id = id := by
  have := List.find?_some h
  simpa using this

theorem serviceTypeGet_mem {types : List (ServiceType σ)} {id : Int} {type : ServiceType σ}
    (h : serviceTypeGet types id = some type) : type ∈ types := List.mem_of_find?_eq_some h

/-- Where `sd->data` points: into the reply block, or into memory of the application. -/
inductive ReplyData where
  | block (off : Nat)
  | own (bytes : List UInt8)

structure ServiceData where
  serviceId : Int
  dataLen : UInt32
  data : ReplyData

def ReplyData.ptr (d : ReplyData) (blk : Buf UInt8 maxApdu) : Ptr :=
  match d with
  | .block off => ⟨.apduTransBlk, blk.cells, off⟩
  | .own bytes => ⟨.application, bytes, 0⟩

/-- What the handler stored from `sd->data` on reaches the reply block. -/
def storeReply (sd : ServiceData) (reply : ReqReply) : Proc σ ServiceData := do
  match sd.data with
  | .own _ => pure ()
  | .block off =>
    let stored ← memcpy .apduTransBlk (← get).apduTransBlk off
      ⟨.application, reply.stored, 0⟩ reply.stored.length
    modify fun w => { w with apduTransBlk := stored }
  return { sd with dataLen := reply.dataLen, data := reply.own.elim sd.data .own }

/-- The `uint32_t` length becomes the handler's `int` argument. -/
def handlerLen (dataLen : UInt32) : Int := dataLen.toInt32.toInt

theorem handlerLen_of_lt {dataLen : UInt32} (h : dataLen.toNat < 2 ^ 31) :
    handlerLen dataLen = dataLen.toNat := by
  show dataLen.toBitVec.toInt = _
  rw [BitVec.toInt_eq_toNat_of_lt]
  · rfl
  · show 2 * dataLen.toNat < 2 ^ 32
    omega

def serviceHandler (src : UmtpAddr) (sd : ServiceData) (data : Ptr) (dataLen : UInt32) :
    Proc σ (Int × ServiceData) := do
  if dataLen = 0 then
    return (-einval, sd)
  match serviceTypeGet (← get).services sd.serviceId with
  | none => return (-enoent, sd)
  | some type =>
    match type.reqHandler with
    | none => return (0, sd)
    | some reqHandler =>
      emit (.req type.id src data (handlerLen dataLen))
      let reply ← onApp (modifyGet fun s =>
        (reqHandler s src sd.serviceId data (handlerLen dataLen)).swap)
      let sd ← storeReply sd reply
      return (reply.status, sd)

def serviceRspHandler (src : UmtpAddr) (serviceId : Int)
    (session : Option (Fin maxUmtpSession × Session)) (data : Ptr) (dataLen : UInt32) :
    Proc σ Unit := do
  if dataLen = 0 then
    return
  match serviceTypeGet (← get).services serviceId with
  | none => return
  | some type =>
    match type.rspHandler with
    | none => return
    | some rspHandler =>
      emit (.rsp type.id src session data (handlerLen dataLen))
      onApp (modify fun s => rspHandler s src session data (handlerLen dataLen))

def serviceErrorHandler (src : UmtpAddr) (serviceId : Int) (status : Int)
    (session : Option (Fin maxUmtpSession × Session)) : Proc σ Unit := do
  match serviceTypeGet (← get).services serviceId with
  | none => return
  | some type =>
    match type.errorHandler with
    | none => return
    | some errorHandler =>
      emit (.error type.id src status session)
      onApp (modify fun s => errorHandler s src status session)

def serviceTimeoutHandler (dst : UmtpAddr) (serviceId : Int) (data : Ptr) (len : Int) :
    Proc σ Unit := do
  match serviceTypeGet (← get).services serviceId with
  | none => return
  | some type =>
    match type.timeoutHandler with
    | none => return
    | some timeoutHandler =>
      emit (.timeout type.id dst serviceId data len)
      onApp (modify fun s => timeoutHandler s dst serviceId data len)

theorem serviceRspHandler_callsOut (src : UmtpAddr) (serviceId : Int)
    (session : Option (Fin maxUmtpSession × Session)) (data : Ptr) (dataLen : UInt32) :
    Moves (@CallsOut σ (· = .rsp serviceId src session data (handlerLen dataLen)))
      (serviceRspHandler src serviceId session data dataLen) := by
  unfold serviceRspHandler
  split
  · exact moves_pure _
  · apply moves_bind moves_get
    intro w
    split
    · exact moves_pure _
    · rename_i type htype
      split
      · exact moves_pure _
      · rw [serviceTypeGet_id htype]
        exact moves_bind (emit_callsOut rfl) (fun _ => onApp_callsOut _ _)

theorem serviceErrorHandler_callsOut (src : UmtpAddr) (serviceId : Int) (status : Int)
    (session : Option (Fin maxUmtpSession × Session)) :
    Moves (@CallsOut σ (· = .error serviceId src status session))
      (serviceErrorHandler src serviceId status session) := by
  apply moves_bind moves_get
  intro w
  split
  · exact moves_pure _
  · rename_i type htype
    split
    · exact moves_pure _
    · rw [serviceTypeGet_id htype]
      exact moves_bind (emit_callsOut rfl) (fun _ => onApp_callsOut _ _)

theorem serviceTimeoutHandler_callsOut (dst : UmtpAddr) (serviceId : Int) (data : Ptr)
    (len : Int) :
    Moves (@CallsOut σ (· = .timeout serviceId dst serviceId data len))
      (serviceTimeoutHandler dst serviceId data len) := by
  apply moves_bind moves_get
  intro w
  split
  · exact moves_pure _
  · rename_i type htype
    split
    · exact moves_pure _
    · rw [serviceTypeGet_id htype]
      exact moves_bind (emit_callsOut rfl) (fun _ => onApp_callsOut _ _)

/-- The callback of a request that has run out: none without a registered handler. -/
def timeoutEvents (types : List (ServiceType σ)) (dst : UmtpAddr) (serviceId : Int) (data : Ptr)
    (len : Int) : List Event :=
  if ((serviceTypeGet types serviceId).bind ServiceType.timeoutHandler).isSome then
    [.timeout serviceId dst serviceId data len]
  else []

theorem serviceTimeoutHandler_run (dst : UmtpAddr) (serviceId : Int) (data : Ptr) (len : Int)
    (w : World σ) :
    ∃ app, (serviceTimeoutHandler dst serviceId data len).run w =
      .ok () { w with
        app, trace := w.trace ++ timeoutEvents w.services dst serviceId data len } := by
  cases hget : serviceTypeGet w.services serviceId with
  | none => exact ⟨w.app, by simp [serviceTimeoutHandler, timeoutEvents, hget]⟩
  | some type =>
    cases hf : type.timeoutHandler with
    | none => exact ⟨w.app, by simp [serviceTimeoutHandler, timeoutEvents, hget, hf]⟩
    | some f =>
      refine ⟨f w.app dst serviceId data len, ?_⟩
      simp [serviceTimeoutHandler, timeoutEvents, hget, hf, serviceTypeGet_id hget]

theorem serviceRspHandler_total (src : UmtpAddr) (serviceId : Int)
    (session : Option (Fin maxUmtpSession × Session)) (data : Ptr) (dataLen : UInt32) :
    Total (@serviceRspHandler σ src serviceId session data dataLen) := by
  unfold serviceRspHandler
  split
  · exact total_pure _
  · apply total_bind total_get
    intro w
    split
    · exact total_pure _
    · split
      · exact total_pure _
      · exact total_bind (emit_total _) (fun _ => onApp_modify_total _)

theorem serviceErrorHandler_total (src : UmtpAddr) (serviceId : Int) (status : Int)
    (session : Option (Fin maxUmtpSession × Session)) :
    Total (@serviceErrorHandler σ src serviceId status session) := by
  apply total_bind total_get
  intro w
  split
  · exact total_pure _
  · split
    · exact total_pure _
    · exact total_bind (emit_total _) (fun _ => onApp_modify_total _)

theorem serviceTimeoutHandler_total (dst : UmtpAddr) (serviceId : Int) (data : Ptr) (len : Int) :
    Total (@serviceTimeoutHandler σ dst serviceId data len) := by
  apply total_bind total_get
  intro w
  split
  · exact total_pure _
  · split
    · exact total_pure _
    · exact total_bind (emit_total _) (fun _ => onApp_modify_total _)

theorem storeReply_moves {R : World σ → World σ → Prop} [Std.Refl R] [IsTrans (World σ) R]
    (hblk : ∀ w b, R w { w with apduTransBlk := b }) (sd : ServiceData) (reply : ReqReply) :
    Moves R (storeReply sd reply) := by
  unfold storeReply
  split
  · exact moves_bind (moves_pure _) (fun _ => moves_pure _)
  · apply moves_bind moves_get
    intro w
    apply moves_bind (memcpy_moves _ _ _ _ _)
    intro stored
    exact moves_bind (moves_modify fun w => hblk w _) (fun _ => moves_pure _)

theorem serviceHandler_called {src : UmtpAddr} {sd : ServiceData} {data : Ptr} {dataLen : UInt32}
    {w : World σ} (hlen : dataLen ≠ 0) {type : ServiceType σ}
    (hget : serviceTypeGet w.services sd.serviceId = some type)
    {f : σ → UmtpAddr → Int → Ptr → Int → σ × ReqReply} (hf : type.reqHandler = some f) :
    (serviceHandler src sd data dataLen).run w =
      (do
        let reply ← onApp (modifyGet fun s =>
          (f s src sd.serviceId data (handlerLen dataLen)).swap)
        let sd ← storeReply sd reply
        return (reply.status, sd)).run
        { w with trace := w.trace ++ [Event.req sd.serviceId src data (handlerLen dataLen)] } := by
  simp [serviceHandler, hlen, hget, hf, serviceTypeGet_id hget]

theorem serviceHandler_moves {R : World σ → World σ → Prop} [Std.Refl R] [IsTrans (World σ) R]
    (src : UmtpAddr) (sd : ServiceData) (data : Ptr) (dataLen : UInt32)
    (hcall : ∀ w w', CallsOut (· = .req sd.serviceId src data (handlerLen dataLen)) w w' → R w w')
    (hblk : ∀ w b, R w { w with apduTransBlk := b }) :
    Moves R (serviceHandler src sd data dataLen) := by
  unfold serviceHandler
  split
  · exact moves_pure _
  · apply moves_bind moves_get
    intro w
    split
    · exact moves_pure _
    · rename_i type htype
      split
      · exact moves_pure _
      · rw [serviceTypeGet_id htype]
        apply moves_bind (Moves.weaken (emit_callsOut (by rfl)) hcall)
        intro _
        apply moves_bind (Moves.weaken (onApp_callsOut _ _) hcall)
        intro reply
        exact moves_bind (storeReply_moves hblk sd reply) (fun sd => moves_pure _)

end Umtp
