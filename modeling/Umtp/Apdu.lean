import Umtp.Mpu
import Umtp.Npdu
import Umtp.Service

/-! `apdu.c`: requests, replies and their sessions. -/

set_option autoImplicit false

namespace Umtp
open CheckedBuffer StateExcept

variable {σ : Type}

def umtpSessionIdMask : UInt8 := 1

def umtpPduRequest : UInt8 := 0
def umtpPduResponse : UInt8 := 1
def umtpPduError : UInt8 := 2
def umtpPduReject : UInt8 := 3
def umtpPduTypeMax : UInt8 := 4

def apduHasSessionId (apduFlag : UInt8) : Bool := apduFlag &&& umtpSessionIdMask != 0

def apduFlagSetSessionId (apduFlag : UInt8) : UInt8 := apduFlag ||| umtpSessionIdMask

def apduTimeoutHandler (dst : UmtpAddr) (apdu : Ptr) (apduLen : Int) : Proc σ Unit := do
  match apdu.get 2 with
  | none => throw (.overread apdu.store (apdu.off + 2))
  | some service => serviceTimeoutHandler dst service.toNat (apdu.add 4) (apduLen - 4)

def _umtpApduSubmit (umtp : Ref) (dst : UmtpAddr) (apdu : Ptr) (pduLen : Int) : Proc σ Int := do
  if umtp = 0 then
    throw .null
  if !(← get).syncMode then
    mpuPutSend dst umtp apdu pduLen
  else
    npduSend umtp dst apdu pduLen

/-- The header fields of a message, and `decode_len` after them. -/
structure ApduHeader where
  flag : UInt8
  type : UInt8
  service : UInt8
  sessionId : UInt8
  decodeLen : Nat

/-- The reads at the head of `apdu_handler`. -/
def apduDecode (apdu : Ptr) : Proc σ (Option ApduHeader) := do
  let flag ← readPdu apdu 0
  let type ← readPdu apdu 1
  if umtpPduTypeMax ≤ type then
    return none
  let service ← readPdu apdu 2
  if apduHasSessionId flag then
    let sessionId ← readPdu apdu 3
    return some ⟨flag, type, service, sessionId, 4⟩
  return some ⟨flag, type, service, 0, 3⟩

def apduHeaderLen (flag : UInt8) : Nat := if apduHasSessionId flag then 4 else 3

/-- `pdu_len - decode_len`, an `int` passed as `uint32_t` -/
def restLen (pduLen : UInt16) (decodeLen : Nat) : UInt32 :=
  UInt32.ofInt ((pduLen.toNat : Int) - decodeLen)

theorem restLen_toNat {pduLen : UInt16} {n : Nat} (hn : n ≤ pduLen.toNat) :
    (restLen pduLen n).toNat = pduLen.toNat - n := by
  have hlt := pduLen.toNat_lt
  simp [restLen, UInt32.ofInt]
  omega

/-- With the header inside the message, `pdu_len - decode_len` does not wrap. -/
theorem handlerLen_restLen {pduLen : UInt16} {n : Nat} (hn : n ≤ pduLen.toNat) :
    handlerLen (restLen pduLen n) = pduLen.toNat - n := by
  have hlt := pduLen.toNat_lt
  rw [handlerLen_of_lt, restLen_toNat hn]
  · omega
  · rw [restLen_toNat hn]
    omega

/-- The reply header, stored in front of what the handler has stored. -/
def encodeReplyHeader (h : ApduHeader) (type : UInt8) : Proc σ Nat := do
  let blk ← poke .apduTransBlk (← get).apduTransBlk 0 h.flag
  let blk ← poke .apduTransBlk blk 1 type
  let blk ← poke .apduTransBlk blk 2 h.service
  modify fun w => { w with apduTransBlk := blk }
  if apduHasSessionId h.flag then
    let blk ← poke .apduTransBlk blk 3 h.sessionId
    modify fun w => { w with apduTransBlk := blk }
    return 4
  return 3

/-- The reply body after the header; the result is `encode_len`, a `uint16_t`. -/
def encodeReplyBody (ret : Int) (sd : ServiceData) (encodeLen : Nat) : Proc σ UInt16 := do
  let blk := (← get).apduTransBlk
  if ret ≠ 0 then
    let blk ← poke .apduTransBlk blk encodeLen (UInt8.ofInt ret)
    modify fun w => { w with apduTransBlk := blk }
    return UInt16.ofNat (encodeLen + 1)
  let blk ← memcpy .apduTransBlk blk encodeLen (sd.data.ptr blk) sd.dataLen.toNat
  modify fun w => { w with apduTransBlk := blk }
  return UInt16.ofNat (encodeLen + sd.dataLen.toNat)

/-- `case UMTP_PDU_REQUEST` up to the submission: the reply is left in the reply block. -/
def apduReply (src : UmtpAddr) (apdu : Ptr) (pduLen : UInt16) (h : ApduHeader) :
    Proc σ UInt16 := do
  let sd : ServiceData := ⟨h.service.toNat, 0, .block h.decodeLen⟩
  let (ret, sd) ← serviceHandler src sd (apdu.add h.decodeLen) (restLen pduLen h.decodeLen)
  let encodeLen ← encodeReplyHeader h (if ret ≠ 0 then umtpPduError else umtpPduResponse)
  encodeReplyBody ret sd encodeLen

def apduRequest (umtp : Ref) (src : UmtpAddr) (apdu : Ptr) (pduLen : UInt16) (h : ApduHeader) :
    Proc σ Int := do
  let encodeLen ← apduReply src apdu pduLen h
  _umtpApduSubmit umtp src ⟨.apduTransBlk, (← get).apduTransBlk.cells, 0⟩ encodeLen.toNat

/-- The session a reply names, as it is when the handler gets the pointer. -/
def replySession (h : ApduHeader) (s : SessionState) : Option (Fin maxUmtpSession × Session) :=
  if apduHasSessionId h.flag then
    (umtpGetSession s h.sessionId).map (fun i => (i, s.session i))
  else none

def clearReplySession (h : ApduHeader) : Proc σ Unit :=
  if apduHasSessionId h.flag then
    sessionClear h.sessionId
  else pure ()

def apduResponse (src : UmtpAddr) (apdu : Ptr) (pduLen : UInt16) (h : ApduHeader) :
    Proc σ Int := do
  let session := replySession h (← get).sessions
  serviceRspHandler src h.service.toNat session (apdu.add h.decodeLen) (restLen pduLen h.decodeLen)
  clearReplySession h
  return 0

def apduError (src : UmtpAddr) (apdu : Ptr) (h : ApduHeader) : Proc σ Int := do
  let session := replySession h (← get).sessions
  let status ← readPdu apdu h.decodeLen
  serviceErrorHandler src h.service.toNat status.toNat session
  clearReplySession h
  return 0

/-- `switch (apdu_type)` -/
def apduSwitch (umtp : Ref) (src : UmtpAddr) (apdu : Ptr) (pduLen : UInt16) (h : ApduHeader) :
    Proc σ Int :=
  if h.type = umtpPduRequest then
    apduRequest umtp src apdu pduLen h
  else if h.type = umtpPduResponse then
    apduResponse src apdu pduLen h
  else if h.type = umtpPduError then
    apduError src apdu h
  else do
    clearReplySession h
    return 0

def apduHandler (umtp : Ref) (src : UmtpAddr) (apdu : Ptr) (pduLen : UInt16) : Proc σ Int := do
  if umtp = 0 then
    return -einval
  match ← apduDecode apdu with
  | none => return -eproto
  | some h => apduSwitch umtp src apdu pduLen h

structure ApduData where
  service : Int
  confirmed : Bool
  data : Buf UInt8 maxApdu
  dataLen : Int

/-- The loop around `umtp_free_session`: while the table is full it sleeps. -/
def awaitFreeSession : Proc σ UInt8 := do
  let id ← freeSession
  if id = 0 then
    throw .asleep
  return id

/-- The header of a request in `tmp`; the result is the array, the session id granted (or
0) and `encode_len`. -/
def encodeRequestHeader (d : ApduData) : Proc σ (Buf UInt8 maxApdu × UInt8 × Nat) := do
  let apduFlag := if d.confirmed then apduFlagSetSessionId 0 else 0
  let tmp ← poke .submitTmp (Buf.fill maxApdu 0) 0 apduFlag
  let tmp ← poke .submitTmp tmp 1 umtpPduRequest
  let tmp ← poke .submitTmp tmp 2 (UInt8.ofInt d.service)
  if apduHasSessionId apduFlag then
    let sessionId ← awaitFreeSession
    let tmp ← poke .submitTmp tmp 3 sessionId
    return (tmp, sessionId, 4)
  return (tmp, 0, 3)

def umtpApduSubmit (umtp : Ref) (dst : UmtpAddr) (apduData : Option ApduData) :
    Proc σ Int := do
  if umtp = 0 then
    return -einval
  match apduData with
  | none => return -einval
  | some d =>
    -- `sizeof(apdu_data->data)` is the size of the array, whatever `data_len` says.
    if maxApdu < d.data.cells.length then
      return -einval
    let (tmp, sessionId, encodeLen) ← encodeRequestHeader d
    let tmp ← memcpy .submitTmp tmp encodeLen ⟨.apduData, d.data.cells, 0⟩ (sizeT d.dataLen)
    let encodeLen : Int := encodeLen + d.dataLen
    let apdu : Ptr := ⟨.submitTmp, tmp.cells, 0⟩
    if d.confirmed then
      sessionSet sessionId (some .apduTimeoutHandler) umtp dst apdu (UInt16.ofInt encodeLen)
    _umtpApduSubmit umtp dst apdu encodeLen

section

variable {R : World σ → World σ → Prop} [Std.Refl R] [IsTrans (World σ) R]

theorem readPdu_moves {pdu : Ptr} {i : Nat} (hread : ∀ w, R w (w.read (pdu.off + i))) :
    Moves R (readPdu pdu i) := by
  apply moves_bind (moves_modify hread)
  intro _
  split
  · exact moves_pure _
  · exact moves_throw _

theorem apduDecode_moves (hreads : ∀ w i, R w (w.read i)) (apdu : Ptr) :
    Moves R (apduDecode apdu) := by
  apply moves_bind (readPdu_moves fun w => hreads w _)
  intro flag
  apply moves_bind (readPdu_moves fun w => hreads w _)
  intro type
  split
  · exact moves_pure _
  · apply moves_bind (readPdu_moves fun w => hreads w _)
    intro service
    split
    · exact moves_bind (readPdu_moves fun w => hreads w _) (fun _ => moves_pure _)
    · exact moves_pure _

theorem _umtpApduSubmit_moves (hsend : ∀ w w', CallsOut Event.IsSend w w' → R w w')
    (hqueue : ∀ w ring, R w (w.setQueue .send ring)) (umtp : Ref) (dst : UmtpAddr) (apdu : Ptr)
    (pduLen : Int) : Moves R (_umtpApduSubmit umtp dst apdu pduLen) := by
  have hlink : Moves R (do
      if !(← get).syncMode then
        mpuPutSend dst umtp apdu pduLen
      else
        npduSend umtp dst apdu pduLen) := by
    apply moves_bind moves_get
    intro w
    split
    · exact mpuPut_moves hqueue _ _ _ _
    · exact (npduSend_callsOut _ _ _ _).weaken hsend
  unfold _umtpApduSubmit
  split
  · exact moves_bind (moves_throw _) (fun _ => hlink)
  · exact hlink

theorem encodeReplyHeader_moves (hblk : ∀ w b, R w { w with apduTransBlk := b }) (h : ApduHeader)
    (type : UInt8) : Moves R (encodeReplyHeader h type) := by
  apply moves_bind moves_get
  intro w
  apply moves_bind (poke_moves _ _ _ _)
  intro blk
  apply moves_bind (poke_moves _ _ _ _)
  intro blk
  apply moves_bind (poke_moves _ _ _ _)
  intro blk
  apply moves_bind (moves_modify fun w => hblk w _)
  intro _
  split
  · apply moves_bind (poke_moves _ _ _ _)
    intro blk
    exact moves_bind (moves_modify fun w => hblk w _) (fun _ => moves_pure _)
  · exact moves_pure _

theorem encodeReplyBody_moves (hblk : ∀ w b, R w { w with apduTransBlk := b }) (ret : Int)
    (sd : ServiceData) (encodeLen : Nat) : Moves R (encodeReplyBody ret sd encodeLen) := by
  apply moves_bind moves_get
  intro w
  split
  · apply moves_bind (poke_moves _ _ _ _)
    intro blk
    exact moves_bind (moves_modify fun w => hblk w _) (fun _ => moves_pure _)
  · apply moves_bind (memcpy_moves _ _ _ _ _)
    intro blk
    exact moves_bind (moves_modify fun w => hblk w _) (fun _ => moves_pure _)

theorem apduReply_moves (hblk : ∀ w b, R w { w with apduTransBlk := b }) (src : UmtpAddr)
    (apdu : Ptr) (pduLen : UInt16) (h : ApduHeader)
    (hreq : ∀ w w', CallsOut (· = .req h.service.toNat src (apdu.add h.decodeLen)
      (handlerLen (restLen pduLen h.decodeLen))) w w' → R w w') :
    Moves R (apduReply src apdu pduLen h) := by
  apply moves_bind (serviceHandler_moves _ _ _ _ hreq hblk)
  rintro ⟨ret, sd⟩
  apply moves_bind (encodeReplyHeader_moves hblk _ _)
  intro encodeLen
  exact encodeReplyBody_moves hblk _ _ _

theorem apduRequest_moves (hsend : ∀ w w', CallsOut Event.IsSend w w' → R w w')
    (hqueue : ∀ w ring, R w (w.setQueue .send ring))
    (hblk : ∀ w b, R w { w with apduTransBlk := b }) (umtp : Ref) (src : UmtpAddr)
    (apdu : Ptr) (pduLen : UInt16) (h : ApduHeader)
    (hreq : ∀ w w', CallsOut (· = .req h.service.toNat src (apdu.add h.decodeLen)
      (handlerLen (restLen pduLen h.decodeLen))) w w' → R w w') :
    Moves R (apduRequest umtp src apdu pduLen h) := by
  apply moves_bind (apduReply_moves hblk _ _ _ _ hreq)
  intro encodeLen
  apply moves_bind moves_get
  intro w
  exact _umtpApduSubmit_moves hsend hqueue _ _ _ _

end

theorem clearReplySession_moves {R : World σ → World σ → Prop} [Std.Refl R]
    (hclear : ∀ w id, R w { w with sessions := umtpSessionClear id w.sessions }) (h : ApduHeader) :
    Moves R (clearReplySession h) := by
  unfold clearReplySession
  split
  · exact moves_modify fun w => hclear w _
  · exact moves_pure _

theorem clearReplySession_total (h : ApduHeader) : Total (@clearReplySession σ h) := by
  unfold clearReplySession
  split
  · exact total_modify _
  · exact total_pure _

/-- A relation that every part of the message handlers respects. -/
structure HandlerFrame (R : World σ → World σ → Prop) : Prop where
  refl : Std.Refl R
  trans : IsTrans (World σ) R
  callsOut : ∀ E w w', CallsOut E w w' → R w w'
  reads : ∀ w i, R w (w.read i)
  transBlk : ∀ w b, R w { w with apduTransBlk := b }
  clear : ∀ w id, R w { w with sessions := umtpSessionClear id w.sessions }
  send : ∀ w ring, R w (w.setQueue .send ring)

theorem apduSwitch_moves {R : World σ → World σ → Prop} (hR : HandlerFrame R) (umtp : Ref)
    (src : UmtpAddr) (apdu : Ptr) (pduLen : UInt16) (h : ApduHeader) :
    Moves R (apduSwitch umtp src apdu pduLen h) := by
  have := hR.refl
  have := hR.trans
  unfold apduSwitch
  split
  · exact apduRequest_moves (hR.callsOut _) hR.send hR.transBlk _ _ _ _ _ (hR.callsOut _)
  · split
    · apply moves_bind moves_get
      intro w
      apply moves_bind ((serviceRspHandler_callsOut _ _ _ _ _).weaken (hR.callsOut _))
      intro _
      exact moves_bind (clearReplySession_moves hR.clear h) (fun _ => moves_pure _)
    · split
      · apply moves_bind moves_get
        intro w
        apply moves_bind (readPdu_moves fun w => hR.reads w _)
        intro status
        apply moves_bind ((serviceErrorHandler_callsOut _ _ _ _).weaken (hR.callsOut _))
        intro _
        exact moves_bind (clearReplySession_moves hR.clear h) (fun _ => moves_pure _)
      · exact moves_bind (clearReplySession_moves hR.clear h) (fun _ => moves_pure _)

theorem apduHandler_moves {R : World σ → World σ → Prop} (hR : HandlerFrame R) (umtp : Ref)
    (src : UmtpAddr) (apdu : Ptr) (pduLen : UInt16) :
    Moves R (apduHandler umtp src apdu pduLen) := by
  have := hR.refl
  have := hR.trans
  unfold apduHandler
  split
  · exact moves_pure _
  · apply moves_bind (apduDecode_moves hR.reads _)
    intro header
    split
    · exact moves_pure _
    · exact apduSwitch_moves hR _ _ _ _ _

section

variable {apdu : Ptr} {flag type service sessionId : UInt8}

theorem apduDecode_known (h0 : apdu.get 0 = some flag) (h1 : apdu.get 1 = some type)
    (h2 : apdu.get 2 = some service) (ht : type < umtpPduTypeMax)
    (hid : if apduHasSessionId flag then apdu.get 3 = some sessionId else sessionId = 0)
    (w : World σ) :
    (apduDecode apdu).run w =
      .ok (some ⟨flag, type, service, sessionId, apduHeaderLen flag⟩)
        (w.readFirst apdu (apduHeaderLen flag)) := by
  have ht' : ¬ umtpPduTypeMax ≤ type := UInt8.not_le.mpr ht
  unfold apduDecode
  rw [readPdu_bind h0, readPdu_bind h1, if_neg ht', readPdu_bind h2]
  by_cases hflag : apduHasSessionId flag = true
  · rw [if_pos hflag] at hid
    rw [if_pos hflag, readPdu_bind hid]
    simp [apduHeaderLen, hflag, World.read, World.readFirst, List.range_succ]
  · rw [if_neg hflag] at hid
    simp [apduHeaderLen, hflag, hid, World.read, World.readFirst, List.range_succ]

theorem apduDecode_unknown (h0 : apdu.get 0 = some flag) (h1 : apdu.get 1 = some type)
    (ht : umtpPduTypeMax ≤ type) (w : World σ) :
    (apduDecode apdu).run w = .ok none (w.readFirst apdu 2) := by
  unfold apduDecode
  rw [readPdu_bind h0, readPdu_bind h1, if_pos ht]
  simp [World.read, World.readFirst, List.range_succ]

variable {umtp : Ref} (hu : umtp ≠ 0)

include hu

theorem apduHandler_known (h0 : apdu.get 0 = some flag) (h1 : apdu.get 1 = some type)
    (h2 : apdu.get 2 = some service) (ht : type < umtpPduTypeMax)
    (hid : if apduHasSessionId flag then apdu.get 3 = some sessionId else sessionId = 0)
    (src : UmtpAddr) (pduLen : UInt16) (w : World σ) :
    (apduHandler umtp src apdu pduLen).run w =
      (apduSwitch umtp src apdu pduLen
        ⟨flag, type, service, sessionId, apduHeaderLen flag⟩).run
        (w.readFirst apdu (apduHeaderLen flag)) := by
  unfold apduHandler
  rw [if_neg hu, EStateM.run_bind, apduDecode_known h0 h1 h2 ht hid]

theorem apduHandler_unknown (h0 : apdu.get 0 = some flag) (h1 : apdu.get 1 = some type)
    (ht : umtpPduTypeMax ≤ type) (src : UmtpAddr) (pduLen : UInt16) (w : World σ) :
    (apduHandler umtp src apdu pduLen).run w = .ok (-eproto) (w.readFirst apdu 2) := by
  unfold apduHandler
  rw [if_neg hu, EStateM.run_bind, apduDecode_unknown h0 h1 ht]
  rfl

end

end Umtp
