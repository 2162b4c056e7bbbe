import Umtp.Kit.Lockstep
import Umtp.ReplyHandling
import Umtp.MpuDrain

/-! `npdu_handler` in sync mode and, side by side with it, in the mpu task. The two handle
messages that lie in different buffers, with different bytes behind them. -/

set_option autoImplicit false

namespace Umtp
open CheckedBuffer StateExcept

variable {σ : Type}

/-- The bytes a handler is told about, wherever they lie and whatever comes after them. -/
def Ptr.seen (p : Ptr) (len : Int) : Ptr := ⟨.application, p.bytes.take len.toNat, 0⟩

/-- A call as the one who is called sees it. -/
def Event.seen : Event → Event
  | .req service src data len => .req service src (data.seen len) len
  | .rsp service src session data len => .rsp service src session (data.seen len) len
  | .timeout service dst serviceId data len => .timeout service dst serviceId (data.seen len) len
  | e => e

/-- Handlers that look at nothing but their arguments and the bytes these lead to. -/
structure ServiceType.ReadsArgs (type : ServiceType σ) : Prop where
  req : ∀ f, type.reqHandler = some f → ∀ s src id data data' len,
    Ptr.seen data len = Ptr.seen data' len → f s src id data len = f s src id data' len
  rsp : ∀ g, type.rspHandler = some g → ∀ s src session data data' len,
    Ptr.seen data len = Ptr.seen data' len → g s src session data len = g s src session data' len

structure InStep (m : Mpu) (u v : World σ) : Prop where
  sync : u.syncMode = true
  async : v.syncMode = false
  mpu : v.mpu = some m
  sessions : v.sessions = u.sessions
  services : v.services = u.services
  transBlk : v.apduTransBlk = u.apduTransBlk
  dl : v.dl = u.dl
  app : v.app = u.app
  trace : v.trace.map Event.seen = u.trace.map Event.seen
  readsArgs : ∀ type ∈ u.services, type.ReadsArgs

variable {m : Mpu} {u v : World σ}

theorem InStep.setMpu (h : InStep m u v) (m' : Mpu) : InStep m' u { v with mpu := some m' } :=
  ⟨h.sync, h.async, rfl, h.sessions, h.services, h.transBlk, h.dl, h.app, h.trace, h.readsArgs⟩

theorem InStep.setTransBlk (h : InStep m u v) (blk : Buf UInt8 maxApdu) :
    InStep m { u with apduTransBlk := blk } { v with apduTransBlk := blk } :=
  ⟨h.sync, h.async, h.mpu, h.sessions, h.services, rfl, h.dl, h.app, h.trace, h.readsArgs⟩

theorem InStep.setSessions (h : InStep m u v) (s : SessionState) :
    InStep m { u with sessions := s } { v with sessions := s } :=
  ⟨h.sync, h.async, h.mpu, rfl, h.services, h.transBlk, h.dl, h.app, h.trace, h.readsArgs⟩

theorem InStep.setApp (h : InStep m u v) (app : σ) :
    InStep m { u with app } { v with app } :=
  ⟨h.sync, h.async, h.mpu, h.sessions, h.services, h.transBlk, h.dl, rfl, h.trace, h.readsArgs⟩

theorem InStep.setReads (h : InStep m u v) (is js : List Nat) :
    InStep m { u with reads := is } { v with reads := js } :=
  ⟨h.sync, h.async, h.mpu, h.sessions, h.services, h.transBlk, h.dl, h.app, h.trace, h.readsArgs⟩

theorem InStep.emit (h : InStep m u v) {e e' : Event} (he : e'.seen = e.seen) :
    InStep m { u with trace := u.trace ++ [e] } { v with trace := v.trace ++ [e'] } :=
  ⟨h.sync, h.async, h.mpu, h.sessions, h.services, h.transBlk, h.dl, h.app,
    by simp [h.trace, he], h.readsArgs⟩

theorem InStep.received (h : InStep m u v) (p p' : Ptr) (header : ApduHeader) :
    InStep m (u.received p header) (v.received p' header) := h.setReads _ _

def Same {α : Type} (m : Mpu) (P : α → Prop) (a : α) (u : World σ) (b : α) (v : World σ) : Prop :=
  a = b ∧ P a ∧ InStep m u v

section

variable {n : Nat} (hs : InStep m u v)

include hs

theorem memcpy_lockstep (store : Store) (dst : Buf UInt8 n) (off : Nat) (src : Ptr) (len : Nat) :
    Lockstep (Same m fun _ => off + len ≤ n) (memcpy store dst off src len)
      (memcpy store dst off src len) u v := by
  unfold memcpy
  by_cases hread : src.off + len ≤ src.obj.length
  · have hlen : (src.bytes.take len).length = len := by
      simp [Ptr.bytes]
      omega
    rw [if_pos hread]
    cases hw : dst.write off (src.bytes.take len) with
    | none => exact lockstep_throw _ _
    | some dst' =>
      have hfit := (Buf.write_some hw).1
      rw [hlen] at hfit
      exact lockstep_pure ⟨rfl, hfit, hs⟩
  · rw [if_neg hread]
    exact lockstep_throw _ _

theorem poke_lockstep (store : Store) (dst : Buf UInt8 n) (off : Nat) (x : UInt8) :
    Lockstep (Same m fun _ => off + 1 ≤ n) (poke store dst off x) (poke store dst off x) u v := by
  unfold poke
  cases hw : dst.write off [x] with
  | none => exact lockstep_throw _ _
  | some dst' => exact lockstep_pure ⟨rfl, (Buf.write_some hw).1, hs⟩

theorem onApp_lockstep {α : Type} (f : σ → α × σ) :
    Lockstep (Same m fun _ => True) (onApp (modifyGet f)) (onApp (modifyGet f)) u v := by
  refine lockstep_of_ok rfl rfl ⟨by rw [hs.app], trivial, ?_⟩
  rw [hs.app]
  exact hs.setApp _

theorem get_lockstep :
    Lockstep (fun a s b t => a = s ∧ b = t ∧ InStep m s t) (get : Proc σ (World σ)) get u v :=
  lockstep_get ⟨rfl, rfl, hs⟩

theorem storeBlk_lockstep (blk : Buf UInt8 maxApdu) :
    Lockstep (Same m fun _ => True) (modify fun w => { w with apduTransBlk := blk } : Proc σ PUnit)
      (modify fun w => { w with apduTransBlk := blk }) u v :=
  lockstep_modify ⟨rfl, trivial, hs.setTransBlk blk⟩

theorem readPdu_lockstep {p p' : Ptr} {i : Nat} {b : UInt8} (hp : p.get i = some b)
    (hp' : p'.get i = some b) :
    Lockstep (Same m fun _ => True) (readPdu p i) (readPdu p' i) u v := by
  have hu : (readPdu p i).run u = .ok b (u.read (p.off + i)) := by simp [readPdu, hp]
  have hv : (readPdu p' i).run v = .ok b (v.read (p'.off + i)) := by simp [readPdu, hp']
  exact lockstep_of_ok hu hv ⟨rfl, trivial, hs.setReads _ _⟩

theorem emit_lockstep {e e' : Event} (he : e'.seen = e.seen) :
    Lockstep (Same m fun _ => True) (emit e : Proc σ Unit) (emit e') u v :=
  lockstep_of_ok (emit_run e u) (emit_run e' v) ⟨rfl, trivial, hs.emit he⟩

theorem storeReply_lockstep (sd : ServiceData) (reply : ReqReply) :
    Lockstep (Same m fun _ => True) (storeReply sd reply) (storeReply sd reply) u v := by
  unfold storeReply
  cases sd.data with
  | own bytes => exact lockstep_pure ⟨rfl, trivial, hs⟩
  | block off =>
    apply (get_lockstep hs).bind
    rintro s _ t _ ⟨rfl, rfl, hs⟩
    simp only [hs.transBlk]
    apply (memcpy_lockstep hs _ _ _ _ _).bind
    rintro stored s _ t ⟨rfl, -, hs⟩
    apply (storeBlk_lockstep hs stored).bind
    rintro _ s _ t ⟨-, -, hs⟩
    exact lockstep_pure ⟨rfl, trivial, hs⟩

theorem serviceHandler_lockstep (src : UmtpAddr) (sd : ServiceData) {data data' : Ptr}
    {dataLen : UInt32} (hdata : data.seen (handlerLen dataLen) = data'.seen (handlerLen dataLen)) :
    Lockstep (Same m fun _ => True) (serviceHandler src sd data dataLen)
      (serviceHandler src sd data' dataLen) u v := by
  unfold serviceHandler
  split
  · exact lockstep_pure ⟨rfl, trivial, hs⟩
  · apply (get_lockstep hs).bind
    rintro s _ t _ ⟨rfl, rfl, hs⟩
    rw [hs.services]
    cases hget : serviceTypeGet s.services sd.serviceId with
    | none =>
      dsimp only
      exact lockstep_pure ⟨rfl, trivial, hs⟩
    | some type =>
      dsimp only
      cases hf : type.reqHandler with
      | none => exact lockstep_pure ⟨rfl, trivial, hs⟩
      | some f =>
        have hsame : (fun app => (f app src sd.serviceId data' (handlerLen dataLen)).swap) =
            fun app => (f app src sd.serviceId data (handlerLen dataLen)).swap := by
          funext app
          rw [(hs.readsArgs type (serviceTypeGet_mem hget)).req f hf _ _ _ data data' _ hdata]
        dsimp only
        rw [hsame]
        apply (emit_lockstep hs (by simp only [Event.seen, hdata])).bind
        rintro _ s _ t ⟨-, -, hs⟩
        apply (onApp_lockstep hs _).bind
        rintro reply s _ t ⟨rfl, -, hs⟩
        apply (storeReply_lockstep hs _ reply).bind
        rintro sd s _ t ⟨rfl, -, hs⟩
        exact lockstep_pure ⟨rfl, trivial, hs⟩

theorem serviceRspHandler_lockstep (src : UmtpAddr) (serviceId : Int)
    (session : Option (Fin maxUmtpSession × Session)) {data data' : Ptr} {dataLen : UInt32}
    (hdata : data.seen (handlerLen dataLen) = data'.seen (handlerLen dataLen)) :
    Lockstep (Same m fun _ => True) (serviceRspHandler src serviceId session data dataLen)
      (serviceRspHandler src serviceId session data' dataLen) u v := by
  unfold serviceRspHandler
  split
  · exact lockstep_pure ⟨rfl, trivial, hs⟩
  · apply (get_lockstep hs).bind
    rintro s _ t _ ⟨rfl, rfl, hs⟩
    rw [hs.services]
    cases hget : serviceTypeGet s.services serviceId with
    | none => exact lockstep_pure ⟨rfl, trivial, hs⟩
    | some type =>
      dsimp only
      cases hg : type.rspHandler with
      | none => exact lockstep_pure ⟨rfl, trivial, hs⟩
      | some g =>
        have hsame : (fun app => g app src session data' (handlerLen dataLen)) =
            fun app => g app src session data (handlerLen dataLen) := by
          funext app
          rw [(hs.readsArgs type (serviceTypeGet_mem hget)).rsp g hg _ _ _ data data' _ hdata]
        dsimp only
        rw [hsame]
        apply (emit_lockstep hs (by simp only [Event.seen, hdata])).bind
        rintro _ s _ t ⟨-, -, hs⟩
        exact onApp_lockstep hs _

theorem serviceErrorHandler_lockstep (src : UmtpAddr) (serviceId status : Int)
    (session : Option (Fin maxUmtpSession × Session)) :
    Lockstep (Same m fun _ => True) (serviceErrorHandler src serviceId status session)
      (serviceErrorHandler src serviceId status session) u v := by
  unfold serviceErrorHandler
  apply (get_lockstep hs).bind
  rintro s _ t _ ⟨rfl, rfl, hs⟩
  rw [hs.services]
  cases hget : serviceTypeGet s.services serviceId with
  | none => exact lockstep_pure ⟨rfl, trivial, hs⟩
  | some type =>
    dsimp only
    cases hg : type.errorHandler with
    | none => exact lockstep_pure ⟨rfl, trivial, hs⟩
    | some g =>
      apply (emit_lockstep hs rfl).bind
      rintro _ s _ t ⟨-, -, hs⟩
      exact onApp_lockstep hs _

theorem clearReplySession_lockstep (h : ApduHeader) :
    Lockstep (Same m fun _ => True) (clearReplySession h) (clearReplySession h) u v := by
  refine lockstep_of_ok (clearReplySession_run h u) (clearReplySession_run h v) ⟨rfl, trivial, ?_⟩
  rw [hs.sessions]
  exact hs.setSessions _

theorem encodeReplyHeader_lockstep (h : ApduHeader) (type : UInt8) :
    Lockstep (Same m fun n => 1 ≤ n ∧ n ≤ 4) (encodeReplyHeader h type) (encodeReplyHeader h type)
      u v := by
  unfold encodeReplyHeader
  apply (get_lockstep hs).bind
  rintro s _ t _ ⟨rfl, rfl, hs⟩
  rw [hs.transBlk]
  apply (poke_lockstep hs _ _ _ _).bind
  rintro blk s _ t ⟨rfl, -, hs⟩
  apply (poke_lockstep hs _ _ _ _).bind
  rintro blk s _ t ⟨rfl, -, hs⟩
  apply (poke_lockstep hs _ _ _ _).bind
  rintro blk s _ t ⟨rfl, -, hs⟩
  apply (storeBlk_lockstep hs blk).bind
  rintro _ s _ t ⟨-, -, hs⟩
  split
  · apply (poke_lockstep hs _ _ _ _).bind
    rintro blk s _ t ⟨rfl, -, hs⟩
    apply (storeBlk_lockstep hs blk).bind
    rintro _ s _ t ⟨-, -, hs⟩
    exact lockstep_pure ⟨rfl, by omega, hs⟩
  · exact lockstep_pure ⟨rfl, by omega, hs⟩

theorem encodeReplyBody_lockstep (ret : Int) (sd : ServiceData) {n : Nat} (hn : 1 ≤ n) :
    Lockstep (Same m fun len => 1 ≤ len.toNat ∧ len.toNat ≤ maxApdu) (encodeReplyBody ret sd n)
      (encodeReplyBody ret sd n) u v := by
  have hmax : maxApdu = 1024 := rfl
  have hlen : ∀ k, 1 ≤ k → k ≤ maxApdu →
      1 ≤ (UInt16.ofNat k).toNat ∧ (UInt16.ofNat k).toNat ≤ maxApdu := by
    intro k h1 hk
    rw [UInt16.toNat_ofNat', Nat.mod_eq_of_lt (by omega)]
    exact ⟨h1, hk⟩
  unfold encodeReplyBody
  apply (get_lockstep hs).bind
  rintro s _ t _ ⟨rfl, rfl, hs⟩
  simp only [hs.transBlk]
  split
  · apply (poke_lockstep hs _ _ _ _).bind
    rintro blk s _ t ⟨rfl, hfit, hs⟩
    apply (storeBlk_lockstep hs blk).bind
    rintro _ s _ t ⟨-, -, hs⟩
    exact lockstep_pure ⟨rfl, hlen _ (by omega) hfit, hs⟩
  · apply (memcpy_lockstep hs _ _ _ _ _).bind
    rintro blk s _ t ⟨rfl, hfit, hs⟩
    apply (storeBlk_lockstep hs blk).bind
    rintro _ s _ t ⟨-, -, hs⟩
    exact lockstep_pure ⟨rfl, hlen _ (by omega) hfit, hs⟩

theorem apduReply_lockstep (src : UmtpAddr) {apdu apdu' : Ptr} (pduLen : UInt16) (h : ApduHeader)
    (hdata : (apdu.add h.decodeLen).seen (handlerLen (restLen pduLen h.decodeLen)) =
      (apdu'.add h.decodeLen).seen (handlerLen (restLen pduLen h.decodeLen))) :
    Lockstep (Same m fun len => 1 ≤ len.toNat ∧ len.toNat ≤ maxApdu)
      (apduReply src apdu pduLen h) (apduReply src apdu' pduLen h) u v := by
  unfold apduReply
  apply (serviceHandler_lockstep hs src _ hdata).bind
  rintro ⟨ret, sd⟩ s _ t ⟨rfl, -, hs⟩
  apply (encodeReplyHeader_lockstep hs h _).bind
  rintro n s _ t ⟨rfl, ⟨hn, -⟩, hs⟩
  exact encodeReplyBody_lockstep hs ret sd hn

theorem apduSwitch_lockstep {umtp : Ref} (src : UmtpAddr) {apdu apdu' : Ptr} (pduLen : UInt16)
    {h : ApduHeader} (hreq : h.type ≠ umtpPduRequest)
    (hdata : (apdu.add h.decodeLen).seen (handlerLen (restLen pduLen h.decodeLen)) =
      (apdu'.add h.decodeLen).seen (handlerLen (restLen pduLen h.decodeLen)))
    (hstatus : h.type = umtpPduError →
      ∃ status, apdu.get h.decodeLen = some status ∧ apdu'.get h.decodeLen = some status) :
    Lockstep (Same m (· = 0)) (apduSwitch umtp src apdu pduLen h)
      (apduSwitch umtp src apdu' pduLen h) u v := by
  unfold apduSwitch
  rw [if_neg hreq, if_neg hreq]
  split
  · apply (get_lockstep hs).bind
    rintro s _ t _ ⟨rfl, rfl, hs⟩
    simp only [hs.sessions]
    apply (serviceRspHandler_lockstep hs src _ _ hdata).bind
    rintro _ s _ t ⟨-, -, hs⟩
    apply (clearReplySession_lockstep hs h).bind
    rintro _ s _ t ⟨-, -, hs⟩
    exact lockstep_pure ⟨rfl, rfl, hs⟩
  · split
    · rename_i herr
      obtain ⟨status, hget, hget'⟩ := hstatus herr
      apply (get_lockstep hs).bind
      rintro s _ t _ ⟨rfl, rfl, hs⟩
      simp only [hs.sessions]
      apply (readPdu_lockstep hs hget hget').bind
      rintro status s _ t ⟨rfl, -, hs⟩
      apply (serviceErrorHandler_lockstep hs src _ _ _).bind
      rintro _ s _ t ⟨-, -, hs⟩
      apply (clearReplySession_lockstep hs h).bind
      rintro _ s _ t ⟨-, -, hs⟩
      exact lockstep_pure ⟨rfl, rfl, hs⟩
    · apply (clearReplySession_lockstep hs h).bind
      rintro _ s _ t ⟨-, -, hs⟩
      exact lockstep_pure ⟨rfl, rfl, hs⟩

end

/-- Sending the packet brings the two in step again. -/
def Owes (pkt : Packet) (u v : World σ) : Prop :=
  ∀ slot m, ∃ v', (_umtpSendMsg slot pkt).run { v with mpu := some m } = .ok 0 v' ∧ InStep m u v'

/-- After a request has been handled: the one has sent its reply, the other has queued it. -/
def Queued (m : Mpu) (u v : World σ) : Prop :=
  ∃ ring pkt, v.mpu = some (m.setQueue .send ring) ∧ ring.Valid ∧ ring.contents = [pkt] ∧
    Owes pkt u v

theorem npduSend_accepted {umtp : Ref} (hu : umtp ≠ 0) {w : World σ} {dl : UmtpDl σ}
    (hdl : w.dl = some dl) (hlink : LinkAccepts dl) {data : Ptr} {msg : List UInt8}
    (hmsg : data.bytes.take msg.length = msg) (h1 : 1 ≤ msg.length) (hmax : msg.length ≤ maxApdu)
    (dst : UmtpAddr) :
    ∃ app, (dl.sendData dst ⟨.npduTmp, npduFrame msg, 0⟩ (1 + msg.length)).run w.app = .ok 0 app ∧
      (npduSend umtp dst data msg.length).run w =
        .ok 0 { w with
          app, trace := w.trace ++ [.send dst (fttpProtocolVersion :: msg)] } := by
  have hmaxApdu : (maxApdu : Int) = 1024 := rfl
  have hmaxNpdu : (maxNpdu : Int) = 1025 := rfl
  have hread : data.off + msg.length ≤ data.obj.length := by
    have hlen := congrArg List.length hmsg
    simp [Ptr.bytes] at hlen
    omega
  obtain ⟨app, happ⟩ := hlink w.app dst ⟨.npduTmp, npduFrame msg, 0⟩ (1 + msg.length) (by omega)
    (by omega) rfl (npduFrame_length hmax)
  have hrun := npduSend_run hu hdl (show 0 < (msg.length : Int) by omega) (by simpa using hread)
    (by omega) dst
  rw [Int.toNat_natCast, hmsg, sendData_run, happ] at hrun
  refine ⟨app, happ, ?_⟩
  rw [hrun, npduFrame_sent]

section

variable {umtp : Ref} (hu : umtp ≠ 0) (hs : InStep m u v) (hr : m.running = true)
  (hv : (m.queue .send).Valid) (hempty : (m.queue .send).contents = []) {dl : UmtpDl σ}
  (hdl : u.dl = some dl) (hlink : LinkAccepts dl)

include hu hs hr hv hempty hdl hlink

theorem _umtpApduSubmit_lockstep (src : UmtpAddr) {apdu : Ptr} {len : UInt16}
    (h1 : 1 ≤ len.toNat) (hmax : len.toNat ≤ maxApdu)
    (hread : apdu.off + len.toNat ≤ apdu.obj.length) :
    Lockstep (fun a s b t => a = 0 ∧ b = 0 ∧ Queued m s t) (_umtpApduSubmit umtp src apdu len.toNat)
      (_umtpApduSubmit umtp src apdu len.toNat) u v := by
  have hmaxApdu : maxApdu = 1024 := rfl
  have hmaxData : maxMpuData = 2000 := rfl
  obtain ⟨msg, hmsg⟩ : ∃ msg, msg = apdu.bytes.take len.toNat := ⟨_, rfl⟩
  have hlen : msg.length = len.toNat := by
    simp [hmsg, Ptr.bytes]
    omega
  obtain ⟨app, happ, hsent⟩ := npduSend_accepted hu hdl hlink (hlen ▸ hmsg.symm) (by omega)
    (by omega) src
  have hroom : (m.queue .send).size < maxPduCount := by
    rw [← RingBuffer.contents_length, hempty]
    decide
  obtain ⟨ring, pkt, hput, hvalid, -, hcont, hpl, hpb, hpa, hpd⟩ :=
    mpuPut_room src umtp hs.mpu hr hv hroom (show apdu.off + (len.toNat : Int).toNat ≤ _ from hread)
      (by simp; omega)
  rw [hempty, List.nil_append] at hcont
  have hpktLen : pkt.length.toNat = msg.length := by
    rw [hpl, uint16_ofInt_toNat (by omega) (by omega), hlen]
    simp
  have hpktMsg : pkt.buffer.cells.take msg.length = msg := by
    rw [hlen, hmsg]
    simpa using hpb
  have hsync : (_umtpApduSubmit umtp src apdu len.toNat).run u =
      (npduSend umtp src apdu msg.length).run u := by
    simp [_umtpApduSubmit, hu, hs.sync, hlen]
  have hasync : (_umtpApduSubmit umtp src apdu len.toNat).run v =
      (mpuPut .send src umtp apdu len.toNat).run v := by
    simp [_umtpApduSubmit, hu, hs.async, mpuPutSend]
  refine lockstep_of_ok (hsync.trans hsent) (hasync.trans hput) ⟨rfl, rfl, ring, pkt, ?_, hvalid,
    hcont, ?_⟩
  · simp [World.setQueue, hs.mpu]
  · intro slot m'
    -- the packet is sent from the mpu's buffer, which makes the same frame
    have hbytes : (⟨.mpuSend slot, pkt.buffer.cells, 0⟩ : Ptr).bytes.take msg.length = msg :=
      hpktMsg
    obtain ⟨app', happ', hsent'⟩ := npduSend_accepted
      (w := { v.setQueue .send ring with mpu := some m' }) hu (hs.dl.trans hdl) hlink hbytes
      (by omega) (by omega) src
    rw [show ({ v.setQueue .send ring with mpu := some m' } : World σ).app = u.app from hs.app,
      happ] at happ'
    cases happ'
    refine ⟨_, ?_, ((hs.setMpu m').setApp app).emit rfl⟩
    rw [_umtpSendMsg, hpktLen, hpa, hpd]
    exact hsent'

theorem apduRequest_lockstep (src : UmtpAddr) {apdu apdu' : Ptr} (pduLen : UInt16) (h : ApduHeader)
    (hdata : (apdu.add h.decodeLen).seen (handlerLen (restLen pduLen h.decodeLen)) =
      (apdu'.add h.decodeLen).seen (handlerLen (restLen pduLen h.decodeLen))) :
    Lockstep (fun a s b t => a = 0 ∧ b = 0 ∧ Queued m s t) (apduRequest umtp src apdu pduLen h)
      (apduRequest umtp src apdu' pduLen h) u v := by
  have hsetup : ∀ apdu, Moves (@SameSetup σ) (apduReply src apdu pduLen h) := fun apdu =>
    apduReply_moves (fun _ _ => ⟨rfl, rfl⟩) _ _ _ _ fun _ _ hc => hc.sameSetup
  unfold apduRequest
  apply ((apduReply_lockstep hs src pduLen h hdata).moves (hsetup apdu) (hsetup apdu')).bind
  rintro len s _ t ⟨⟨rfl, ⟨h1, hmax⟩, hs⟩, ⟨-, hdl'⟩, -⟩
  apply (lockstep_get (R := fun a s b t => a = s ∧ b = t ∧ InStep m s t ∧ s.dl = some dl)
    ⟨rfl, rfl, hs, hdl'.trans hdl⟩).bind
  rintro s _ t _ ⟨rfl, rfl, hs, hdl⟩
  rw [hs.transBlk]
  exact _umtpApduSubmit_lockstep hu hs hr hv hempty hdl hlink src h1 hmax
    (by simpa using hmax)

/-- A complete message is handled alike wherever it lies, but for a reply that is queued. -/
theorem npduHandler_lockstep (src : UmtpAddr) {p p' : Ptr} {h : ApduHeader} (hh : h.WellFormed)
    {body : List UInt8} (hp : fttpProtocolVersion :: (h.bytes ++ body) <+: p.bytes)
    (hp' : fttpProtocolVersion :: (h.bytes ++ body) <+: p'.bytes) {len : UInt16}
    (hlen : len.toNat = 1 + h.decodeLen + body.length)
    (hstatus : h.type = umtpPduError → body ≠ []) :
    Lockstep (fun _ s b t => b = 0 ∧ (InStep m s t ∨ Queued m s t)) (npduHandler umtp src p len)
      (npduHandler umtp src p' len) u v := by
  obtain ⟨hpayload, -, hcalled⟩ := message_payload hh hp hlen
  obtain ⟨hpayload', -, -⟩ := message_payload hh hp' hlen
  have hdata : ((p.add 1).add h.decodeLen).seen (handlerLen (restLen (len - 1) h.decodeLen)) =
      ((p'.add 1).add h.decodeLen).seen (handlerLen (restLen (len - 1) h.decodeLen)) := by
    rw [hcalled]
    simp [Ptr.seen, (List.prefix_iff_eq_take.mp hpayload).symm,
      (List.prefix_iff_eq_take.mp hpayload').symm]
  refine Lockstep.congr ?_ (npduHandler_message hu hh hp hlen src u)
    (npduHandler_message hu hh hp' hlen src v)
  have hreceived := hs.received p p' h
  by_cases hreq : h.type = umtpPduRequest
  · unfold apduSwitch
    rw [if_pos hreq, if_pos hreq]
    exact (apduRequest_lockstep hu hreceived hr hv hempty hdl hlink src (len - 1) h hdata).weaken
      fun _ _ _ _ hq => ⟨hq.2.1, .inr hq.2.2⟩
  · have hget : h.type = umtpPduError → ∃ status, (p.add 1).get h.decodeLen = some status ∧
        (p'.add 1).get h.decodeLen = some status := by
      intro herr
      obtain ⟨status, rest, rfl⟩ := List.exists_cons_of_ne_nil (hstatus herr)
      exact ⟨status, message_status hh hp hlen rfl, message_status hh hp' hlen rfl⟩
    apply (apduSwitch_lockstep hreceived src (len - 1) hreq hdata hget).weaken
    rintro a s b t ⟨rfl, rfl, hs⟩
    exact ⟨rfl, .inl hs⟩

end

end Umtp
