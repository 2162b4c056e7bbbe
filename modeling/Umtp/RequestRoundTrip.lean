import Umtp.Message
import Umtp.Node
import Umtp.ParserBounds
import Umtp.Task

set_option autoImplicit false

namespace Umtp
open CheckedBuffer StateExcept

variable {σ τ : Type}

def ApduData.datagram (d : ApduData) (id : UInt8) : List UInt8 :=
  umtpSignature :: fttpProtocolVersion :: d.apdu id

def ApduData.requestHeader (d : ApduData) (id : UInt8) : ApduHeader :=
  ⟨d.flag, umtpPduRequest, d.serviceByte, if d.confirmed then id else 0, d.headerLen⟩

/-- `x` hands exactly one datagram to the network. -/
def Emits (sendto : SendTo σ) (dest : SockAddr) (bytes : List UInt8) (x : Proc σ Int)
    (w w' : World σ) : Prop :=
  ∃ r, x.run w = .ok r w' ∧ w'.app = (sendto w.app dest bytes).1

theorem ApduData.apduHasSessionId_flag (d : ApduData) : apduHasSessionId d.flag = d.confirmed := by
  unfold flag
  cases d.confirmed <;> decide

theorem ApduData.requestHeader_wellFormed (d : ApduData) (id : UInt8) :
    (d.requestHeader id).WellFormed where
  decodeLen := by
    simp [requestHeader, headerLen, apduHeaderLen, d.apduHasSessionId_flag]
  type := show umtpPduRequest < umtpPduTypeMax by decide
  sessionId h := by
    have hc : d.confirmed = false := by
      rw [← d.apduHasSessionId_flag]
      exact h
    simp [requestHeader, hc]

theorem ApduData.requestHeader_bytes (d : ApduData) (id : UInt8) :
    (d.requestHeader id).bytes = d.header id := by
  cases hc : d.confirmed <;>
    simp [ApduHeader.bytes, ApduHeader.reply, requestHeader, d.apduHasSessionId_flag, header, hc]

theorem ApduData.serviceByte_mod (d : ApduData) : (d.serviceByte.toNat : Int) = d.service % 256 :=
  uint8_ofInt_toNat d.service

section

variable {host : Endian} {link : Dludp} {sendto : SendTo σ} {umtp : Ref} (hu : umtp ≠ 0)
  {w : World σ} (hdl : w.dl = some (link.link host sendto)) (henc : link.encrypt = none)
  (hup : 0 ≤ link.socket) (dst : UmtpAddr)

include hu hdl henc hup

theorem npduSend_emits {data : Ptr} {apdu : List UInt8} (hpos : 0 < apdu.length)
    (hlen : apdu.length ≤ maxApdu) (hp : apdu <+: data.bytes) :
    ∃ w', Emits sendto (dludpDest host link dst) (umtpSignature :: fttpProtocolVersion :: apdu)
        (npduSend umtp dst data apdu.length) w w' ∧ CallsOut Event.IsSend w w' := by
  have hmax : maxApdu = 1024 := rfl
  have hpdu : (maxPdu : Int) = 2049 := rfl
  have htake : data.bytes.take apdu.length = apdu := (List.prefix_iff_eq_take.mp hp).symm
  have hread : data.off + ((apdu.length : Int)).toNat ≤ data.obj.length := by
    have := hp.length_le
    simp [Ptr.bytes] at this ⊢
    omega
  have hframe : (npduFrame apdu).length = maxNpdu := npduFrame_length hlen
  have hnpdu : maxNpdu = 1025 := rfl
  rcases hsend : sendto w.app (dludpDest host link dst)
    (umtpSignature :: fttpProtocolVersion :: apdu) with ⟨app, bytesSent, errno⟩
  have hlink : (dludpSendData host link sendto dst ⟨.npduTmp, npduFrame apdu, 0⟩
      (1 + (apdu.length : Int))).run w.app =
        .ok (if bytesSent ≠ 1 + (apdu.length : Int) + 1 then -errno else 0) app :=
    dludpSendData_run hup henc (by omega) (by omega) (by simp [hframe]; omega)
      (by rw [npduFrame_sent]; exact hsend)
  have hrun := npduSend_run hu hdl (show 0 < (apdu.length : Int) by omega) hread (by omega) dst
  rw [Int.toNat_natCast, htake, sendData_run, Dludp.link, hlink] at hrun
  exact ⟨_, ⟨_, hrun, (congrArg Prod.fst hsend).symm⟩,
    (npduSend_callsOut umtp dst data apdu.length).of_ok hrun⟩

end

/-- What a submission does to the table: a confirmed request gets a free slot, which keeps
its bytes and destination. -/
def StoresRequest (umtp : Ref) (dst : UmtpAddr) (d : ApduData) (w w' : World σ) : Prop :=
  if d.confirmed then
    w.grantedId d ≠ 0 ∧ ∃ i, (w.sessions.session i).sessionId = 0 ∧
      (w'.sessions.session i).Awaits umtp dst (w.grantedId d) w.apduTimeout
        (d.apdu (w.grantedId d)) ∧
      ∀ j, j ≠ i → w'.sessions.session j = w.sessions.session j
  else w'.sessions = w.sessions

section

variable {umtp : Ref} (hu : umtp ≠ 0) {w : World σ} {d : ApduData} (dst : UmtpAddr)
  (hg : w.Grants d) (hd : d.InRange) (hfits : d.Fits)

include hu hg hd hfits

theorem umtpApduSubmit_stored :
    ∃ s, StoresRequest umtp dst d w { w with sessions := s } ∧
      ∃ tmp : Buf UInt8 maxApdu, d.apdu (w.grantedId d) <+: tmp.cells ∧
        (umtpApduSubmit umtp dst (some d)).run w =
          (_umtpApduSubmit umtp dst ⟨.submitTmp, tmp.cells, 0⟩
            (d.apdu (w.grantedId d)).length).run { w with sessions := s } := by
  cases hc : d.confirmed with
  | false =>
    obtain ⟨tmp, htmp, hrun⟩ := umtpApduSubmit_unconfirmed hu dst hg hd hfits hc
    have hid : w.grantedId d = 0 := by simp [World.grantedId, hc]
    refine ⟨w.sessions, by simp [StoresRequest, hc], tmp, ?_, by rw [hid]; exact hrun⟩
    rw [hid, List.prefix_iff_eq_take]
    exact htmp.symm
  | true =>
    obtain ⟨i, x, c, tmp, hfree, hne, -, hx, htmp, hrun⟩ :=
      umtpApduSubmit_confirmed hu dst hg hd hfits hc
    refine ⟨_, ?_, tmp, List.prefix_iff_eq_take.mpr htmp.symm, hrun⟩
    rw [StoresRequest, if_pos hc]
    refine ⟨hne, i, hfree, ?_, fun j hj => ?_⟩
    · simpa using hx
    · exact w.sessions.modifySlot_other hj (fun _ => x)

variable {host : Endian} {link : Dludp} {sendto : SendTo σ}
  (hdl : w.dl = some (link.link host sendto)) (henc : link.encrypt = none) (hup : 0 ≤ link.socket)

include hdl henc hup

theorem umtpApduSubmit_sync (hsync : w.syncMode = true) :
    ∃ w', Emits sendto (dludpDest host link dst) (d.datagram (w.grantedId d))
        (umtpApduSubmit umtp dst (some d)) w w' ∧ StoresRequest umtp dst d w w' := by
  obtain ⟨s, hstores, tmp, htmp, hrun⟩ := umtpApduSubmit_stored hu dst hg hd hfits
  have hlen := d.apdu_length hd (w.grantedId d)
  have hhead := d.headerLen_le
  have h0 := hd.1
  unfold ApduData.Fits at hfits
  obtain ⟨w', ⟨r, hsend, happ⟩, hcalls⟩ := npduSend_emits (w := { w with sessions := s }) hu hdl
    henc hup dst (show 0 < (d.apdu (w.grantedId d)).length by omega) (by omega)
    (show d.apdu (w.grantedId d) <+: (⟨.submitTmp, tmp.cells, 0⟩ : Ptr).bytes by
      simpa [Ptr.bytes] using htmp)
  refine ⟨w', ⟨r, ?_, happ⟩, ?_⟩
  · rw [hrun]
    simpa [_umtpApduSubmit, hu, hsync] using hsend
  · have hs := hcalls.sessions
    unfold StoresRequest at hstores ⊢
    rw [hs]
    exact hstores

theorem umtpApduSubmit_async (hasync : w.syncMode = false) {m : Mpu} (hm : w.mpu = some m)
    (hrun : m.running = true) (hv : (m.queue .send).Valid)
    (hroom : (m.queue .send).size < maxPduCount) :
    ∃ w' ring pkt, (umtpApduSubmit umtp dst (some d)).run w = .ok 0 w' ∧
      w'.mpu = some (m.setQueue .send ring) ∧ w'.app = w.app ∧
      ring.contents = (m.queue .send).contents ++ [pkt] ∧ StoresRequest umtp dst d w w' ∧
      ∀ slot v, v.dl = w.dl → ∃ v', Emits sendto (dludpDest host link dst)
        (d.datagram (w.grantedId d)) (_umtpSendMsg slot pkt) v v' := by
  obtain ⟨s, hstores, tmp, htmp, hsubmit⟩ := umtpApduSubmit_stored hu dst hg hd hfits
  have hlen := d.apdu_length hd (w.grantedId d)
  have hhead := d.headerLen_le
  have h0 := hd.1
  have hmax : maxApdu = 1024 := rfl
  have hdata : maxMpuData = 2000 := rfl
  unfold ApduData.Fits at hfits
  have hread : (⟨.submitTmp, tmp.cells, 0⟩ : Ptr).off +
      ((d.apdu (w.grantedId d)).length : Int).toNat ≤ tmp.cells.length := by
    simp
    omega
  obtain ⟨ring, pkt, hput, -, -, hcont, hpl, hpb, hpa, hpd⟩ :=
    mpuPut_room (q := .send) (w := { w with sessions := s }) dst umtp hm hrun hv hroom hread
      (by simp; omega)
  refine ⟨({ w with sessions := s } : World σ).setQueue .send ring, ring, pkt, ?_, ?_, rfl, hcont,
    ?_, ?_⟩
  · rw [hsubmit]
    simpa [_umtpApduSubmit, hu, hasync, mpuPutSend] using hput
  · simp [World.setQueue, hm]
  · exact hstores
  · intro slot v hvdl
    have hshort := uint16_ofInt_toNat
      (show 0 ≤ ((d.apdu (w.grantedId d)).length : Int) by omega) (by omega)
    rw [Int.toNat_natCast] at hpb hshort
    have hbuf : d.apdu (w.grantedId d) <+: pkt.buffer.cells := by
      rw [List.prefix_iff_eq_take, hpb]
      simpa [Ptr.bytes] using List.prefix_iff_eq_take.mp htmp
    obtain ⟨v', hemit, -⟩ := npduSend_emits hu (hvdl.trans hdl) henc hup dst
      (show 0 < (d.apdu (w.grantedId d)).length by omega) (by omega)
      (show d.apdu (w.grantedId d) <+: (⟨.mpuSend slot, pkt.buffer.cells, 0⟩ : Ptr).bytes by
        simpa [Ptr.bytes] using hbuf)
    refine ⟨v', ?_⟩
    rw [_umtpSendMsg, hpd, hpa, hpl, hshort]
    exact hemit

end

/-- The handler of `service` is called once, with these bytes, and no other handler is. -/
def CallsRequest (service : Int) (src : UmtpAddr) (payload : List UInt8) (w w' : World σ) : Prop :=
  ∃ data es, w'.trace = w.trace ++ .req service src data payload.length :: es ∧
    data.bytes.take payload.length = payload ∧ ∀ e ∈ es, e.IsSend

theorem apduRequest_rest (umtp : Ref) (src : UmtpAddr) (h : ApduHeader) (ret : Int)
    (sd : ServiceData) : Moves (@Within τ 0 Event.IsSend) (do
      let n ← (do
        let encodeLen ← encodeReplyHeader h (if ret ≠ 0 then umtpPduError else umtpPduResponse)
        encodeReplyBody ret sd encodeLen)
      _umtpApduSubmit umtp src ⟨.apduTransBlk, (← get).apduTransBlk.cells, 0⟩ n.toNat) := by
  have hblk : ∀ (w : World τ) b, Within 0 Event.IsSend w { w with apduTransBlk := b } :=
    fun _ _ => within_of_eq rfl rfl
  apply moves_bind
    (moves_bind (encodeReplyHeader_moves hblk h _) (encodeReplyBody_moves hblk ret sd))
  intro n
  apply moves_bind moves_get
  intro w
  exact _umtpApduSubmit_moves (fun _ _ hc => hc.within fun _ => id)
    (fun _ _ => within_of_eq rfl rfl) _ _ _ _

section

variable {v : World τ} {type : ServiceType τ} {h : ApduHeader} (src : UmtpAddr) (apdu : Ptr)
  {pduLen : UInt16} (hget : serviceTypeGet v.services h.service.toNat = some type)
  {f : τ → UmtpAddr → Int → Ptr → Int → τ × ReqReply} (hf : type.reqHandler = some f)
  (hrest : restLen pduLen h.decodeLen ≠ 0)

include hget hf hrest

/-- However the reply fares, the call has been made before, and only sends come after. -/
theorem apduRequest_calls (umtp : Ref) :
    ∃ es, (final ((apduRequest umtp src apdu pduLen h).run v)).trace = v.trace ++
        .req h.service.toNat src (apdu.add h.decodeLen)
          (handlerLen (restLen pduLen h.decodeLen)) :: es ∧
      ∀ e ∈ es, e.IsSend := by
  have hblk : ∀ (w : World τ) b, Within 0 Event.IsSend w { w with apduTransBlk := b } :=
    fun _ _ => within_of_eq rfl rfl
  have hsend : ∀ w w' : World τ, CallsOut Event.IsSend w w' → Within 0 Event.IsSend w w' :=
    fun _ _ hc => hc.within fun _ => id
  have hafter : Within 0 Event.IsSend
      { v with trace := v.trace ++ [Event.req h.service.toNat src (apdu.add h.decodeLen)
        (handlerLen (restLen pduLen h.decodeLen))] }
      (final ((apduRequest umtp src apdu pduLen h).run v)) := by
    unfold apduRequest apduReply
    rw [bind_assoc, EStateM.run_bind, serviceHandler_called hrest hget hf, ← EStateM.run_bind]
    apply Moves.rel
    apply moves_bind
    · apply moves_bind ((onApp_callsOut _ _).weaken hsend)
      intro reply
      exact moves_bind (storeReply_moves hblk _ reply) (fun _ => moves_pure _)
    · rintro ⟨ret, sd⟩
      exact apduRequest_rest umtp src h ret sd
  obtain ⟨is, es, -, hes, -, htrace⟩ := hafter
  exact ⟨es, by simpa using htrace, hes⟩

end

theorem apduRequest_uncalled {v : World τ} {h : ApduHeader} {src : UmtpAddr} {apdu : Ptr}
    {pduLen : UInt16} {r : Int × ServiceData}
    (hservice : (serviceHandler src ⟨h.service.toNat, 0, .block h.decodeLen⟩
      (apdu.add h.decodeLen) (restLen pduLen h.decodeLen)).run v = .ok r v) (umtp : Ref) :
    ∃ es, (final ((apduRequest umtp src apdu pduLen h).run v)).trace = v.trace ++ es ∧
      ∀ e ∈ es, e.IsSend := by
  have hafter : Within 0 Event.IsSend v (final ((apduRequest umtp src apdu pduLen h).run v)) := by
    unfold apduRequest apduReply
    rw [bind_assoc, EStateM.run_bind, hservice]
    exact (apduRequest_rest umtp src h r.1 r.2).rel v
  obtain ⟨is, es, -, hes, -, htrace⟩ := hafter
  exact ⟨es, htrace, hes⟩

/-- The APDU submitted in reply, if the handler comes to that, has `id` where a session id is. -/
def EchoesId (umtp : Ref) (src : UmtpAddr) (id : UInt8) (x : Proc σ Int) (v : World σ) : Prop :=
  ∀ r v', x.run v = .ok r v' → ∃ n u, 4 ≤ n ∧ u.apduTransBlk.cells[3]? = some id ∧
    x.run v = (_umtpApduSubmit umtp src ⟨.apduTransBlk, u.apduTransBlk.cells, 0⟩ (n : Nat)).run u

theorem apduRequest_echoes {h : ApduHeader} (hh : h.WellFormed)
    (hflag : apduHasSessionId h.flag = true) (umtp : Ref) (src : UmtpAddr) (apdu : Ptr)
    (pduLen : UInt16) (v : World τ) :
    EchoesId umtp src h.sessionId (apduRequest umtp src apdu pduLen h) v := by
  intro r v' hrun
  have hl : h.decodeLen = 4 := by simp [hh.decodeLen, apduHeaderLen, hflag]
  cases hreply : (apduReply src apdu pduLen h).run v with
  | error e u =>
    rw [apduRequest, EStateM.run_bind, hreply] at hrun
    cases hrun
  | ok n u =>
    obtain ⟨type, htake, hn⟩ := apduReply_header hh.decodeLen hreply
    rw [hl] at htake hn
    refine ⟨n.toNat, u, hn, ?_, ?_⟩
    · have hid := congrArg (fun l => l[3]?) htake
      simpa [ApduHeader.reply, hflag] using hid
    · rw [apduRequest, EStateM.run_bind, hreply]
      rfl

section

variable {umtp : Ref} (hu : umtp ≠ 0) {d : ApduData} {id : UInt8} (hd : d.InRange) {p : Ptr}
  (hp : fttpProtocolVersion :: d.apdu id <+: p.bytes) {len : UInt16}
  (hlen : len.toNat = 1 + (d.apdu id).length)

include hd hp hlen

theorem requestHeader_message :
    fttpProtocolVersion :: ((d.requestHeader id).bytes ++ d.payload) <+: p.bytes ∧
      len.toNat = 1 + (d.requestHeader id).decodeLen + d.payload.length := by
  have hcount := d.apdu_length hd id
  have hpay := d.payload_length hd
  refine ⟨?_, ?_⟩
  · rw [d.requestHeader_bytes]
    exact hp
  · simp only [ApduData.requestHeader]
    omega

include hu

theorem npduHandler_request (src : UmtpAddr) (v : World τ) :
    (npduHandler umtp src p len).run v =
      (apduRequest umtp src (p.add 1) (len - 1) (d.requestHeader id)).run
        (v.received p (d.requestHeader id)) := by
  obtain ⟨hmsg, hcount⟩ := requestHeader_message hd hp hlen
  rw [npduHandler_message hu (d.requestHeader_wellFormed id) hmsg hcount]
  rfl

theorem npduHandler_echoes (hc : d.confirmed = true) (src : UmtpAddr) (v : World τ) :
    EchoesId umtp src id (npduHandler umtp src p len) v := by
  have hrun := npduHandler_request hu hd hp hlen src v
  have hflag : apduHasSessionId (d.requestHeader id).flag = true :=
    d.apduHasSessionId_flag.trans hc
  have hid : (d.requestHeader id).sessionId = id := by simp [ApduData.requestHeader, hc]
  have hecho := apduRequest_echoes (d.requestHeader_wellFormed id) hflag umtp src (p.add 1) (len - 1)
    (v.received p (d.requestHeader id))
  rw [hid] at hecho
  unfold EchoesId at hecho ⊢
  rw [hrun]
  exact hecho

theorem npduHandler_routed (hpos : 1 ≤ d.dataLen) {v : World τ} {type : ServiceType τ}
    (hget : serviceTypeGet v.services (d.service % 256) = some type)
    {f : τ → UmtpAddr → Int → Ptr → Int → τ × ReqReply} (hf : type.reqHandler = some f)
    (src : UmtpAddr) :
    CallsRequest (d.service % 256) src d.payload v
      (final ((npduHandler umtp src p len).run v)) := by
  obtain ⟨hmsg, hcount⟩ := requestHeader_message hd hp hlen
  obtain ⟨hpayload, hrest, hcalled⟩ := message_payload (d.requestHeader_wellFormed id) hmsg hcount
  have hpay := d.payload_length hd
  have hservice : ((d.requestHeader id).service.toNat : Int) = d.service % 256 := d.serviceByte_mod
  have hne : restLen (len - 1) (d.requestHeader id).decodeLen ≠ 0 := by
    intro hz
    rw [hz] at hrest
    simp at hrest
    omega
  have hreceived : serviceTypeGet (v.received p (d.requestHeader id)).services
      (d.requestHeader id).service.toNat = some type := by
    rwa [hservice]
  obtain ⟨es, htrace, hes⟩ := apduRequest_calls src (p.add 1) hreceived hf hne umtp
  rw [← npduHandler_request hu hd hp hlen src v, hcalled, hservice] at htrace
  exact ⟨_, es, htrace, (List.prefix_iff_eq_take.mp hpayload).symm, hes⟩

theorem npduHandler_callsRequest (hs : 0 ≤ d.service ∧ d.service ≤ 255) (hpos : 1 ≤ d.dataLen)
    {v : World τ} {type : ServiceType τ} (hget : serviceTypeGet v.services d.service = some type)
    {f : τ → UmtpAddr → Int → Ptr → Int → τ × ReqReply} (hf : type.reqHandler = some f)
    (src : UmtpAddr) :
    CallsRequest d.service src d.payload v (final ((npduHandler umtp src p len).run v)) := by
  have hmod : d.service % 256 = d.service := by omega
  have hcalls := npduHandler_routed hu hd hp hlen hpos (hmod.symm ▸ hget) hf src
  rwa [hmod] at hcalls

end

def ReceivesRequest (host : Endian) (link : Dludp) (umtp : Ref) (d : ApduData) (id : UInt8)
    (sin : SockAddr) (t : TaskLocals) (v : World σ) : Prop :=
  ∃ src buf len, (dludpRecvData host link t.src t.buf maxPdu (.datagram (d.datagram id) sin)).run v =
      .ok (len, src, buf) v ∧ src.Names sin ∧
    let handle := npduHandler umtp src ⟨.taskBuf, buf.cells, 0⟩ (UInt16.ofInt len)
    CallsRequest d.service src d.payload v (final (handle.run v)) ∧
      (d.confirmed = true → EchoesId umtp src id handle v)

theorem request_delivered {host : Endian} {link : Dludp} (hdec : link.decrypt = none)
    {d : ApduData} (hd : d.InRange) (hfits : d.Fits) {id : UInt8} {sin : SockAddr}
    (hdelivers : link.Delivers host (d.datagram id) sin) (t : TaskLocals) (v : World τ) :
    ∃ src buf, (dludpRecvData host link t.src t.buf maxPdu (.datagram (d.datagram id) sin)).run v =
        .ok ((1 + (d.apdu id).length : Nat), src, buf) v ∧ src.Names sin ∧
      fttpProtocolVersion :: d.apdu id <+: buf.cells := by
  have hmax : maxApdu = 1024 := rfl
  have hpdu : maxPdu = 2049 := rfl
  have hlen := d.apdu_length hd id
  have h0 := hd.1
  unfold ApduData.Fits at hfits
  obtain ⟨src, buf, hrecv, hnames, hbuf⟩ := dludpRecvData_delivers t.src t.buf hdec hdelivers v
  have hbody : datagramBody (d.datagram id) = fttpProtocolVersion :: d.apdu id := by
    rw [datagramBody, List.take_of_length_le]
    · rfl
    · simp [ApduData.datagram]
      omega
  rw [hbody] at hrecv hbuf
  refine ⟨src, buf, ?_, hnames, List.prefix_iff_eq_take.mpr hbuf.symm⟩
  rw [hrecv, List.length_cons, Nat.add_comm]

def silentServer : World Unit :=
  { World.init () with
    services := [⟨5, some silentHandler, none, none, none⟩] }

def threeBytes : ApduData :=
  ⟨5, true, ⟨[7, 8, 9] ++ List.replicate (maxApdu - 3) 0, by
    rw [List.length_append, List.length_replicate]
    rfl⟩, 3⟩

def startedSync : World Wire := { startedNode with syncMode := true }

end Umtp
