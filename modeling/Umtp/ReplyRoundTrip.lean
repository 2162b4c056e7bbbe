import Umtp.ReplyHandling

set_option autoImplicit false

namespace Umtp
open CheckedBuffer StateExcept

variable {σ τ : Type}

/-- The handler has succeeded and filled `sd->data` with `content`: in the reply block, where
`sd->data` pointed to cell `off`, or in an array of its own. -/
structure ReqReply.Fills (reply : ReqReply) (off : Nat) (content : List UInt8) : Prop where
  status : reply.status = 0
  dataLen : reply.dataLen.toNat = content.length
  content : content <+: reply.own.getD reply.stored
  room : off + reply.stored.length ≤ maxApdu

def ApduHeader.response (h : ApduHeader) : ApduHeader := { h with type := umtpPduResponse }

theorem ApduHeader.WellFormed.response {h : ApduHeader} (hh : h.WellFormed) :
    h.response.WellFormed where
  decodeLen := hh.decodeLen
  type := show umtpPduResponse < umtpPduTypeMax by decide
  sessionId := hh.sessionId

/-- What `x` leaves to do is to submit exactly these bytes. -/
def Submits (umtp : Ref) (dst : UmtpAddr) (apdu : List UInt8) (x : Proc τ Int) (v : World τ) :
    Prop :=
  ∃ data u, data.bytes.take apdu.length = apdu ∧
    x.run v = (_umtpApduSubmit umtp dst data apdu.length).run u

theorem ReqReply.Fills.bytes {reply : ReqReply} {off : Nat} {content : List UInt8}
    (hr : reply.Fills off content) {b blk : Buf UInt8 maxApdu}
    (hblk : b.write off reply.stored = some blk) :
    content <+: ((reply.own.elim (ReplyData.block off) .own).ptr blk).bytes := by
  have hcontent := hr.content
  cases hown : reply.own with
  | some bytes =>
    rw [hown] at hcontent
    exact hcontent
  | none =>
    rw [hown] at hcontent
    have hread := Buf.read_write hblk
    exact hcontent.trans (hread ▸ List.take_prefix _ _)

section

variable {v : World τ} {type : ServiceType τ} {h : ApduHeader} {src : UmtpAddr} {apdu : Ptr}
  {pduLen : UInt16} (hl : h.decodeLen = apduHeaderLen h.flag)
  (hget : serviceTypeGet v.services h.service.toNat = some type)
  {f : τ → UmtpAddr → Int → Ptr → Int → τ × ReqReply} (hf : type.reqHandler = some f)
  (hrest : restLen pduLen h.decodeLen ≠ 0) {app : τ} {reply : ReqReply}
  (hcall : f v.app src h.service.toNat (apdu.add h.decodeLen)
    (handlerLen (restLen pduLen h.decodeLen)) = (app, reply)) {content : List UInt8}
  (hreply : reply.Fills h.decodeLen content) (hfit : h.decodeLen + content.length ≤ maxApdu)

include hl hget hf hrest hcall hreply hfit

theorem apduReply_fills :
    ∃ u, (apduReply src apdu pduLen h).run v =
        .ok (UInt16.ofNat (h.decodeLen + content.length)) u ∧
      u.apduTransBlk.cells.take (h.decodeLen + content.length) =
        h.reply umtpPduResponse ++ content := by
  obtain ⟨blk, hblk⟩ : ∃ blk, v.apduTransBlk.write h.decodeLen reply.stored = some blk :=
    Buf.exists_write hreply.room
  have hservice := serviceHandler_run ⟨h.service.toNat, 0, .block h.decodeLen⟩ hrest hget hf hcall
    rfl hblk
  rw [hreply.status] at hservice
  have hbytes := hreply.bytes hblk
  have htake := List.prefix_iff_eq_take.mp hbytes
  have hlen := hbytes.length_le
  rw [Ptr.bytes, List.length_drop] at hlen
  have hread : ((reply.own.elim (ReplyData.block h.decodeLen) .own).ptr blk).off +
      reply.dataLen.toNat ≤
        ((reply.own.elim (ReplyData.block h.decodeLen) .own).ptr blk).obj.length := by
    rw [hreply.dataLen]
    cases hown : reply.own with
    | some bytes =>
      rw [hown] at hlen
      simpa [ReplyData.ptr] using hlen
    | none =>
      have hroom := hreply.room
      rw [hown] at hlen
      simp [ReplyData.ptr] at hlen ⊢
      omega
  have hdata : ∀ off, reply.own.elim (ReplyData.block h.decodeLen) .own = .block off →
      h.decodeLen ≤ off := by
    intro off ho
    cases hown : reply.own with
    | some bytes =>
      rw [hown] at ho
      cases ho
    | none =>
      rw [hown] at ho
      cases ho
      exact Nat.le_refl _
  obtain ⟨blk', hrun, hcells⟩ := apduReply_response hl hservice hdata hread
    (by rw [hreply.dataLen]; exact hfit)
  rw [hreply.dataLen] at hrun hcells
  rw [← htake] at hcells
  exact ⟨_, hrun, hcells⟩

theorem apduRequest_submits (umtp : Ref) :
    Submits umtp src (h.response.bytes ++ content) (apduRequest umtp src apdu pduLen h) v := by
  obtain ⟨u, hrun, hcells⟩ := apduReply_fills hl hget hf hrest hcall hreply hfit
  have hmax : maxApdu = 1024 := rfl
  have hlen : (h.response.bytes ++ content).length = h.decodeLen + content.length := by
    rw [List.length_append, ApduHeader.bytes, ApduHeader.reply_length, hl]
    rfl
  have hcount : (UInt16.ofNat (h.decodeLen + content.length)).toNat =
      h.decodeLen + content.length := by
    rw [UInt16.toNat_ofNat', Nat.mod_eq_of_lt (by omega)]
  refine ⟨⟨.apduTransBlk, u.apduTransBlk.cells, 0⟩, u, ?_, ?_⟩
  · rw [hlen]
    exact hcells
  · rw [apduRequest, EStateM.run_bind, hrun, hlen]
    show (_umtpApduSubmit umtp src ⟨.apduTransBlk, u.apduTransBlk.cells, 0⟩
      (UInt16.ofNat (h.decodeLen + content.length)).toNat).run u = _
    rw [hcount]

end

section

variable {umtp : Ref} (hu : umtp ≠ 0) {p : Ptr} {h : ApduHeader} (hh : h.WellFormed)
  {payload : List UInt8} (hp : fttpProtocolVersion :: (h.bytes ++ payload) <+: p.bytes)
  {len : UInt16} (hlen : len.toNat = 1 + h.decodeLen + payload.length)

include hu hh hp hlen

theorem npduHandler_submits (htype : h.type = umtpPduRequest) (hpayload : payload ≠ [])
    {v : World τ} {type : ServiceType τ}
    (hget : serviceTypeGet v.services h.service.toNat = some type)
    {f : τ → UmtpAddr → Int → Ptr → Int → τ × ReqReply} (hf : type.reqHandler = some f)
    {src : UmtpAddr} {app : τ} {reply : ReqReply}
    (hcall : f v.app src h.service.toNat ((p.add 1).add h.decodeLen) payload.length = (app, reply))
    {content : List UInt8} (hreply : reply.Fills h.decodeLen content)
    (hfit : h.decodeLen + content.length ≤ maxApdu) :
    Submits umtp src (h.response.bytes ++ content) (npduHandler umtp src p len) v := by
  obtain ⟨-, hrest, hcalled⟩ := message_payload hh hp hlen
  have hne : restLen (len - 1) h.decodeLen ≠ 0 := by
    intro hz
    rw [hz] at hrest
    exact hpayload (List.length_eq_zero_iff.mp hrest.symm)
  rw [← hcalled] at hcall
  obtain ⟨data, u, hdata, hrun⟩ := apduRequest_submits (v := v.received p h) hh.decodeLen hget hf
    hne hcall hreply hfit umtp
  refine ⟨data, u, hdata, ?_⟩
  rw [npduHandler_message hu hh hp hlen src v, ← hrun, apduSwitch, if_pos htype]

end

/-- The response handler is called once, with these bytes and the slot that the reply names;
that slot is free afterwards, and no other has changed. -/
def ReceivesReply (h : ApduHeader) (src : UmtpAddr) (content : List UInt8)
    (rspHandler : σ → UmtpAddr → Option (Fin maxUmtpSession × Session) → Ptr → Int → σ)
    (x : Proc σ Int) (w : World σ) : Prop :=
  ∃ session data w', x.run w = .ok 0 w' ∧
    w'.trace = w.trace ++ [.rsp h.service.toNat src session data content.length] ∧
    w'.app = rspHandler w.app src session data content.length ∧
    data.bytes.take content.length = content ∧
    (∀ i, session = some (i, w.sessions.session i) ↔ h.Names w.sessions i) ∧
    (session = none ↔ ∀ i, ¬ h.Names w.sessions i) ∧
    (∀ i, h.Names w.sessions i → w'.sessions.session i = (w.sessions.session i).released) ∧
    ∀ i, ¬ h.Names w.sessions i → w'.sessions.session i = w.sessions.session i

theorem npduHandler_receivesReply {umtp : Ref} (hu : umtp ≠ 0) {h : ApduHeader} (hh : h.WellFormed)
    (htype : h.type = umtpPduResponse) {p : Ptr} {content : List UInt8} (hcontent : content ≠ [])
    (hp : fttpProtocolVersion :: (h.bytes ++ content) <+: p.bytes) {len : UInt16}
    (hlen : len.toNat = 1 + h.decodeLen + content.length) {w : World σ} (hs : w.sessions.Inv)
    {type : ServiceType σ} (hget : serviceTypeGet w.services h.service.toNat = some type)
    {g : σ → UmtpAddr → Option (Fin maxUmtpSession × Session) → Ptr → Int → σ}
    (hg : type.rspHandler = some g) (src : UmtpAddr) :
    ReceivesReply h src content g (npduHandler umtp src p len) w := by
  obtain ⟨data, hdata, hrun⟩ :=
    npduHandler_response hu hh hp hlen src htype hcontent hget hg
  refine ⟨replySession h w.sessions, data, _, hrun, rfl, rfl,
    (List.prefix_iff_eq_take.mp hdata).symm, ?_, ?_, ?_, ?_⟩
  · intro i
    exact ⟨fun hx => (replySession_names hx).1, replySession_of_names hs⟩
  · refine ⟨fun hnone i hi => ?_, replySession_none⟩
    rw [replySession_of_names hs hi] at hnone
    cases hnone
  · exact fun i hi => clearedTable_named hs hi
  · exact fun i hi => clearedTable_other hs hi

theorem reply_round_trip {umtp umtp' : Ref} (hu : umtp ≠ 0) (hu' : umtp' ≠ 0) {h : ApduHeader}
    (hh : h.WellFormed) (htype : h.type = umtpPduRequest) {payload : List UInt8}
    (hpayload : payload ≠ []) {p : Ptr}
    (hp : fttpProtocolVersion :: (h.bytes ++ payload) <+: p.bytes) {len : UInt16}
    (hlen : len.toNat = 1 + h.decodeLen + payload.length) {v : World τ} {server : ServiceType τ}
    (hserver : serviceTypeGet v.services h.service.toNat = some server)
    {f : τ → UmtpAddr → Int → Ptr → Int → τ × ReqReply} (hf : server.reqHandler = some f)
    {src : UmtpAddr} {app : τ} {reply : ReqReply}
    (hcall : f v.app src h.service.toNat ((p.add 1).add h.decodeLen) payload.length = (app, reply))
    {content : List UInt8} (hreply : reply.Fills h.decodeLen content) (hpos : 1 ≤ content.length)
    (hfit : h.decodeLen + content.length ≤ maxApdu) {w : World σ} (hs : w.sessions.Inv)
    {client : ServiceType σ} (hclient : serviceTypeGet w.services h.service.toNat = some client)
    {g : σ → UmtpAddr → Option (Fin maxUmtpSession × Session) → Ptr → Int → σ}
    (hg : client.rspHandler = some g) :
    ∃ apdu, Submits umtp src apdu (npduHandler umtp src p len) v ∧
      ∀ (q : Ptr) (n : UInt16) (src' : UmtpAddr), fttpProtocolVersion :: apdu <+: q.bytes →
        n.toNat = 1 + apdu.length →
        ReceivesReply h src' content g (npduHandler umtp' src' q n) w := by
  refine ⟨h.response.bytes ++ content,
    npduHandler_submits hu hh hp hlen htype hpayload hserver hf hcall hreply hfit, ?_⟩
  intro q n src' hq hn
  have hcontent : content ≠ [] := List.length_pos_iff.mp hpos
  have hcount : n.toNat = 1 + h.response.decodeLen + content.length := by
    rw [hn, List.length_append, ApduHeader.bytes, ApduHeader.reply_length,
      hh.response.decodeLen, Nat.add_assoc]
  exact npduHandler_receivesReply hu' hh.response rfl hcontent hq hcount hs hclient hg src'

def answeringServer : World Unit :=
  { World.init () with
    services := [⟨5, some fun _ _ _ _ _ => ((), ⟨0, [4, 5, 6], 3, none⟩), none, none, none⟩] }

def listeningClient : World Unit :=
  { World.init () with
    sessions := (umtpFreeSession 3000 .init).1
    services := [⟨5, some silentHandler, some fun _ _ _ _ _ => (), none, none⟩] }

theorem reply_round_trip_bytes :
    ∃ apdu, Submits 1 UmtpAddr.zero apdu
        (npduHandler 1 UmtpAddr.zero ⟨.taskBuf, [1, 1, 0, 5, 1, 7, 8, 9], 0⟩ 8) answeringServer ∧
      ∀ (q : Ptr) (n : UInt16) (src : UmtpAddr), fttpProtocolVersion :: apdu <+: q.bytes →
        n.toNat = 1 + apdu.length →
        ReceivesReply ⟨1, umtpPduRequest, 5, 1, 4⟩ src [4, 5, 6] (fun _ _ _ _ _ => ())
          (npduHandler 2 src q n) listeningClient :=
  reply_round_trip (p := ⟨.taskBuf, [1, 1, 0, 5, 1, 7, 8, 9], 0⟩) (f := fun _ _ _ _ _ =>
      ((), ⟨0, [4, 5, 6], 3, none⟩)) (h := ⟨1, umtpPduRequest, 5, 1, 4⟩) (by decide) (by decide)
    ⟨by decide, by decide, by decide⟩ rfl (List.cons_ne_nil 7 [8, 9]) (by decide) rfl rfl rfl rfl
    ⟨rfl, rfl, List.prefix_rfl, by decide⟩ (by decide) (by decide)
    (umtpFreeSession_inv SessionState.init_inv 3000) rfl rfl

end Umtp
