import Umtp.Message
import Umtp.SessionTable

/-! What a reply does at the client: which session it names, and what becomes of the table. -/

set_option autoImplicit false

namespace Umtp
open CheckedBuffer StateExcept

variable {σ : Type}

/-- The slot a reply names: its header has a session id, and the slot has it too. -/
def ApduHeader.Names (h : ApduHeader) (s : SessionState) (i : Fin maxUmtpSession) : Prop :=
  apduHasSessionId h.flag = true ∧ h.sessionId ≠ 0 ∧ (s.session i).sessionId = h.sessionId

theorem replyType {type : UInt8} (hlt : type < umtpPduTypeMax) (hne : type ≠ umtpPduRequest) :
    type = umtpPduResponse ∨ type = umtpPduError ∨ type = umtpPduReject := by
  rw [UInt8.lt_iff_toNat_lt] at hlt
  rw [Ne, ← UInt8.toNat_inj] at hne
  simp only [← UInt8.toNat_inj]
  simp [umtpPduTypeMax, umtpPduRequest, umtpPduResponse, umtpPduError, umtpPduReject] at *
  omega

def clearedTable (h : ApduHeader) (s : SessionState) : SessionState :=
  if apduHasSessionId h.flag then umtpSessionClear h.sessionId s else s

theorem SessionState.Inv.getIndex {s : SessionState} (hs : s.Inv) {id : UInt8} (hid : id ≠ 0)
    {i : Fin maxUmtpSession} (hi : (s.session i).sessionId = id) :
    sessionGetIndex s id = some i := by
  cases hj : sessionGetIndex s id with
  | none => exact absurd hi (sessionGetIndex_none.mp hj i)
  | some j =>
    have hheld := sessionGetIndex_some hj
    rw [hs.unique i j (hi.symm ▸ hid) (hi.trans hheld.symm)]

theorem replySession_names {h : ApduHeader} {s : SessionState} {i : Fin maxUmtpSession}
    {x : Session} (hx : replySession h s = some (i, x)) : h.Names s i ∧ x = s.session i := by
  unfold replySession at hx
  split at hx
  · rename_i hflag
    simp only [Option.map_eq_some_iff, Prod.mk.injEq] at hx
    obtain ⟨j, hj, rfl, rfl⟩ := hx
    obtain ⟨hid, hheld⟩ := umtpGetSession_some hj
    exact ⟨⟨hflag, hid, hheld⟩, rfl⟩
  · contradiction

theorem replySession_of_names {h : ApduHeader} {s : SessionState} (hs : s.Inv)
    {i : Fin maxUmtpSession} (hi : h.Names s i) : replySession h s = some (i, s.session i) := by
  obtain ⟨hflag, hid, hheld⟩ := hi
  simp [replySession, hflag, umtpGetSession, hid, hs.getIndex hid hheld]

theorem replySession_none {h : ApduHeader} {s : SessionState} (hn : ∀ i, ¬ h.Names s i) :
    replySession h s = none := by
  cases hx : replySession h s with
  | none => rfl
  | some p => exact absurd (replySession_names hx).1 (hn p.1)

theorem clearedTable_other {h : ApduHeader} {s : SessionState} (hs : s.Inv)
    {i : Fin maxUmtpSession} (hi : ¬ h.Names s i) : (clearedTable h s).session i = s.session i := by
  unfold clearedTable
  split
  · rename_i hflag
    apply umtpSessionClear_other hs
    by_cases hid : h.sessionId = 0
    · exact .inl hid
    · exact .inr fun hheld => hi ⟨hflag, hid, hheld⟩
  · rfl

theorem clearedTable_named {h : ApduHeader} {s : SessionState} (hs : s.Inv)
    {i : Fin maxUmtpSession} (hi : h.Names s i) :
    (clearedTable h s).session i = (s.session i).released := by
  obtain ⟨hflag, hid, hheld⟩ := hi
  simp [clearedTable, hflag, umtpSessionClear, hs.getIndex hid hheld]

theorem clearReplySession_run (h : ApduHeader) (w : World σ) :
    (clearReplySession h).run w = .ok () { w with sessions := clearedTable h w.sessions } := by
  unfold clearReplySession clearedTable
  split <;> rfl

section

variable {w : World σ} {type : ServiceType σ} {serviceId : Int} (src : UmtpAddr)
  (hget : serviceTypeGet w.services serviceId = some type)

include hget

theorem serviceRspHandler_run
    {g : σ → UmtpAddr → Option (Fin maxUmtpSession × Session) → Ptr → Int → σ}
    (hg : type.rspHandler = some g) (session : Option (Fin maxUmtpSession × Session)) (data : Ptr)
    {dataLen : UInt32} (hlen : dataLen ≠ 0) :
    (serviceRspHandler src serviceId session data dataLen).run w =
      .ok () { w with
        app := g w.app src session data (handlerLen dataLen)
        trace := w.trace ++ [.rsp serviceId src session data (handlerLen dataLen)] } := by
  simp [serviceRspHandler, hlen, hget, hg, serviceTypeGet_id hget]

theorem serviceErrorHandler_run
    {g : σ → UmtpAddr → Int → Option (Fin maxUmtpSession × Session) → σ}
    (hg : type.errorHandler = some g) (session : Option (Fin maxUmtpSession × Session))
    (status : Int) :
    (serviceErrorHandler src serviceId status session).run w =
      .ok () { w with
        app := g w.app src status session
        trace := w.trace ++ [.error serviceId src status session] } := by
  simp [serviceErrorHandler, hget, hg, serviceTypeGet_id hget]

end

theorem serviceRspHandler_empty {src : UmtpAddr} {serviceId : Int}
    {session : Option (Fin maxUmtpSession × Session)} {data : Ptr} (w : World σ) :
    (serviceRspHandler src serviceId session data 0).run w = .ok () w := rfl

section

variable {umtp : Ref} (hu : umtp ≠ 0) {p : Ptr} {h : ApduHeader} (hh : h.WellFormed)
  {body : List UInt8} (hp : fttpProtocolVersion :: (h.bytes ++ body) <+: p.bytes) {len : UInt16}
  (hlen : len.toNat = 1 + h.decodeLen + body.length) {w : World σ} (src : UmtpAddr)

include hu hh hp hlen

theorem npduHandler_rsp (htype : h.type = umtpPduResponse) {u : World σ}
    (hrsp : (serviceRspHandler src h.service.toNat (replySession h w.sessions)
      ((p.add 1).add h.decodeLen) (restLen (len - 1) h.decodeLen)).run (w.received p h) =
        .ok () u) :
    (npduHandler umtp src p len).run w =
      .ok 0 { u with sessions := clearedTable h u.sessions } := by
  have hswitch : apduSwitch (σ := σ) umtp src (p.add 1) (len - 1) h =
      apduResponse src (p.add 1) (len - 1) h := by
    simp [apduSwitch, htype, umtpPduRequest, umtpPduResponse]
  rw [npduHandler_message hu hh hp hlen src w, hswitch]
  simp [apduResponse, hrsp, clearReplySession_run]

theorem npduHandler_err (htype : h.type = umtpPduError) {status : UInt8} {rest : List UInt8}
    (hbody : body = status :: rest) {u : World σ}
    (herror : (serviceErrorHandler src h.service.toNat status.toNat (replySession h w.sessions)).run
      ((w.received p h).read (p.off + 1 + h.decodeLen)) = .ok () u) :
    (npduHandler umtp src p len).run w =
      .ok 0 { u with sessions := clearedTable h u.sessions } := by
  have hstatus : (p.add 1).get h.decodeLen = some status :=
    message_status hh hp hlen (by simp [hbody])
  have hswitch : apduSwitch (σ := σ) umtp src (p.add 1) (len - 1) h =
      apduError src (p.add 1) h := by
    simp [apduSwitch, htype, umtpPduRequest, umtpPduResponse, umtpPduError]
  rw [npduHandler_message hu hh hp hlen src w, hswitch]
  simp [apduError, readPdu, hstatus, herror, clearReplySession_run]

theorem npduHandler_response (htype : h.type = umtpPduResponse) (hbody : body ≠ [])
    {type : ServiceType σ} (hget : serviceTypeGet w.services h.service.toNat = some type)
    {g : σ → UmtpAddr → Option (Fin maxUmtpSession × Session) → Ptr → Int → σ}
    (hg : type.rspHandler = some g) :
    ∃ data, body <+: data.bytes ∧ (npduHandler umtp src p len).run w =
      .ok 0 { w.received p h with
        app := g w.app src (replySession h w.sessions) data body.length
        trace := w.trace ++
          [.rsp h.service.toNat src (replySession h w.sessions) data body.length]
        sessions := clearedTable h w.sessions } := by
  obtain ⟨hpayload, hrest, hcalled⟩ := message_payload hh hp hlen
  have hne : restLen (len - 1) h.decodeLen ≠ 0 := by
    intro hz
    rw [hz] at hrest
    exact hbody (List.length_eq_zero_iff.mp hrest.symm)
  have hrsp := serviceRspHandler_run (w := w.received p h) src hget hg
    (replySession h w.sessions) ((p.add 1).add h.decodeLen) hne
  rw [hcalled] at hrsp
  exact ⟨_, hpayload, npduHandler_rsp hu hh hp hlen src htype hrsp⟩

/-- An empty response calls nobody, but the table is cleared all the same. -/
theorem npduHandler_emptyResponse (htype : h.type = umtpPduResponse) (hbody : body = []) :
    (npduHandler umtp src p len).run w =
      .ok 0 { w.received p h with sessions := clearedTable h w.sessions } := by
  obtain ⟨-, hrest, -⟩ := message_payload hh hp hlen
  have hzero : restLen (len - 1) h.decodeLen = 0 := by
    apply UInt32.toNat_inj.mp
    simp [hrest, hbody]
  have hrsp : (serviceRspHandler src h.service.toNat (replySession h w.sessions)
      ((p.add 1).add h.decodeLen) (restLen (len - 1) h.decodeLen)).run (w.received p h) =
        .ok () (w.received p h) := by
    rw [hzero]
    exact serviceRspHandler_empty _
  exact npduHandler_rsp hu hh hp hlen src htype hrsp

theorem npduHandler_error (htype : h.type = umtpPduError) {status : UInt8} {rest : List UInt8}
    (hbody : body = status :: rest) {type : ServiceType σ}
    (hget : serviceTypeGet w.services h.service.toNat = some type)
    {g : σ → UmtpAddr → Int → Option (Fin maxUmtpSession × Session) → σ}
    (hg : type.errorHandler = some g) :
    (npduHandler umtp src p len).run w =
      .ok 0 { (w.received p h).read (p.off + 1 + h.decodeLen) with
        app := g w.app src status.toNat (replySession h w.sessions)
        trace := w.trace ++
          [.error h.service.toNat src status.toNat (replySession h w.sessions)]
        sessions := clearedTable h w.sessions } := by
  have herror := serviceErrorHandler_run
    (w := (w.received p h).read (p.off + 1 + h.decodeLen)) src hget hg
    (replySession h w.sessions) status.toNat
  rw [npduHandler_err hu hh hp hlen src htype hbody herror]
  rfl

theorem npduHandler_reject (htype : h.type = umtpPduReject) :
    (npduHandler umtp src p len).run w =
      .ok 0 { w.received p h with sessions := clearedTable h w.sessions } := by
  have hswitch : apduSwitch (σ := σ) umtp src (p.add 1) (len - 1) h =
      (do clearReplySession h; return 0) := by
    simp [apduSwitch, htype, umtpPduRequest, umtpPduResponse, umtpPduError, umtpPduReject]
  rw [npduHandler_message hu hh hp hlen src w, hswitch]
  simp [clearReplySession_run]

theorem npduHandler_absent (hget : serviceTypeGet w.services h.service.toNat = none)
    (hreq : h.type ≠ umtpPduRequest) (herr : h.type = umtpPduError → body ≠ []) :
    ∃ u, (npduHandler umtp src p len).run w = .ok 0 u ∧
      u.sessions = clearedTable h w.sessions ∧ u.services = w.services ∧ u.trace = w.trace := by
  rcases replyType hh.type hreq with htype | htype | htype
  · refine ⟨_, npduHandler_rsp (u := w.received p h) hu hh hp hlen src htype ?_, rfl, rfl, rfl⟩
    unfold serviceRspHandler
    split
    · rfl
    · simp [hget]
  · obtain ⟨status, rest, hbody⟩ := List.exists_cons_of_ne_nil (herr htype)
    have hget' : serviceTypeGet ((w.received p h).read (p.off + 1 + h.decodeLen)).services
        h.service.toNat = none := hget
    have herror : (serviceErrorHandler src h.service.toNat status.toNat
        (replySession h w.sessions)).run ((w.received p h).read (p.off + 1 + h.decodeLen)) =
          .ok () ((w.received p h).read (p.off + 1 + h.decodeLen)) := by
      simp [serviceErrorHandler, hget']
    have hrun := npduHandler_err hu hh hp hlen src htype hbody herror
    exact ⟨_, hrun, rfl, rfl, rfl⟩
  · exact ⟨_, npduHandler_reject hu hh hp hlen src htype, rfl, rfl, rfl⟩

end

end Umtp
