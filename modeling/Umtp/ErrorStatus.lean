import Umtp.ReplyRoundTrip

set_option autoImplicit false

namespace Umtp
open CheckedBuffer StateExcept

variable {σ τ : Type}

def ApduHeader.error (h : ApduHeader) : ApduHeader := { h with type := umtpPduError }

theorem ApduHeader.WellFormed.error {h : ApduHeader} (hh : h.WellFormed) : h.error.WellFormed where
  decodeLen := hh.decodeLen
  type := show umtpPduError < umtpPduTypeMax by decide
  sessionId := hh.sessionId

section

variable {umtp : Ref} (hu : umtp ≠ 0) {p : Ptr} {h : ApduHeader} (hh : h.WellFormed)
  (htype : h.type = umtpPduRequest) {payload : List UInt8}
  (hp : fttpProtocolVersion :: (h.bytes ++ payload) <+: p.bytes) {len : UInt16}
  (hlen : len.toNat = 1 + h.decodeLen + payload.length) {src : UmtpAddr} {v v' : World τ}
  {ret : Int} {sd : ServiceData}
  (hservice : (serviceHandler src ⟨h.service.toNat, 0, .block h.decodeLen⟩
    ((p.add 1).add h.decodeLen) (restLen (len - 1) h.decodeLen)).run (v.received p h) =
      .ok (ret, sd) v')
  (hret : ret ≠ 0)

include hu hh htype hp hlen hservice hret

theorem npduHandler_submitsError :
    Submits umtp src (h.error.bytes ++ [UInt8.ofInt ret]) (npduHandler umtp src p len) v := by
  obtain ⟨blk, hrun, hcells⟩ := apduReply_error hh.decodeLen hret hservice
  have hge := apduHeaderLen_le h.flag
  have hbytes : (h.error.bytes ++ [UInt8.ofInt ret]).length = h.decodeLen + 1 := by
    rw [List.length_append, ApduHeader.bytes, ApduHeader.reply_length, hh.decodeLen]
    rfl
  have hcount : (UInt16.ofNat (h.decodeLen + 1)).toNat = h.decodeLen + 1 := by
    rw [UInt16.toNat_ofNat', Nat.mod_eq_of_lt]
    rw [hh.decodeLen]
    omega
  refine ⟨⟨.apduTransBlk, blk.cells, 0⟩, { v' with apduTransBlk := blk }, ?_, ?_⟩
  · rw [hbytes]
    exact hcells
  · rw [npduHandler_message hu hh hp hlen src v, apduSwitch, if_pos htype, apduRequest,
      EStateM.run_bind, hrun, hbytes]
    show (_umtpApduSubmit umtp src ⟨.apduTransBlk, blk.cells, 0⟩
      (UInt16.ofNat (h.decodeLen + 1)).toNat).run { v' with apduTransBlk := blk } = _
    rw [hcount]

end

/-- The error handler is called once, with this status and the slot that the error names. -/
def ReceivesError (h : ApduHeader) (src : UmtpAddr) (status : Int)
    (errorHandler : σ → UmtpAddr → Int → Option (Fin maxUmtpSession × Session) → σ)
    (x : Proc σ Int) (w : World σ) : Prop :=
  ∃ session w', x.run w = .ok 0 w' ∧
    w'.trace = w.trace ++ [.error h.service.toNat src status session] ∧
    w'.app = errorHandler w.app src status session

theorem npduHandler_receivesError {umtp : Ref} (hu : umtp ≠ 0) {h : ApduHeader} (hh : h.WellFormed)
    {ret : Int} {q : Ptr} {n : UInt16}
    (hq : fttpProtocolVersion :: (h.error.bytes ++ [UInt8.ofInt ret]) <+: q.bytes)
    (hn : n.toNat = 1 + (h.error.bytes ++ [UInt8.ofInt ret]).length) {w : World σ}
    {type : ServiceType σ} (hget : serviceTypeGet w.services h.service.toNat = some type)
    {g : σ → UmtpAddr → Int → Option (Fin maxUmtpSession × Session) → σ}
    (hg : type.errorHandler = some g) (src : UmtpAddr) :
    ReceivesError h src (ret % 256) g (npduHandler umtp src q n) w := by
  have hcount : n.toNat = 1 + h.error.decodeLen + [UInt8.ofInt ret].length := by
    rw [hn, List.length_append, ApduHeader.bytes, ApduHeader.reply_length, hh.error.decodeLen,
      Nat.add_assoc]
  have hrun := npduHandler_error hu hh.error hq hcount src rfl rfl hget hg
  rw [uint8_ofInt_toNat] at hrun
  exact ⟨_, _, hrun, rfl, rfl⟩

theorem ReceivesError.status {h : ApduHeader} {src : UmtpAddr} {status status' : Int}
    {g : σ → UmtpAddr → Int → Option (Fin maxUmtpSession × Session) → σ} {x : Proc σ Int}
    {w : World σ} (hx : ReceivesError h src status g x w) (hx' : ReceivesError h src status' g x w) :
    status = status' := by
  obtain ⟨session, u, hrun, htrace, -⟩ := hx
  obtain ⟨session', u', hrun', htrace', -⟩ := hx'
  rw [hrun] at hrun'
  cases hrun'
  rw [htrace] at htrace'
  simp only [List.append_cancel_left_eq, List.cons.injEq, Event.error.injEq] at htrace'
  exact htrace'.1.2.2.1

theorem error_status_iff {umtp umtp' : Ref} (hu : umtp ≠ 0) (hu' : umtp' ≠ 0) {h : ApduHeader}
    (hh : h.WellFormed) (htype : h.type = umtpPduRequest) {payload : List UInt8} {p : Ptr}
    (hp : fttpProtocolVersion :: (h.bytes ++ payload) <+: p.bytes) {len : UInt16}
    (hlen : len.toNat = 1 + h.decodeLen + payload.length) {src : UmtpAddr} {v v' : World τ}
    {ret : Int} {sd : ServiceData}
    (hservice : (serviceHandler src ⟨h.service.toNat, 0, .block h.decodeLen⟩
      ((p.add 1).add h.decodeLen) (restLen (len - 1) h.decodeLen)).run (v.received p h) =
        .ok (ret, sd) v')
    (hret : ret ≠ 0) {w : World σ} {client : ServiceType σ}
    (hclient : serviceTypeGet w.services h.service.toNat = some client)
    {g : σ → UmtpAddr → Int → Option (Fin maxUmtpSession × Session) → σ}
    (hg : client.errorHandler = some g) :
    ∃ apdu, Submits umtp src apdu (npduHandler umtp src p len) v ∧
      ∀ (q : Ptr) (n : UInt16) (src' : UmtpAddr), fttpProtocolVersion :: apdu <+: q.bytes →
        n.toNat = 1 + apdu.length →
        ReceivesError h src' (ret % 256) g (npduHandler umtp' src' q n) w ∧
        (ReceivesError h src' ret g (npduHandler umtp' src' q n) w ↔ 1 ≤ ret ∧ ret ≤ 255) := by
  refine ⟨h.error.bytes ++ [UInt8.ofInt ret],
    npduHandler_submitsError hu hh htype hp hlen hservice hret, ?_⟩
  intro q n src' hq hn
  have hreceives := npduHandler_receivesError hu' hh hq hn hclient hg src'
  refine ⟨hreceives, ?_, ?_⟩
  · intro hsame
    have hstatus := hreceives.status hsame
    omega
  · intro hbyte
    have hstatus : ret % 256 = ret := by omega
    rwa [hstatus] at hreceives

def failingClient : World Unit :=
  { World.init () with services := [⟨5, some silentHandler, none, some fun _ _ _ _ => (), none⟩] }

def failingServer : World Unit :=
  { World.init () with
    services := [⟨5, some fun _ _ _ _ _ => ((), ⟨7, [], 0, none⟩), none, none, none⟩] }

theorem error_status_seven :
    ∃ apdu, Submits 1 UmtpAddr.zero apdu
        (npduHandler 1 UmtpAddr.zero ⟨.taskBuf, [1, 0, 0, 5, 9], 0⟩ 5) failingServer ∧
      ∀ (q : Ptr) (n : UInt16) (src : UmtpAddr), fttpProtocolVersion :: apdu <+: q.bytes →
        n.toNat = 1 + apdu.length →
        ReceivesError ⟨0, umtpPduRequest, 5, 0, 3⟩ src 7 (fun _ _ _ _ => ())
          (npduHandler 2 src q n) failingClient := by
  have hh : (⟨0, umtpPduRequest, 5, 0, 3⟩ : ApduHeader).WellFormed :=
    ⟨by decide, by decide, by decide⟩
  have hp : fttpProtocolVersion :: ((⟨0, umtpPduRequest, 5, 0, 3⟩ : ApduHeader).bytes ++ [9]) <+:
      (⟨.taskBuf, [1, 0, 0, 5, 9], 0⟩ : Ptr).bytes := by decide
  have hlen : (5 : UInt16).toNat = 1 + 3 + [(9 : UInt8)].length := rfl
  have hfails : ∃ v', (serviceHandler UmtpAddr.zero ⟨5, 0, .block 3⟩
      ((Ptr.add ⟨.taskBuf, [1, 0, 0, 5, 9], 0⟩ 1).add 3) (restLen 4 3)).run
      (failingServer.received ⟨.taskBuf, [1, 0, 0, 5, 9], 0⟩ ⟨0, umtpPduRequest, 5, 0, 3⟩) =
      .ok (7, ⟨5, 0, .block 3⟩) v' := ⟨_, rfl⟩
  obtain ⟨v', hservice⟩ := hfails
  obtain ⟨apdu, hsubmits, hreceives⟩ := error_status_iff (w := failingClient)
    Nat.one_ne_zero (show (2 : Ref) ≠ 0 by decide) hh rfl hp hlen hservice (by decide) rfl rfl
  exact ⟨apdu, hsubmits, fun q n src hq hn => (hreceives q n src hq hn).2.mpr (by decide)⟩

/-- A request without data fails with `-EINVAL`, and the client hears of 234. -/
theorem error_status_einval :
    ∃ apdu, Submits 1 UmtpAddr.zero apdu
        (npduHandler 1 UmtpAddr.zero ⟨.taskBuf, [1, 0, 0, 5], 0⟩ 4) failingServer ∧
      (serviceHandler UmtpAddr.zero ⟨5, 0, .block 3⟩ ⟨.taskBuf, [1, 0, 0, 5], 4⟩ 0).run
        failingServer = .ok (-einval, ⟨5, 0, .block 3⟩) failingServer ∧
      ∀ (q : Ptr) (n : UInt16) (src : UmtpAddr), fttpProtocolVersion :: apdu <+: q.bytes →
        n.toNat = 1 + apdu.length →
        ReceivesError ⟨0, umtpPduRequest, 5, 0, 3⟩ src 234 (fun _ _ _ _ => ())
          (npduHandler 2 src q n) failingClient ∧
        ¬ ReceivesError ⟨0, umtpPduRequest, 5, 0, 3⟩ src (-einval) (fun _ _ _ _ => ())
          (npduHandler 2 src q n) failingClient := by
  have hh : (⟨0, umtpPduRequest, 5, 0, 3⟩ : ApduHeader).WellFormed :=
    ⟨by decide, by decide, by decide⟩
  have hp : fttpProtocolVersion :: ((⟨0, umtpPduRequest, 5, 0, 3⟩ : ApduHeader).bytes ++ []) <+:
      (⟨.taskBuf, [1, 0, 0, 5], 0⟩ : Ptr).bytes := by decide
  have hlen : (4 : UInt16).toNat = 1 + 3 + ([] : List UInt8).length := rfl
  have hservice : (serviceHandler UmtpAddr.zero ⟨5, 0, .block 3⟩
      ((Ptr.add ⟨.taskBuf, [1, 0, 0, 5], 0⟩ 1).add 3) (restLen 3 3)).run
      (failingServer.received ⟨.taskBuf, [1, 0, 0, 5], 0⟩ ⟨0, umtpPduRequest, 5, 0, 3⟩) =
      .ok (-einval, ⟨5, 0, .block 3⟩) (failingServer.received ⟨.taskBuf, [1, 0, 0, 5], 0⟩
        ⟨0, umtpPduRequest, 5, 0, 3⟩) := rfl
  refine ⟨_, npduHandler_submitsError Nat.one_ne_zero hh rfl hp hlen hservice (by decide), rfl, ?_⟩
  intro q n src hq hn
  have hreceives : ReceivesError _ src (-einval % 256) _ (npduHandler 2 src q n) failingClient :=
    npduHandler_receivesError (by decide) hh hq hn rfl rfl src
  exact ⟨hreceives, fun hsame => absurd (hreceives.status hsame) (by decide)⟩

end Umtp
