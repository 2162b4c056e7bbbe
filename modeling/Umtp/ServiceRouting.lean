import Umtp.RequestRoundTrip
import Umtp.SlotPass

set_option autoImplicit false

namespace Umtp
open CheckedBuffer StateExcept

variable {σ τ : Type}

/-- All requests that a computation hands over are for the type registered under `s`. -/
def RequestsOnly (s : Int) (x : Proc τ Int) (v : World τ) : Prop :=
  ∃ es, (final (x.run v)).trace = v.trace ++ es ∧
    ∀ service src data len, .req service src data len ∈ es →
      service = s ∧ (serviceTypeGet v.services s).isSome = true

/-- All timeouts among these calls are reported to the type registered under `s`. -/
def TimeoutsOnly (s : Int) (es : List Event) : Prop :=
  ∀ service dst id data len, .timeout service dst id data len ∈ es → service = s

def InByte (s : Int) : Prop := 0 ≤ s ∧ s ≤ 255

theorem inByte_iff (s : Int) : s % 256 = s ↔ InByte s := by
  unfold InByte
  omega

section

variable {umtp : Ref} (hu : umtp ≠ 0) {d : ApduData} {id : UInt8} (hd : d.InRange) {p : Ptr}
  (hp : fttpProtocolVersion :: d.apdu id <+: p.bytes) {len : UInt16}
  (hlen : len.toNat = 1 + (d.apdu id).length) (src : UmtpAddr) {v : World τ}

include hu hd hp hlen

theorem npduHandler_unrouted
    (h : serviceTypeGet v.services (d.service % 256) = none ∨ d.dataLen = 0) :
    ∃ es, (final ((npduHandler umtp src p len).run v)).trace = v.trace ++ es ∧
      ∀ e ∈ es, e.IsSend := by
  obtain ⟨hmsg, hcount⟩ := requestHeader_message hd hp hlen
  obtain ⟨-, hrest, -⟩ := message_payload (d.requestHeader_wellFormed id) hmsg hcount
  have hpay := d.payload_length hd
  have hservice : ∃ r, (serviceHandler src
      ⟨(d.requestHeader id).service.toNat, 0, .block (d.requestHeader id).decodeLen⟩
      ((p.add 1).add (d.requestHeader id).decodeLen)
      (restLen (len - 1) (d.requestHeader id).decodeLen)).run
      (v.received p (d.requestHeader id)) = .ok r (v.received p (d.requestHeader id)) := by
    by_cases hzero : restLen (len - 1) (d.requestHeader id).decodeLen = 0
    · exact ⟨_, serviceHandler_empty hzero⟩
    · cases h with
      | inl hget =>
        have habsent : serviceTypeGet (v.received p (d.requestHeader id)).services
            (d.requestHeader id).service.toNat = none := by
          show serviceTypeGet v.services (d.serviceByte.toNat : Int) = none
          rw [d.serviceByte_mod, hget]
        exact ⟨_, serviceHandler_absent hzero habsent⟩
      | inr hempty =>
        rw [hpay, hempty] at hrest
        exact absurd (UInt32.toNat_inj.mp hrest) hzero
  obtain ⟨r, hservice⟩ := hservice
  obtain ⟨es, htrace, hes⟩ := apduRequest_uncalled hservice umtp
  rw [← npduHandler_request hu hd hp hlen src v] at htrace
  exact ⟨es, htrace, hes⟩

/-- `service_type_register` takes no type without a request handler. -/
theorem requestsOnly_iff (hreg : ∀ type ∈ v.services, type.reqHandler.isSome = true) :
    RequestsOnly d.service (npduHandler umtp src p len) v ↔
      InByte d.service ∨ serviceTypeGet v.services (d.service % 256) = none ∨ d.dataLen = 0 := by
  by_cases hnone : serviceTypeGet v.services (d.service % 256) = none ∨ d.dataLen = 0
  · refine ⟨fun _ => .inr hnone, fun _ => ?_⟩
    obtain ⟨es, htrace, hes⟩ := npduHandler_unrouted hu hd hp hlen src hnone
    exact ⟨es, htrace, fun _ _ _ _ he => (hes _ he).elim⟩
  · rw [not_or] at hnone
    obtain ⟨type, hget⟩ := Option.ne_none_iff_exists'.mp hnone.1
    have h0 := hd.1
    obtain ⟨f, hf⟩ := Option.isSome_iff_exists.mp (hreg type (serviceTypeGet_mem hget))
    obtain ⟨data, es, htrace, -, hes⟩ := npduHandler_routed hu hd hp hlen (by omega) hget hf src
    constructor
    · rintro ⟨fs, htrace', hfs⟩
      rw [htrace, List.append_cancel_left_eq] at htrace'
      have hcalled := (hfs (d.service % 256) src data d.payload.length (by simp [← htrace'])).1
      exact .inl ((inByte_iff _).mp hcalled)
    · rintro (hbyte | habsent)
      · rw [(inByte_iff _).mpr hbyte] at htrace hget
        refine ⟨_, htrace, ?_⟩
        intro service src' data' len' he
        cases List.mem_cons.mp he with
        | inl heq =>
          cases heq
          exact ⟨rfl, by simp [hget]⟩
        | inr hmem => exact (hes _ hmem).elim
      · exact absurd habsent (not_or.mpr hnone)

end

structure Session.Keeps (x : Session) (apdu : List UInt8) : Prop where
  timeout : x.timeout = some .apduTimeoutHandler
  pdu : x.pdu.cells.take apdu.length = apdu

theorem Session.Awaits.keeps {x : Session} {umtp : Ref} {dst : UmtpAddr} {id : UInt8}
    {timer : UInt32} {apdu : List UInt8} (h : x.Awaits umtp dst id timer apdu) : x.Keeps apdu :=
  ⟨h.timeout, h.pdu⟩

section

variable {ms : UInt16} {i : Fin maxUmtpSession} {u u' : World σ}
  (hrun : (umtpSessionProcess ms).run u = .ok () u')

include hrun

theorem slotEvents_kept (hout : ¬ u.RunsOut ms i) : ∀ e ∈ slotEvents ms i u, e.IsSend := by
  obtain ⟨v, hat, -⟩ := umtpSessionProcess_slot (i := i) hrun
  rw [← (passBefore_same u : SameSlot i u (passBefore ms i u)).runsOut] at hout
  obtain ⟨⟨es, htrace, hes⟩, -⟩ := processSlot_kept hat hout
  rwa [slotEvents, hat, final_ok, htrace, List.drop_left]

theorem slotEvents_gaveUp (hout : u.RunsOut ms i) {service : UInt8}
    (hto : (u.sessions.session i).timeout = some .apduTimeoutHandler)
    (hservice : (u.sessions.session i).pdu.cells[2]? = some service) :
    slotEvents ms i u = timeoutEvents u.services (u.sessions.session i).dest service.toNat
      (((u.sessions.session i).pduPtr i).add 4) ((u.sessions.session i).pduLen.toNat - 4) := by
  obtain ⟨v, hat, -⟩ := umtpSessionProcess_slot (i := i) hrun
  have hsame : SameSlot i u (passBefore ms i u) := passBefore_same u
  rw [← hsame.runsOut] at hout
  rw [← hsame.slot] at hto hservice
  obtain ⟨-, htrace⟩ := processSlot_gaveUp hat hout.1 hout.2.1 hout.2.2 hto hservice
  rw [hsame.services, hsame.slot] at htrace
  rw [slotEvents, hat, final_ok, htrace, List.drop_left]

theorem timeoutsOnly_iff {d : ApduData} {id : UInt8}
    (hkeeps : (u.sessions.session i).Keeps (d.apdu id)) :
    TimeoutsOnly d.service (slotEvents ms i u) ↔
      InByte d.service ∨ ¬ u.RunsOut ms i ∨
        ((serviceTypeGet u.services (d.service % 256)).bind ServiceType.timeoutHandler) = none := by
  by_cases hout : u.RunsOut ms i
  · have hbyte : (u.sessions.session i).pdu.cells[2]? = some d.serviceByte := by
      have hlen : 3 ≤ (d.apdu id).length := by
        simp [ApduData.apdu, ApduData.header]
      have hthird : (d.apdu id)[2]? = some d.serviceByte := by
        simp [ApduData.apdu, ApduData.header]
      rw [← hthird, ← hkeeps.pdu, List.getElem?_take_of_lt (by omega)]
    rw [slotEvents_gaveUp hrun hout hkeeps.timeout hbyte, d.serviceByte_mod, timeoutEvents]
    cases hget : (serviceTypeGet u.services (d.service % 256)).bind ServiceType.timeoutHandler with
    | none => simp [TimeoutsOnly]
    | some g =>
      simp only [TimeoutsOnly, Option.isSome_some, if_true, List.mem_singleton, hout, not_true,
        reduceCtorEq, or_false]
      rw [← inByte_iff]
      constructor
      · intro h
        exact h _ _ _ _ _ rfl
      · intro hmod service dst' id' data' len' he
        cases he
        exact hmod
  · refine ⟨fun _ => .inr (.inl hout), fun _ service dst id' data len he => ?_⟩
    exact (slotEvents_kept hrun hout _ he).elim

end

theorem service_routing_iff {umtp umtp' : Ref} (hu : umtp ≠ 0) (hu' : umtp' ≠ 0) {w : World σ}
    {d : ApduData} (hg : w.Grants d) (hd : d.InRange) (hfits : d.Fits) (dst : UmtpAddr) :
    ∃ s, StoresRequest umtp dst d w { w with sessions := s } ∧
      ∃ tmp : Buf UInt8 maxApdu, d.apdu (w.grantedId d) <+: tmp.cells ∧
        (umtpApduSubmit umtp dst (some d)).run w =
          (_umtpApduSubmit umtp dst ⟨.submitTmp, tmp.cells, 0⟩
            (d.apdu (w.grantedId d)).length).run { w with sessions := s } ∧
      (∀ (p : Ptr) (len : UInt16) (src : UmtpAddr) (v : World τ),
        fttpProtocolVersion :: d.apdu (w.grantedId d) <+: p.bytes →
        len.toNat = 1 + (d.apdu (w.grantedId d)).length →
        (∀ type ∈ v.services, type.reqHandler.isSome = true) →
        (RequestsOnly d.service (npduHandler umtp' src p len) v ↔
          InByte d.service ∨ serviceTypeGet v.services (d.service % 256) = none ∨ d.dataLen = 0)) ∧
      ∀ (i : Fin maxUmtpSession) (ms : UInt16) (u u' : World σ),
        (u.sessions.session i).Keeps (d.apdu (w.grantedId d)) →
        (umtpSessionProcess ms).run u = .ok () u' →
        (TimeoutsOnly d.service (slotEvents ms i u) ↔
          InByte d.service ∨ ¬ u.RunsOut ms i ∨
            (serviceTypeGet u.services (d.service % 256)).bind ServiceType.timeoutHandler =
              none) := by
  obtain ⟨s, hstores, tmp, htmp, hrun⟩ := umtpApduSubmit_stored hu dst hg hd hfits
  refine ⟨s, hstores, tmp, htmp, hrun, ?_, ?_⟩
  · intro p len src v hp hlen hreg
    exact requestsOnly_iff hu' hd hp hlen src hreg
  · intro i ms u u' hkeeps hpass
    exact timeoutsOnly_iff hpass hkeeps

theorem service_routing_zero :
    RequestsOnly (zeroData false 1).service (npduHandler 1 UmtpAddr.zero
      ⟨.taskBuf, fttpProtocolVersion :: (zeroData false 1).apdu 0, 0⟩ 5) silentServer := by
  obtain ⟨s, -, tmp, -, -, hreceiver, -⟩ := service_routing_iff (τ := Unit) (w := startedNode)
    (d := zeroData false 1) Nat.one_ne_zero Nat.one_ne_zero (fun h => absurd h (by decide))
    ⟨by decide, by decide⟩ (by unfold ApduData.Fits; decide) UmtpAddr.zero
  refine (hreceiver _ 5 UmtpAddr.zero silentServer List.prefix_rfl (by decide) ?_).mpr ?_
  · intro type htype
    rw [List.mem_singleton.mp htype]
    rfl
  · exact .inl ⟨by decide, by decide⟩

def strayData : ApduData := { zeroData false 1 with service := 261 }

/-- A request for service 261 comes to the receiver's service 5, and no service is 261. -/
theorem stray_request_routed :
    serviceTypeGet silentServer.services strayData.service = none ∧
    CallsRequest 5 UmtpAddr.zero strayData.payload silentServer
      (final ((npduHandler 1 UmtpAddr.zero
        ⟨.taskBuf, fttpProtocolVersion :: strayData.apdu 0, 0⟩ 5).run silentServer)) ∧
    ¬ RequestsOnly strayData.service (npduHandler 1 UmtpAddr.zero
      ⟨.taskBuf, fttpProtocolVersion :: strayData.apdu 0, 0⟩ 5) silentServer := by
  have hbytes : fttpProtocolVersion :: strayData.apdu 0 <+:
      (⟨.taskBuf, fttpProtocolVersion :: strayData.apdu 0, 0⟩ : Ptr).bytes := List.prefix_rfl
  have hcalls : CallsRequest 5 UmtpAddr.zero strayData.payload silentServer
      (final ((npduHandler 1 UmtpAddr.zero
        ⟨.taskBuf, fttpProtocolVersion :: strayData.apdu 0, 0⟩ 5).run silentServer)) :=
    npduHandler_routed Nat.one_ne_zero ⟨by decide, by decide⟩ hbytes
      (by decide : (5 : UInt16).toNat = _) (by decide) rfl rfl UmtpAddr.zero
  refine ⟨rfl, hcalls, ?_⟩
  rintro ⟨fs, htrace, hfs⟩
  obtain ⟨data, es, htrace', -, -⟩ := hcalls
  rw [htrace', List.append_cancel_left_eq] at htrace
  have hfive := (hfs 5 UmtpAddr.zero data strayData.payload.length (by simp [← htrace])).1
  exact absurd hfive (by decide)

end Umtp
