import Umtp.Apdu
import Umtp.SessionTable

/-! The request that `umtp_apdu_submit` makes: its bytes, and the slot that keeps a copy. -/

set_option autoImplicit false

namespace Umtp
open CheckedBuffer StateExcept

variable {σ : Type}

def ApduData.flag (d : ApduData) : UInt8 := if d.confirmed then apduFlagSetSessionId 0 else 0

def ApduData.serviceByte (d : ApduData) : UInt8 := UInt8.ofInt d.service

def ApduData.headerLen (d : ApduData) : Nat := if d.confirmed then 4 else 3

def ApduData.header (d : ApduData) (id : UInt8) : List UInt8 :=
  [d.flag, umtpPduRequest, d.serviceByte] ++ if d.confirmed then [id] else []

def ApduData.payload (d : ApduData) : List UInt8 := d.data.cells.take d.dataLen.toNat

def ApduData.apdu (d : ApduData) (id : UInt8) : List UInt8 := d.header id ++ d.payload

def ApduData.Fits (d : ApduData) : Prop := (d.headerLen : Int) + d.dataLen ≤ maxApdu

/-- `data_len` counts bytes of the `data` array. -/
def ApduData.InRange (d : ApduData) : Prop := 0 ≤ d.dataLen ∧ d.dataLen ≤ maxApdu

def World.granted (w : World σ) (d : ApduData) : World σ :=
  if d.confirmed then { w with sessions := (umtpFreeSession w.apduTimeout w.sessions).1 } else w

def World.grantedId (w : World σ) (d : ApduData) : UInt8 :=
  if d.confirmed then (umtpFreeSession w.apduTimeout w.sessions).2 else 0

/-- Submitting needs no sleep: no id is needed, or there is one. -/
def World.Grants (w : World σ) (d : ApduData) : Prop :=
  d.confirmed = true → (umtpFreeSession w.apduTimeout w.sessions).2 ≠ 0

theorem ApduData.header_length (d : ApduData) (id : UInt8) :
    (d.header id).length = d.headerLen := by
  unfold header headerLen
  split <;> rfl

theorem ApduData.headerLen_le (d : ApduData) : 3 ≤ d.headerLen ∧ d.headerLen ≤ 4 := by
  unfold headerLen
  split <;> omega

theorem ApduData.payload_length {d : ApduData} (h : d.InRange) :
    d.payload.length = d.dataLen.toNat := by
  have hmax : (maxApdu : Int) = 1024 := rfl
  have hmax' : maxApdu = 1024 := rfl
  have := h.2
  simp [payload]
  omega

theorem ApduData.apdu_length {d : ApduData} (h : d.InRange) (id : UInt8) :
    (d.apdu id).length = d.headerLen + d.dataLen.toNat := by
  rw [apdu, List.length_append, d.header_length, payload_length h]

theorem ApduData.apdu_confirmed {d : ApduData} (hd : d.InRange) (hc : d.confirmed = true)
    (id : UInt8) :
    (d.apdu id)[2]? = some d.serviceByte ∧ (d.apdu id).drop 4 = d.payload ∧
      (d.apdu id).length = 4 + d.payload.length := by
  have hlen := d.apdu_length hd id
  rw [← d.payload_length hd] at hlen
  simp only [ApduData.headerLen, hc, if_true] at hlen
  simp only [ApduData.apdu, ApduData.header, hc, if_true] at hlen ⊢
  exact ⟨rfl, rfl, hlen⟩

theorem World.grants_iff (w : World σ) (d : ApduData) :
    w.Grants d ↔ d.confirmed = false ∨ ∃ i, (w.sessions.session i).sessionId = 0 := by
  have hfull := (umtpFreeSession_spec w.apduTimeout w.sessions).full
  cases hc : d.confirmed with
  | false => simp [Grants, hc]
  | true => simp [Grants, hc, hfull]

theorem encodeRequestHeader_run {w : World σ} {d : ApduData} (hg : w.Grants d) :
    ∃ tmp, (Buf.fill maxApdu 0).write 0 (d.header (w.grantedId d)) = some tmp ∧
      (encodeRequestHeader d).run w = .ok (tmp, w.grantedId d, d.headerLen) (w.granted d) := by
  have hle := d.headerLen_le
  have hmax : maxApdu = 1024 := rfl
  obtain ⟨tmp, htmp⟩ : ∃ tmp, (Buf.fill maxApdu (0 : UInt8)).write 0 (d.header (w.grantedId d)) =
      some tmp := Buf.exists_write (by rw [d.header_length]; omega)
  refine ⟨tmp, htmp, ?_⟩
  unfold ApduData.header at htmp
  obtain ⟨b1, h1, htmp⟩ := Buf.write_cons_some htmp
  obtain ⟨b2, h2, htmp⟩ := Buf.write_cons_some htmp
  unfold ApduData.flag at h1
  unfold ApduData.serviceByte at htmp
  by_cases hc : d.confirmed = true
  · have hid := hg hc
    have hflag : apduHasSessionId (apduFlagSetSessionId 0) = true := by decide
    rw [if_pos hc] at h1
    simp only [World.grantedId, hc, if_true] at htmp
    obtain ⟨b3, h3, h4⟩ := Buf.write_cons_some htmp
    simp [encodeRequestHeader, hc, hflag, poke_run h1, poke_run h2, poke_run h3, awaitFreeSession,
      hid, poke_run h4, World.grantedId, World.granted, ApduData.headerLen]
  · have hflag : apduHasSessionId 0 = false := by decide
    rw [if_neg hc] at h1 htmp
    have h3 : b2.write 2 [UInt8.ofInt d.service] = some tmp := htmp
    simp [encodeRequestHeader, hc, hflag, poke_run h1, poke_run h2, poke_run h3,
      World.grantedId, World.granted, ApduData.headerLen]

theorem encodeRequestHeader_asleep {w : World σ} {d : ApduData} (hg : ¬ w.Grants d) :
    (encodeRequestHeader d).run w = .error .asleep w := by
  simp only [World.Grants, Classical.not_imp, not_not] at hg
  obtain ⟨hc, hid⟩ := hg
  have hfull : sessionGetIndex w.sessions 0 = none := by
    rw [sessionGetIndex_none]
    exact (umtpFreeSession_spec w.apduTimeout w.sessions).full.mp hid
  have hstay : (umtpFreeSession w.apduTimeout w.sessions).1 = w.sessions := by
    rw [umtpFreeSession_full hfull]
  obtain ⟨b1, h1⟩ : ∃ b, (Buf.fill maxApdu (0 : UInt8)).write 0 [apduFlagSetSessionId 0] = some b :=
    Buf.exists_write (by decide)
  obtain ⟨b2, h2⟩ : ∃ b, b1.write 1 [umtpPduRequest] = some b := Buf.exists_write (by decide)
  obtain ⟨b3, h3⟩ : ∃ b, b2.write 2 [UInt8.ofInt d.service] = some b :=
    Buf.exists_write (show 3 ≤ maxApdu by decide)
  have hflag : apduHasSessionId (apduFlagSetSessionId 0) = true := by decide
  simp [encodeRequestHeader, hc, hflag, poke_run h1, poke_run h2, poke_run h3, awaitFreeSession,
    hid, hstay]

section

variable {umtp : Ref} (hu : umtp ≠ 0) {w : World σ} {d : ApduData} (dst : UmtpAddr)

include hu

theorem umtpApduSubmit_asleep (hg : ¬ w.Grants d) :
    (umtpApduSubmit umtp dst (some d)).run w = .error .asleep w := by
  simp [umtpApduSubmit, hu, encodeRequestHeader_asleep hg]

variable (hg : w.Grants d) (hd : d.InRange)

include hg hd

/-- A request that is too long is stored over the end of `tmp`. -/
theorem umtpApduSubmit_overrun (hfits : ¬ d.Fits) :
    (umtpApduSubmit umtp dst (some d)).run w =
      .error (.overrun .submitTmp maxApdu) (w.granted d) := by
  obtain ⟨tmp, -, hhead⟩ := encodeRequestHeader_run hg
  obtain ⟨h0, hle⟩ := hd
  have hmax : (maxApdu : Int) = 1024 := rfl
  have hmax' : maxApdu = 1024 := rfl
  have hheader := d.headerLen_le
  unfold ApduData.Fits at hfits
  have hover : (memcpy .submitTmp tmp d.headerLen ⟨.apduData, d.data.cells, 0⟩
      d.dataLen.toNat).run (w.granted d) = .error (.overrun .submitTmp maxApdu) (w.granted d) := by
    rw [memcpy_overrun (by simp; omega) (by omega), Nat.max_eq_left (by omega)]
  simp [umtpApduSubmit, hu, hhead, sizeT_of_nonneg h0 (show d.dataLen < 2 ^ 64 by omega), hover]

def submitEncoded (umtp : Ref) (dst : UmtpAddr) (d : ApduData) (id : UInt8)
    (tmp : Buf UInt8 maxApdu) : Proc σ Int := do
  if d.confirmed then
    sessionSet id (some .apduTimeoutHandler) umtp dst ⟨.submitTmp, tmp.cells, 0⟩
      (UInt16.ofInt (d.headerLen + d.dataLen))
  _umtpApduSubmit umtp dst ⟨.submitTmp, tmp.cells, 0⟩ (d.headerLen + d.dataLen)

theorem umtpApduSubmit_fits (hfits : d.Fits) :
    ∃ tmp : Buf UInt8 maxApdu,
      tmp.cells.take (d.headerLen + d.dataLen.toNat) = d.apdu (w.grantedId d) ∧
      (umtpApduSubmit umtp dst (some d)).run w =
        (submitEncoded umtp dst d (w.grantedId d) tmp).run (w.granted d) := by
  obtain ⟨tmp, htmp, hhead⟩ := encodeRequestHeader_run hg
  have hlen := d.payload_length hd
  obtain ⟨h0, hle⟩ := hd
  have hmax : (maxApdu : Int) = 1024 := rfl
  have hmax' : maxApdu = 1024 := rfl
  unfold ApduData.Fits at hfits
  obtain ⟨tmp', htmp'⟩ : ∃ tmp', tmp.write d.headerLen d.payload = some tmp' :=
    Buf.exists_write (by rw [hlen]; omega)
  refine ⟨tmp', ?_, ?_⟩
  · have htake := Buf.take_write_after htmp ((d.header_length _).symm ▸ htmp')
    rwa [d.header_length, hlen] at htake
  · have hcopy : (memcpy .submitTmp tmp d.headerLen ⟨.apduData, d.data.cells, 0⟩
        d.dataLen.toNat).run (w.granted d) = .ok tmp' (w.granted d) :=
      memcpy_run (by simp; omega) htmp' (w.granted d)
    have hsize : ¬ maxApdu < d.data.cells.length := by simp
    simp only [umtpApduSubmit, hu, hhead, sizeT_of_nonneg h0 (show d.dataLen < 2 ^ 64 by omega),
      EStateM.run_bind, hcopy, submitEncoded, if_false, hsize]

end

def SendsOnly (w w' : World σ) : Prop :=
  w'.services = w.services ∧ ∃ es, w'.trace = w.trace ++ es ∧ ∀ e ∈ es, e.IsSend

instance : Std.Refl (@SendsOnly σ) := ⟨fun _ => ⟨rfl, [], by simp, by simp⟩⟩

instance : IsTrans (World σ) SendsOnly where
  trans := by
    rintro w₁ w₂ w₃ ⟨hs, es, ht, hes⟩ ⟨hs', fs, ht', hfs⟩
    refine ⟨hs'.trans hs, es ++ fs, by simp [ht', ht], ?_⟩
    intro e he
    exact (List.mem_append.mp he).elim (hes e) (hfs e)

theorem CallsOut.sendsOnly {w w' : World σ} (h : CallsOut Event.IsSend w w') : SendsOnly w w' := by
  obtain ⟨es, app, hes, rfl⟩ := h
  exact ⟨rfl, es, rfl, hes⟩

theorem umtpSessionSet_run {s : SessionState} {id : UInt8} {i : Fin maxUmtpSession} (hid : id ≠ 0)
    (hi : sessionGetIndex s id = some i) {pdu : Ptr} {pduLen : UInt16}
    (hread : pdu.off + pduLen.toNat ≤ pdu.obj.length) (hfit : pduLen.toNat ≤ maxPdu) (t : UInt32)
    (timeout : Option TimeoutFn) (data : Ref) (dest : UmtpAddr) :
    ∃ copy : Buf UInt8 maxPdu, copy.cells.take pduLen.toNat = pdu.bytes.take pduLen.toNat ∧
      (umtpSessionSet t id timeout data dest pdu pduLen).run s =
        .ok () (s.modifySlot i (fun x => (x.armed t timeout data).stored copy pduLen dest)) := by
  have hlen : (pdu.bytes.take pduLen.toNat).length = pduLen.toNat := by
    simp [Ptr.bytes]
    omega
  obtain ⟨copy, hcopy⟩ : ∃ copy, (s.session i).pdu.write 0 (pdu.bytes.take pduLen.toNat) =
      some copy := Buf.exists_write (by omega)
  refine ⟨copy, ?_, ?_⟩
  · have := Buf.read_write hcopy
    rwa [hlen] at this
  · have hrun : ∀ u : SessionState, (memcpy (.sessionPdu i) (s.session i).pdu 0 pdu
        pduLen.toNat).run u = .ok copy u := memcpy_run hread hcopy
    simp [umtpSessionSet, hid, hi, Session.armed, hrun]

/-- A slot that waits for the reply to a request, and will send it again until then. -/
structure Session.Awaits (x : Session) (umtp : Ref) (dst : UmtpAddr) (id : UInt8) (timer : UInt32)
    (apdu : List UInt8) : Prop where
  sessionId : x.sessionId = id
  waiting : x.waiting = true
  retry : x.retry = 0
  timer : x.timer = timer
  timeout : x.timeout = some .apduTimeoutHandler
  dest : x.dest = dst
  data : x.data = umtp
  pduLen : x.pduLen.toNat = apdu.length
  pdu : x.pdu.cells.take apdu.length = apdu

section

variable {umtp : Ref} (hu : umtp ≠ 0) {w : World σ} {d : ApduData} (dst : UmtpAddr)
  (hg : w.Grants d) (hd : d.InRange) (hfits : d.Fits)

include hu hg hd hfits

theorem umtpApduSubmit_unconfirmed (hc : d.confirmed = false) :
    ∃ tmp : Buf UInt8 maxApdu, tmp.cells.take (d.apdu 0).length = d.apdu 0 ∧
      (umtpApduSubmit umtp dst (some d)).run w =
        (_umtpApduSubmit umtp dst ⟨.submitTmp, tmp.cells, 0⟩ (d.apdu 0).length).run w := by
  obtain ⟨tmp, htmp, hrun⟩ := umtpApduSubmit_fits hu dst hg hd hfits
  have hid : w.grantedId d = 0 := by simp [World.grantedId, hc]
  have hsame : w.granted d = w := by simp [World.granted, hc]
  have h0 := hd.1
  have hlen : (d.headerLen : Int) + d.dataLen = (d.apdu 0).length := by
    rw [d.apdu_length hd]
    omega
  rw [hid, ← d.apdu_length hd 0] at htmp
  refine ⟨tmp, htmp, ?_⟩
  rw [hrun, hsame, submitEncoded, hc, hlen]
  simp

theorem umtpApduSubmit_confirmed (hc : d.confirmed = true) :
    ∃ i x c tmp, (w.sessions.session i).sessionId = 0 ∧ w.grantedId d ≠ 0 ∧
      (∀ j, (w.sessions.session j).sessionId ≠ w.grantedId d) ∧
      x.Awaits umtp dst (w.grantedId d) w.apduTimeout (d.apdu (w.grantedId d)) ∧
      (tmp : Buf UInt8 maxApdu).cells.take (d.apdu (w.grantedId d)).length =
        d.apdu (w.grantedId d) ∧
      (umtpApduSubmit umtp dst (some d)).run w =
        (_umtpApduSubmit umtp dst ⟨.submitTmp, tmp.cells, 0⟩
          (d.apdu (w.grantedId d)).length).run
          { w with sessions := { w.sessions.modifySlot i (fun _ => x) with sessionId := c } } := by
  obtain ⟨tmp, htmp, hrun⟩ := umtpApduSubmit_fits hu dst hg hd hfits
  have hid : w.grantedId d = (umtpFreeSession w.apduTimeout w.sessions).2 := by
    simp [World.grantedId, hc]
  have hne : w.grantedId d ≠ 0 := hid ▸ hg hc
  obtain ⟨i, c, hfree, hunused, htable, hindex⟩ := umtpFreeSession_grant (hg hc)
  rw [← hid] at hunused htable hindex
  have hlen := d.apdu_length hd (w.grantedId d)
  have hint : (d.headerLen : Int) + d.dataLen = (d.apdu (w.grantedId d)).length := by
    have := hd.1
    omega
  have hmax : maxApdu = 1024 := rfl
  have hpdu : maxPdu = 2049 := rfl
  have hbound : (d.apdu (w.grantedId d)).length ≤ maxApdu := by
    unfold ApduData.Fits at hfits
    omega
  have hshort := uint16_ofInt_toNat (show 0 ≤ ((d.apdu (w.grantedId d)).length : Int) by omega)
    (by omega)
  rw [Int.toNat_natCast] at hshort
  have hread : (⟨.submitTmp, tmp.cells, 0⟩ : Ptr).off +
      (UInt16.ofInt (d.apdu (w.grantedId d)).length).toNat ≤ tmp.cells.length := by
    rw [hshort, Buf.length_cells]
    simpa using hbound
  obtain ⟨copy, hcopy, hset⟩ := umtpSessionSet_run hne hindex hread (by omega) w.apduTimeout
    (some .apduTimeoutHandler) umtp dst
  rw [hshort] at hcopy
  rw [← hlen] at htmp
  refine ⟨i, (((w.sessions.session i).granted (w.grantedId d) w.apduTimeout).armed w.apduTimeout
    (some .apduTimeoutHandler) umtp).stored copy (UInt16.ofInt (d.apdu (w.grantedId d)).length) dst,
    c, tmp, hfree, hne, hunused, ⟨rfl, rfl, rfl, rfl, rfl, rfl, rfl, hshort, hcopy.trans htmp⟩,
    htmp, ?_⟩
  have hgranted : w.granted d =
      { w with sessions := (umtpFreeSession w.apduTimeout w.sessions).1 } := by
    simp [World.granted, hc]
  rw [hrun, submitEncoded, hc, if_pos rfl, EStateM.run_bind, hint, hgranted, sessionSet_run,
    onSessions_run, hset]
  simp [htable, SessionState.modifySlot]

end

section

variable {umtp : Ref} (hu : umtp ≠ 0) {w w' : World σ} {d : ApduData} {dst : UmtpAddr}
  (hd : d.InRange) {r : Int} (hrun : (umtpApduSubmit umtp dst (some d)).run w = .ok r w')

include hu hd hrun

/-- A submission that comes back had an id to use and room for the request. -/
theorem umtpApduSubmit_ok : w.Grants d ∧ d.Fits := by
  have hg : w.Grants d := by
    by_contra hg
    rw [umtpApduSubmit_asleep hu dst hg] at hrun
    cases hrun
  refine ⟨hg, ?_⟩
  by_contra hfits
  rw [umtpApduSubmit_overrun hu dst hg hd hfits] at hrun
  cases hrun

theorem umtpApduSubmit_table (hc : d.confirmed = true) :
    ∃ i x c, (w.sessions.session i).sessionId = 0 ∧ w.grantedId d ≠ 0 ∧
      (∀ j, (w.sessions.session j).sessionId ≠ w.grantedId d) ∧
      x.Awaits umtp dst (w.grantedId d) w.apduTimeout (d.apdu (w.grantedId d)) ∧
      w'.sessions = { w.sessions.modifySlot i (fun _ => x) with sessionId := c } ∧
      SendsOnly w w' := by
  obtain ⟨hg, hfits⟩ := umtpApduSubmit_ok hu hd hrun
  obtain ⟨i, x, c, tmp, hfree, hne, hunused, hx, -, hsubmit⟩ :=
    umtpApduSubmit_confirmed hu dst hg hd hfits hc
  rw [hsubmit] at hrun
  have : Std.Refl (fun u v : World σ => v.sessions = u.sessions) := ⟨fun _ => rfl⟩
  have : IsTrans (World σ) (fun u v => v.sessions = u.sessions) := ⟨fun _ _ _ h h' => h'.trans h⟩
  have hsame := _umtpApduSubmit_moves (R := fun u v : World σ => v.sessions = u.sessions)
    (fun _ _ h => h.sessions) (fun _ _ => rfl) umtp dst ⟨.submitTmp, tmp.cells, 0⟩
    (d.apdu (w.grantedId d)).length
  have hsends : Moves (@SendsOnly σ) (_umtpApduSubmit umtp dst ⟨.submitTmp, tmp.cells, 0⟩
      (d.apdu (w.grantedId d)).length) :=
    _umtpApduSubmit_moves (fun _ _ h => h.sendsOnly)
      (fun _ _ => ⟨rfl, [], (List.append_nil _).symm, by simp⟩) umtp dst _ _
  obtain ⟨hservices, hcalls⟩ := hsends.of_ok hrun
  exact ⟨i, x, c, hfree, hne, hunused, hx, hsame.of_ok hrun, hservices, hcalls⟩

end

end Umtp
