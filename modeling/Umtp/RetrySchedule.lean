import Umtp.Kit.FiniteRun
import Umtp.Node
import Umtp.RequestRoundTrip
import Umtp.SlotPass

set_option autoImplicit false

namespace Umtp
open CheckedBuffer StateExcept FiniteRun

variable {σ : Type}

/-- The milliseconds since the request was armed or last ran out, and how often it has. -/
structure Schedule where
  elapsed : Nat
  expiries : Nat

def Schedule.Due (timeout : Nat) (s : Schedule) (ms : Nat) : Prop := timeout ≤ s.elapsed + ms

instance (timeout : Nat) (s : Schedule) (ms : Nat) : Decidable (s.Due timeout ms) :=
  inferInstanceAs (Decidable (timeout ≤ s.elapsed + ms))

/-- After `retries` retries and one expiry more, time no longer counts. -/
def Schedule.tick (timeout retries : Nat) (s : Schedule) (ms : Nat) : Schedule :=
  if retries < s.expiries then s
  else if s.Due timeout ms then ⟨0, s.expiries + 1⟩
  else ⟨s.elapsed + ms, s.expiries⟩

def Schedule.after (timeout retries : Nat) (ms : List UInt16) : Schedule :=
  ms.foldl (fun s m => s.tick timeout retries m.toNat) ⟨0, 0⟩

/-- What the pass does for a request that has kept to the schedule so far: a resend while
there are retries left, then once the callback, and otherwise nothing. -/
def Schedule.events (timeout retries : Nat) (s : Schedule) (ms : Nat) (resend : Event)
    (giveUp : List Event) : List Event :=
  if s.Due timeout ms then
    if s.expiries < retries then [resend]
    else if s.expiries = retries then giveUp
    else []
  else []

structure Session.OnSchedule (x : Session) (umtp : Ref) (dst : UmtpAddr) (apdu : List UInt8)
    (timer : UInt32) (retries : UInt8) (s : Schedule) : Prop where
  waiting : x.waiting = true ↔ s.expiries ≤ retries.toNat
  freed : retries.toNat < s.expiries → x.sessionId = 0
  retry : s.expiries ≤ retries.toNat → x.retry.toNat = s.expiries
  timer : s.expiries ≤ retries.toNat → x.timer.toNat = timer.toNat - s.elapsed
  timeout : x.timeout = some .apduTimeoutHandler
  dest : x.dest = dst
  data : x.data = umtp
  pduLen : x.pduLen.toNat = apdu.length
  pdu : x.pdu.cells.take apdu.length = apdu

theorem Session.Awaits.onSchedule {x : Session} {umtp : Ref} {dst : UmtpAddr} {id : UInt8}
    {timer : UInt32} {apdu : List UInt8} (h : x.Awaits umtp dst id timer apdu) (retries : UInt8) :
    x.OnSchedule umtp dst apdu timer retries ⟨0, 0⟩ where
  waiting := by simp [h.waiting]
  freed hlt := absurd hlt (Nat.not_lt_zero _)
  retry _ := by simp [h.retry]
  timer _ := by simp [h.timer]
  timeout := h.timeout
  dest := h.dest
  data := h.data
  pduLen := h.pduLen
  pdu := h.pdu

theorem Session.ticked_timer (ms : UInt16) (x : Session) :
    (x.ticked ms).timer.toNat = x.timer.toNat - ms.toNat := by
  have hms : ms.toUInt32.toNat = ms.toNat := by simp
  unfold ticked
  split
  · rename_i hlt
    have hle := UInt32.lt_iff_toNat_lt.mp hlt
    rw [UInt32.toNat_sub_of_le _ _ (UInt32.le_iff_toNat_le.mpr (Nat.le_of_lt hle)), hms]
  · rename_i hlt
    have hle := UInt32.not_lt.mp hlt
    rw [UInt32.le_iff_toNat_le, hms] at hle
    simp
    omega

section

variable {x : Session} {umtp : Ref} {dst : UmtpAddr} {apdu : List UInt8} {timer : UInt32}
  {retries : UInt8} {s : Schedule} (h : x.OnSchedule umtp dst apdu timer retries s)
  (hle : s.expiries ≤ retries.toNat) (ms : UInt16)

include h hle

theorem Session.OnSchedule.due_iff :
    (x.ticked ms).timer = 0 ↔ s.Due timer.toNat ms.toNat := by
  rw [← UInt32.toNat_inj, Session.ticked_timer, h.timer hle]
  simp only [Schedule.Due, UInt32.toNat_zero]
  omega

theorem Session.OnSchedule.tick (hdue : ¬ s.Due timer.toNat ms.toNat) :
    (x.ticked ms).OnSchedule umtp dst apdu timer retries
      (s.tick timer.toNat retries.toNat ms.toNat) := by
  have hs : s.tick timer.toNat retries.toNat ms.toNat = ⟨s.elapsed + ms.toNat, s.expiries⟩ := by
    rw [Schedule.tick, if_neg (Nat.not_lt.mpr hle), if_neg hdue]
  rw [hs]
  have htimer := Session.ticked_timer ms x
  rw [h.timer hle] at htimer
  exact ⟨h.waiting, h.freed, h.retry, fun _ => by rw [htimer]; simp; omega, h.timeout, h.dest,
    h.data, h.pduLen, h.pdu⟩

theorem Session.OnSchedule.resend (hdue : s.Due timer.toNat ms.toNat)
    (hr : s.expiries < retries.toNat) :
    ((x.ticked ms).retried timer).OnSchedule umtp dst apdu timer retries
      (s.tick timer.toNat retries.toNat ms.toNat) := by
  have hs : s.tick timer.toNat retries.toNat ms.toNat = ⟨0, s.expiries + 1⟩ := by
    rw [Schedule.tick, if_neg (Nat.not_lt.mpr hle), if_pos hdue]
  have hlt := retries.toNat_lt
  have hretry := h.retry hle
  rw [hs]
  refine ⟨?_, ?_, ?_, fun _ => rfl, h.timeout, h.dest, h.data, h.pduLen, h.pdu⟩
  · have hw := h.waiting.mpr hle
    simpa [Session.retried, Session.ticked, hw] using Nat.succ_le_of_lt hr
  · intro hgt
    dsimp only at hgt
    omega
  · intro _
    simp [Session.retried, Session.ticked, UInt8.toNat_add, hretry]
    omega

theorem Session.OnSchedule.giveUp (hdue : s.Due timer.toNat ms.toNat)
    (hr : s.expiries = retries.toNat) :
    (x.ticked ms).released.OnSchedule umtp dst apdu timer retries
      (s.tick timer.toNat retries.toNat ms.toNat) := by
  have hs : s.tick timer.toNat retries.toNat ms.toNat = ⟨0, s.expiries + 1⟩ := by
    rw [Schedule.tick, if_neg (Nat.not_lt.mpr hle), if_pos hdue]
  rw [hs]
  refine ⟨?_, fun _ => rfl, ?_, ?_, h.timeout, h.dest, h.data, h.pduLen, h.pdu⟩
  · simp [Session.released, hr]
  · intro hle'
    dsimp only at hle'
    omega
  · intro hle'
    dsimp only at hle'
    omega

end

def giveUpEvents (types : List (ServiceType σ)) (dst : UmtpAddr) (service : UInt8) (data : Ptr)
    (payload : List UInt8) : List Event :=
  timeoutEvents types dst service.toNat data payload.length

section

variable {umtp : Ref} (hu : umtp ≠ 0) {dst : UmtpAddr} {d : ApduData} {id : UInt8}
  (hd : d.InRange) (hfits : d.Fits) (hc : d.confirmed = true) {i : Fin maxUmtpSession}

include hd hc hu hfits

theorem processSlot_onSchedule {w w' : World σ} {ms : UInt16} {dl : UmtpDl σ}
    (hdl : w.dl = some dl) {s : Schedule}
    (h : (w.sessions.session i).OnSchedule umtp dst (d.apdu id) w.apduTimeout w.apduRetry s)
    (hrun : (processSlot ms i).run w = .ok () w') :
    (w'.sessions.session i).OnSchedule umtp dst (d.apdu id) w.apduTimeout w.apduRetry
        (s.tick w.apduTimeout.toNat w.apduRetry.toNat ms.toNat) ∧
      ∃ data : Ptr, data.bytes.take d.payload.length = d.payload ∧
        w'.trace = w.trace ++ s.events w.apduTimeout.toNat w.apduRetry.toNat ms.toNat
          (.send dst (fttpProtocolVersion :: d.apdu id))
          (giveUpEvents w.services dst d.serviceByte data d.payload) := by
  obtain ⟨hservice, hpayload, hlen⟩ := ApduData.apdu_confirmed hd hc id
  have hdata : (((w.sessions.session i).pduPtr i).add 4).bytes.take d.payload.length =
      d.payload := by
    have hpdu := congrArg (List.drop 4) h.pdu
    rw [hpayload, List.drop_take, hlen, Nat.add_sub_cancel_left] at hpdu
    exact hpdu
  have hbound : (d.apdu id).length ≤ maxApdu := by
    have hhead := d.headerLen_le
    have h0 := hd.1
    have hsum := d.apdu_length hd id
    have hmax : (maxApdu : Int) = maxApdu := rfl
    unfold ApduData.Fits at hfits
    omega
  by_cases hle : s.expiries ≤ w.apduRetry.toNat
  · have hwait := h.waiting.mpr hle
    by_cases hdue : s.Due w.apduTimeout.toNat ms.toNat
    · have ht := (h.due_iff hle ms).mpr hdue
      by_cases hr : s.expiries < w.apduRetry.toNat
      · have hretry : (w.sessions.session i).retry < w.apduRetry := by
          rw [UInt8.lt_iff_toNat_lt, h.retry hle]
          exact hr
        obtain ⟨hslot, htrace⟩ := processSlot_resent hrun hwait ht hretry
          (by rw [h.data]; exact hu) hdl (by rw [h.pduLen]; omega) (by rw [h.pduLen]; exact hbound)
        rw [hslot]
        refine ⟨h.resend hle ms hdue hr, _, hdata, ?_⟩
        rw [htrace, h.dest, h.pduLen, h.pdu, Schedule.events, if_pos hdue, if_pos hr]
      · have hretry : ¬ (w.sessions.session i).retry < w.apduRetry := by
          rw [UInt8.lt_iff_toNat_lt, h.retry hle]
          exact hr
        have hbyte : (w.sessions.session i).pdu.cells[2]? = some d.serviceByte := by
          rw [← hservice, ← h.pdu, List.getElem?_take_of_lt (by omega)]
        have heq : s.expiries = w.apduRetry.toNat := by omega
        obtain ⟨hslot, htrace⟩ := processSlot_gaveUp hrun hwait ht hretry h.timeout hbyte
        rw [hslot]
        refine ⟨h.giveUp hle ms hdue heq, _, hdata, ?_⟩
        have hcount : ((w.sessions.session i).pduLen.toNat : Int) - 4 = d.payload.length := by
          rw [h.pduLen]
          omega
        rw [htrace, h.dest, hcount, Schedule.events, if_pos hdue, if_neg hr, if_pos heq,
          giveUpEvents]
    · have ht := mt (h.due_iff hle ms).mp hdue
      rw [processSlot_ticking hwait ht] at hrun
      cases hrun
      refine ⟨?_, _, hdata, ?_⟩
      · simpa using h.tick hle ms hdue
      · simp [World.modifySlot, Schedule.events, hdue]
  · have hidle : (w.sessions.session i).waiting = false := by
      rw [Bool.eq_false_iff]
      exact fun hwait => hle (h.waiting.mp hwait)
    rw [processSlot_idle hidle] at hrun
    cases hrun
    have hlt := Nat.lt_of_not_le hle
    refine ⟨?_, _, hdata, ?_⟩
    · rwa [Schedule.tick, if_pos hlt]
    · have hnot : ¬ s.expiries < w.apduRetry.toNat := by omega
      have hne : ¬ s.expiries = w.apduRetry.toNat := by omega
      simp [Schedule.events, hnot, hne]

end

def ProcessStep (w : World σ) (ms : UInt16) (w' : World σ) : Prop :=
  (umtpSessionProcess ms).run w = .ok () w'

/-- What passes do for the request in slot `i`, however many there are and whatever else is
in the table: they change its slot and call out for it as the schedule says. -/
def FollowsSchedule (dst : UmtpAddr) (d : ApduData) (id : UInt8) (i : Fin maxUmtpSession)
    (w₀ : World σ) : Prop :=
  ∀ mss w, Run ProcessStep w₀ mss w →
    let timeout := w₀.apduTimeout.toNat
    let retries := w₀.apduRetry.toNat
    let s := Schedule.after timeout retries mss
    ((w.sessions.session i).waiting = true ↔ s.expiries ≤ retries) ∧
      (retries < s.expiries → (w.sessions.session i).sessionId = 0) ∧
      ∀ ms w', ProcessStep w ms w' →
        (retries < s.expiries → w'.sessions.session i = w.sessions.session i) ∧
          ∃ data : Ptr, data.bytes.take d.payload.length = d.payload ∧
            slotEvents ms i w = s.events timeout retries ms.toNat
              (.send dst (fttpProtocolVersion :: d.apdu id))
              (giveUpEvents w₀.services dst d.serviceByte data d.payload)

section

variable {umtp : Ref} (hu : umtp ≠ 0) {dst : UmtpAddr} {d : ApduData} {id : UInt8}
  (hd : d.InRange) (hfits : d.Fits) (hc : d.confirmed = true) {i : Fin maxUmtpSession}
  {dl : UmtpDl σ}

include hu hd hfits hc

theorem processStep_onSchedule {w w' : World σ} {ms : UInt16} (hdl : w.dl = some dl) {s : Schedule}
    (h : (w.sessions.session i).OnSchedule umtp dst (d.apdu id) w.apduTimeout w.apduRetry s)
    (hrun : ProcessStep w ms w') :
    ((w'.sessions.session i).OnSchedule umtp dst (d.apdu id) w.apduTimeout w.apduRetry
        (s.tick w.apduTimeout.toNat w.apduRetry.toNat ms.toNat) ∧
      (w'.services = w.services ∧ w'.apduTimeout = w.apduTimeout ∧ w'.apduRetry = w.apduRetry ∧
        w'.dl = w.dl)) ∧
      (w.apduRetry.toNat < s.expiries → w'.sessions.session i = w.sessions.session i) ∧
      ∃ data : Ptr, data.bytes.take d.payload.length = d.payload ∧
        slotEvents ms i w = s.events w.apduTimeout.toNat w.apduRetry.toNat ms.toNat
          (.send dst (fttpProtocolVersion :: d.apdu id))
          (giveUpEvents w.services dst d.serviceByte data d.payload) := by
  obtain ⟨v, hat, hafter⟩ := umtpSessionProcess_slot (i := i) hrun
  have hbefore : SameSlot i w (passBefore ms i w) := passBefore_same w
  rw [← hbefore.slot, ← hbefore.apduTimeout, ← hbefore.apduRetry] at h
  obtain ⟨hslot, data, hdata, htrace⟩ := processSlot_onSchedule hu hd hfits hc
    (hbefore.dl.trans hdl) h hat
  obtain ⟨x, es, app, -, hfinal⟩ := processSlot_effect ms i (passBefore ms i w)
  rw [hat, final_ok] at hfinal
  have hall : SameSlot i v w' := hafter
  rw [hbefore.apduTimeout, hbefore.apduRetry] at h hslot htrace
  rw [hbefore.services] at htrace
  refine ⟨⟨by rwa [hall.slot], ?_⟩, ?_, data, hdata, ?_⟩
  · rw [hall.services, hall.apduTimeout, hall.apduRetry, hall.dl, hfinal]
    exact ⟨hbefore.services, hbefore.apduTimeout, hbefore.apduRetry, hbefore.dl⟩
  · intro hlt
    have hidle : ((passBefore ms i w).sessions.session i).waiting = false := by
      rw [Bool.eq_false_iff]
      exact fun hwait => absurd (h.waiting.mp hwait) (Nat.not_le.mpr hlt)
    rw [processSlot_idle hidle] at hat
    cases hat
    exact hall.slot.trans hbefore.slot
  · rw [slotEvents, hat, final_ok, htrace, List.drop_left]

theorem processRun_onSchedule {w₀ w : World σ} {mss : List UInt16} (hdl : w₀.dl = some dl)
    (h : (w₀.sessions.session i).OnSchedule umtp dst (d.apdu id) w₀.apduTimeout w₀.apduRetry ⟨0, 0⟩)
    (hr : Run ProcessStep w₀ mss w) :
    (w.sessions.session i).OnSchedule umtp dst (d.apdu id) w₀.apduTimeout w₀.apduRetry
        (Schedule.after w₀.apduTimeout.toNat w₀.apduRetry.toNat mss) ∧
      w.services = w₀.services ∧ w.apduTimeout = w₀.apduTimeout ∧ w.apduRetry = w₀.apduRetry ∧
      w.dl = w₀.dl := by
  apply hr.history (fun mss w => (w.sessions.session i).OnSchedule umtp dst (d.apdu id)
    w₀.apduTimeout w₀.apduRetry (Schedule.after w₀.apduTimeout.toNat w₀.apduRetry.toNat mss) ∧
    w.services = w₀.services ∧ w.apduTimeout = w₀.apduTimeout ∧ w.apduRetry = w₀.apduRetry ∧
    w.dl = w₀.dl)
  · exact ⟨h, rfl, rfl, rfl, rfl⟩
  · intro mss w ms w' _ ⟨hslot, hservices, htimeout, hretry, hdl'⟩ hstep
    rw [← htimeout, ← hretry] at hslot
    obtain ⟨⟨hslot', hs, ht, hre, hl⟩, -⟩ :=
      processStep_onSchedule hu hd hfits hc (hdl'.trans hdl) hslot hstep
    rw [htimeout, hretry] at hslot'
    refine ⟨?_, hs.trans hservices, ht.trans htimeout, hre.trans hretry, hl.trans hdl'⟩
    rw [Schedule.after, List.foldl_append]
    exact hslot'

theorem awaits_followsSchedule {w₀ : World σ} (hdl : w₀.dl = some dl)
    (h : (w₀.sessions.session i).Awaits umtp dst id w₀.apduTimeout (d.apdu id)) :
    FollowsSchedule dst d id i w₀ := by
  intro mss w hr
  obtain ⟨hslot, hservices, htimeout, hretry, hdl'⟩ :=
    processRun_onSchedule hu hd hfits hc hdl (h.onSchedule w₀.apduRetry) hr
  refine ⟨hslot.waiting, hslot.freed, fun ms w' hstep => ?_⟩
  rw [← htimeout, ← hretry] at hslot
  obtain ⟨-, hstay, hevents⟩ :=
    processStep_onSchedule hu hd hfits hc (hdl'.trans hdl) hslot hstep
  rw [htimeout, hretry] at hstay hevents
  rw [hservices] at hevents
  exact ⟨hstay, hevents⟩

end

theorem retry_schedule {umtp : Ref} (hu : umtp ≠ 0) {dst : UmtpAddr} {d : ApduData}
    (hd : d.InRange) (hc : d.confirmed = true) {w w₁ : World σ} {r : Int}
    (hsubmit : (umtpApduSubmit umtp dst (some d)).run w = .ok r w₁) {dl : UmtpDl σ} :
    ∃ i, ∀ w₀ : World σ, w₀.sessions.session i = w₁.sessions.session i →
      w₀.apduTimeout = w.apduTimeout → w₀.dl = some dl →
        FollowsSchedule dst d (w.grantedId d) i w₀ := by
  obtain ⟨hg, hfits⟩ := umtpApduSubmit_ok hu hd hsubmit
  obtain ⟨i, x, c, -, -, -, hx, htable, -⟩ := umtpApduSubmit_table hu hd hsubmit hc
  refine ⟨i, fun w₀ hslot htimeout hdl => ?_⟩
  apply awaits_followsSchedule hu hd hfits hc hdl
  rw [hslot, htable, htimeout]
  simpa [SessionState.modifySlot] using hx

theorem retry_schedule_zero :
    ∃ s i, FollowsSchedule UmtpAddr.zero (zeroData true 1) (startedNode.grantedId (zeroData true 1))
      i { startedNode with sessions := s } := by
  let w : World Wire := { startedNode with syncMode := true }
  have hd : (zeroData true 1).InRange := ⟨by decide, by decide⟩
  have hg : w.Grants (zeroData true 1) := (w.grants_iff _).mpr (.inr ⟨0, rfl⟩)
  have hfits : (zeroData true 1).Fits := show (4 : Int) + 1 ≤ maxApdu by decide
  obtain ⟨w₁, ⟨r, hrun, -⟩, -⟩ := umtpApduSubmit_sync (w := w) Nat.one_ne_zero UmtpAddr.zero hg hd
    hfits startedNode_started.dl rfl (by decide) rfl
  obtain ⟨i, hi⟩ := retry_schedule Nat.one_ne_zero hd rfl hrun
  exact ⟨w₁.sessions, i, hi { startedNode with sessions := w₁.sessions } rfl rfl
    startedNode_started.dl⟩

end Umtp
