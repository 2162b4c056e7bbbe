import Umtp.Settling
import Umtp.Traffic

set_option autoImplicit false

namespace Umtp
open CheckedBuffer StateExcept FiniteRun

variable {σ : Type}

theorem World.Grants.all {w : World σ} {d : ApduData} (h : w.Grants d) (hd : d.confirmed = true)
    (d' : ApduData) : w.Grants d' := fun _ => h hd

theorem actStep_grants {umtp : Ref} (hu : umtp ≠ 0) {l : Limits} {c c' : Client σ}
    {act : ClientAct} (hstep : ActStep umtp l c act c') :
    c'.requests = c.requests ∨ ∀ d, c.world.Grants d := by
  cases act with
  | call call =>
    obtain ⟨hvalid, hrun, hnext⟩ := hstep
    rw [hnext]
    cases call with
    | submit dst d =>
      cases hconf : d.confirmed with
      | false => exact .inl (by simp [Client.after, Client.next, NodeCall.request, hconf])
      | true =>
        obtain ⟨r, u, hsubmit, -⟩ := of_bind_ok hrun
        exact .inr ((umtpApduSubmit_ok hu hvalid hsubmit).1.all hconf)
    | process ms => exact .inl (List.append_nil _)
    | handle src npdu len => exact .inl (List.append_nil _)
    | sendQueued => exact .inl (List.append_nil _)
  | timeoutSet timeout =>
    rw [hstep.timeoutSet]
    exact .inl rfl
  | retrySet count =>
    rw [hstep.retrySet]
    exact .inl rfl

/-- There comes a time when `umtp_free_session` has a slot for whoever waits in
`umtp_apdu_submit`. -/
theorem submit_wait_ends {umtp : Ref} (hu : umtp ≠ 0) {l : Limits} {m : Nat} (hm : 0 < m)
    {w₀ : World σ} (h₀ : w₀.sessions = .init) (ht : w₀.apduTimeout.toNat ≤ l.timeout)
    (hr : w₀.apduRetry.toNat ≤ l.retry) {before after : List ClientAct} {c c' : Client σ}
    (hbefore : Run (ActStep umtp l) (Client.start w₀) before c)
    (hafter : Run (ActStep umtp l) c after c')
    (hpasses : l.passes m ≤ after.countP (ClientAct.passes m)) :
    ∃ acts u, acts <+: after ∧ Run (ActStep umtp l) c acts u ∧ ∀ d, u.world.Grants d := by
  have hsame := hafter.history
    (fun acts u => u.requests = c.requests ∨
      ∃ pre v, pre <+: acts ∧ Run (ActStep umtp l) c pre v ∧ ∀ d, v.world.Grants d)
    (.inl rfl) (by
      rintro acts act u v hr (hreq | ⟨pre, x, hpre, hx⟩) hstep
      · rcases actStep_grants hu hstep with hsame | hgrants
        · exact .inl (hsame.trans hreq)
        · exact .inr ⟨acts, u, List.prefix_append _ _, hr, hgrants⟩
      · exact .inr ⟨pre, x, hpre.trans (List.prefix_append _ _), hx⟩)
  rcases hsame with hreq | hgranted
  · refine ⟨after, c', List.prefix_refl _, hafter, fun d => (World.grants_iff _ d).mpr (.inr ⟨0, ?_⟩)⟩
    -- no request is younger, so slot 0 can wait for none
    have hc := actRun_timed hu h₀ ht hr hbefore
    have hn : c.Timed l c.requests.length := ⟨hc.inv, hc.within, Nat.le_refl _⟩
    have hinv : c'.Inv := (hafter.invariant (Client.Timed l c.requests.length)
      (fun _ _ _ h hstep => actStep_timed hu h hstep) hn).inv
    apply hinv.idle
    rw [← Bool.not_eq_true]
    intro hwait
    obtain ⟨r, howner⟩ := hinv.owned 0 hwait
    obtain ⟨req, hget, -⟩ := hinv.held 0 r howner
    have hyoung := timedRun_younger hu hm hn hafter hpasses howner
    have hlt := (List.getElem?_eq_some_iff.mp hget).1
    rw [hreq] at hlt
    omega
  · exact hgranted

def Session.Sendable (x : Session) : Prop :=
  x.waiting = true → x.data ≠ 0 ∧ 1 ≤ x.pduLen.toNat ∧ x.pduLen.toNat ≤ maxApdu

structure World.Serviceable (w : World σ) : Prop where
  sync : w.syncMode = true
  link : ∃ dl, w.dl = some dl ∧ LinkAccepts dl
  slots : ∀ i, (w.sessions.session i).Sendable

section

variable {w w' : World σ} (h : w.Serviceable)

include h

theorem World.Serviceable.callsOut {E : Event → Prop} (hc : CallsOut E w w') :
    w'.Serviceable := by
  obtain ⟨es, app, -, rfl⟩ := hc
  exact ⟨h.sync, h.link, h.slots⟩

theorem World.Serviceable.modifySlot {i : Fin maxUmtpSession} {f : Session → Session}
    (hf : (f (w.sessions.session i)).Sendable) : (w.modifySlot i f).Serviceable := by
  refine ⟨h.sync, h.link, fun j => ?_⟩
  by_cases hj : j = i
  · subst hj
    simpa using hf
  · simpa [w.sessions.modifySlot_other hj] using h.slots j

theorem callTimeout_returns (timeout : Option TimeoutFn) (dest : UmtpAddr) (x : Session)
    (i : Fin maxUmtpSession) (pduLen : Int) :
    Returns (fun _ => World.Serviceable) (callTimeout timeout dest (x.pduPtr i) pduLen) w := by
  have hreturns : Returns (fun _ _ => True) (callTimeout timeout dest (x.pduPtr i) pduLen) w := by
    unfold callTimeout
    split
    · obtain ⟨service, hservice⟩ : ∃ service, (x.pduPtr i).get 2 = some service :=
        ⟨_, List.getElem?_eq_getElem (by simpa [Session.pduPtr] using show 2 < maxPdu by decide)⟩
      obtain ⟨a, t, hrun⟩ := (serviceTimeoutHandler_total dest service.toNat
        ((x.pduPtr i).add 4) (pduLen - 4)).ok w
      exact ⟨a, t, by simpa [apduTimeoutHandler, hservice] using hrun, trivial⟩
    · exact returns_pure trivial
  exact (hreturns.moves (callTimeout_callsOut _ _ _ _)).weaken fun _ _ hc => h.callsOut hc.2

theorem processSlot_returns (ms : UInt16) (i : Fin maxUmtpSession) :
    Returns (fun _ => World.Serviceable) (processSlot ms i) w := by
  cases hwait : (w.sessions.session i).waiting with
  | false => exact ⟨(), w, processSlot_idle hwait, h⟩
  | true =>
    obtain ⟨hdata, hpos, hlen⟩ := h.slots i hwait
    have hmax : maxApdu = 1024 := rfl
    have hpdu : maxPdu = 2049 := rfl
    have hticked : (w.modifySlot i (Session.ticked ms)).Serviceable := h.modifySlot (h.slots i)
    by_cases ht : ((w.sessions.session i).ticked ms).timer = 0
    · by_cases hr : (w.sessions.session i).retry < w.apduRetry
      · have hretried : (w.modifySlot i fun x => (x.ticked ms).retried w.apduTimeout).Serviceable :=
          h.modifySlot (h.slots i)
        obtain ⟨dl, hdl, hlink⟩ := h.link
        have hread : ((w.sessions.session i).pduPtr i).off +
            ((w.sessions.session i).pduLen.toNat : Int).toNat ≤
              ((w.sessions.session i).pduPtr i).obj.length := by
          simp [Session.pduPtr]
          omega
        have hsend := (npduSend_returns hdata (w := w.modifySlot i fun x =>
          (x.ticked ms).retried w.apduTimeout) hdl hlink (by omega) (by omega) hread
          (w.sessions.session i).dest).moves (npduSend_callsOut _ _ _ _)
        obtain ⟨u, t, hrun, ht'⟩ := hsend.bind (f := fun _ => pure ())
          fun _ _ hc => returns_pure (P := fun _ => World.Serviceable) (hretried.callsOut hc.2)
        exact ⟨u, t, (processSlot_retry hwait ht hr).trans hrun, ht'⟩
      · obtain ⟨u, t, hrun, ht'⟩ := (callTimeout_returns hticked (w.sessions.session i).timeout
          (w.sessions.session i).dest (w.sessions.session i) i
          (w.sessions.session i).pduLen.toNat).bind
          (f := fun _ => modify fun w : World σ => w.modifySlot i Session.released)
          (Q := fun _ => World.Serviceable) fun _ t hserviceable =>
            ⟨(), _, rfl, hserviceable.modifySlot fun hw => absurd hw (by simp [Session.released])⟩
        exact ⟨u, t, (processSlot_expired hwait ht hr).trans hrun, ht'⟩
    · exact ⟨(), _, processSlot_ticking hwait ht, hticked⟩

theorem umtpSessionProcess_returns (ms : UInt16) :
    Returns (fun _ => World.Serviceable) (umtpSessionProcess ms) w :=
  returns_forM _ (fun i _ hs => processSlot_returns hs ms i) h

end

def SessionState.free (s : SessionState) : Finset (Fin maxUmtpSession) :=
  {i | (s.session i).sessionId = 0}

theorem SessionState.mem_free {s : SessionState} {i : Fin maxUmtpSession} :
    i ∈ s.free ↔ (s.session i).sessionId = 0 := by simp [SessionState.free]

section

variable {umtp : Ref} (hu : umtp ≠ 0) {d : ApduData} (hd : d.InRange) (hfits : d.Fits)
  (hc : d.confirmed = true) (dst : UmtpAddr)

include hu hd hfits hc dst

theorem umtpApduSubmit_returns {w : World σ} (h : w.Serviceable) {i : Fin maxUmtpSession}
    (hi : i ∈ w.sessions.free) :
    Returns (fun _ w' => w'.Serviceable ∧ w'.sessions.free.card < w.sessions.free.card)
      (umtpApduSubmit umtp dst (some d)) w := by
  have hg : w.Grants d := (w.grants_iff d).mpr (.inr ⟨i, SessionState.mem_free.mp hi⟩)
  obtain ⟨s, hstores, tmp, htmp, hrun⟩ := umtpApduSubmit_stored hu dst hg hd hfits
  rw [StoresRequest, if_pos hc] at hstores
  obtain ⟨hid, k, hfree, hawaits, hothers⟩ := hstores
  have hlen := d.apdu_length hd (w.grantedId d)
  have hhead := d.headerLen_le
  have h0 := hd.1
  have hmax : (maxApdu : Int) = 1024 := rfl
  unfold ApduData.Fits at hfits
  have hserviceable : ({ w with sessions := s } : World σ).Serviceable := by
    refine ⟨h.sync, h.link, fun j => ?_⟩
    by_cases hj : j = k
    · subst hj
      intro _
      rw [hawaits.data, hawaits.pduLen]
      exact ⟨hu, by omega, by omega⟩
    · rw [hothers j hj]
      exact h.slots j
  have hfewer : s.free.card < w.sessions.free.card := by
    apply Finset.card_lt_card
    rw [Finset.ssubset_iff_of_subset]
    · refine ⟨k, SessionState.mem_free.mpr hfree, fun hk => hid ?_⟩
      rw [← hawaits.sessionId]
      exact SessionState.mem_free.mp hk
    · intro j hj
      rw [SessionState.mem_free] at hj ⊢
      by_cases hjk : j = k
      · rw [hjk]
        exact hfree
      · rwa [← hothers j hjk]
  obtain ⟨dl, hdl, hlink⟩ := h.link
  have hread : (⟨.submitTmp, tmp.cells, 0⟩ : Ptr).off +
      ((d.apdu (w.grantedId d)).length : Int).toNat ≤
        (⟨.submitTmp, tmp.cells, 0⟩ : Ptr).obj.length := by
    simp
    omega
  have hsend := (npduSend_returns hu (w := { w with sessions := s }) hdl hlink (by omega) (by omega)
    hread dst).moves (npduSend_callsOut _ _ _ _)
  obtain ⟨r, w', hsent, -, hcalls⟩ := hsend
  refine ⟨r, w', ?_, hserviceable.callsOut hcalls, ?_⟩
  · rw [hrun]
    simpa [_umtpApduSubmit, hu, h.sync] using hsent
  · rw [hcalls.sessions]
    exact hfewer

theorem exists_full {l : Limits} {c₀ c : Client σ} {acts : List ClientAct}
    (hr : Run (ActStep umtp l) c₀ acts c) (h : c.world.Serviceable) :
    ∃ acts' c', Run (ActStep umtp l) c₀ acts' c' ∧ c'.world.Serviceable ∧
      c'.world.sessions.free = ∅ := by
  induction hn : c.world.sessions.free.card using Nat.strong_induction_on generalizing c acts with
  | _ n ih =>
    by_cases hfull : c.world.sessions.free = ∅
    · exact ⟨acts, c, hr, h, hfull⟩
    · obtain ⟨i, hi⟩ := Finset.nonempty_iff_ne_empty.mpr hfull
      obtain ⟨u, w', hrun, h', hfewer⟩ := (umtpApduSubmit_returns hu hd hfits hc dst h hi).bind
        (f := fun _ => pure ()) (Q := fun _ w' => w'.Serviceable ∧
          w'.sessions.free.card < c.world.sessions.free.card) fun _ _ hs => returns_pure hs
      have hstep : ActStep umtp l c (.call (.submit dst d)) (c.after (.call (.submit dst d)) w') :=
        ⟨hd, hrun, rfl⟩
      exact ih _ (hn ▸ hfewer) (hr.snoc hstep) h' rfl

end

theorem exists_passes {umtp : Ref} {l : Limits} {c : Client σ} (h : c.world.Serviceable)
    (ms : UInt16) (n : Nat) :
    ∃ c', Run (ActStep umtp l) c (List.replicate n (.call (.process ms))) c' ∧
      c'.world.Serviceable := by
  induction n with
  | zero => exact ⟨c, .nil, h⟩
  | succ n ih =>
    obtain ⟨c', hr, h'⟩ := ih
    obtain ⟨u, w', hrun, hw'⟩ := umtpSessionProcess_returns h' ms
    have hstep : ActStep umtp l c' (.call (.process ms)) (c'.after (.call (.process ms)) w') :=
      ⟨trivial, hrun, rfl⟩
    rw [List.replicate_succ']
    exact ⟨_, hr.snoc hstep, hw'⟩

theorem syncNode_serviceable (types : List (ServiceType Wire)) : (syncNode types).Serviceable :=
  ⟨rfl, ⟨_, rfl, localLink_accepts⟩, fun _ hw => absurd hw Bool.false_ne_true⟩

/-- Every slot is taken, and the wait is over within six passes of a second. -/
theorem submit_wait_ends_full : ∃ (before : List ClientAct) (c c' : Client Wire),
    Run (ActStep 1 ⟨3000, 1⟩) (Client.start (syncNode [])) before c ∧
      (∀ d : ApduData, d.confirmed = true → ¬ c.world.Grants d) ∧
      Run (ActStep 1 ⟨3000, 1⟩) c (List.replicate 6 onePass) c' ∧
      ∃ acts u, acts <+: List.replicate 6 onePass ∧ Run (ActStep 1 ⟨3000, 1⟩) c acts u ∧
        ∀ d, u.world.Grants d := by
  have hfits : (zeroData true 1).Fits := show (4 : Int) + 1 ≤ maxApdu by decide
  obtain ⟨before, c, hbefore, hserviceable, hfull⟩ := exists_full Nat.one_ne_zero
    ⟨by decide, by decide⟩ hfits rfl UmtpAddr.zero (l := ⟨3000, 1⟩)
    (.nil (s := Client.start (syncNode []))) (syncNode_serviceable [])
  obtain ⟨c', hafter, -⟩ := exists_passes hserviceable 1000 6
  refine ⟨before, c, c', hbefore, fun d hd hgrants => ?_, hafter, submit_wait_ends (m := 1000)
    Nat.one_ne_zero (by decide) rfl (Nat.le_refl _) (Nat.le_refl _) hbefore hafter (by decide)⟩
  rcases (c.world.grants_iff d).mp hgrants with hnone | ⟨i, hi⟩
  · rw [hd] at hnone
    cases hnone
  · rw [← SessionState.mem_free, hfull] at hi
    cases hi

end Umtp
