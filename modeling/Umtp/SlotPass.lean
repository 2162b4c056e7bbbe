import Umtp.SessionProcess

set_option autoImplicit false

namespace Umtp
open CheckedBuffer StateExcept

variable {σ : Type}

/-- What does not change for slot `i` while a pass is at another slot. -/
structure SameSlot (i : Fin maxUmtpSession) (w w' : World σ) : Prop where
  slot : w'.sessions.session i = w.sessions.session i
  services : w'.services = w.services
  apduTimeout : w'.apduTimeout = w.apduTimeout
  apduRetry : w'.apduRetry = w.apduRetry
  dl : w'.dl = w.dl

instance (i : Fin maxUmtpSession) : Std.Refl (@SameSlot σ i) := ⟨fun _ => ⟨rfl, rfl, rfl, rfl, rfl⟩⟩

instance (i : Fin maxUmtpSession) : IsTrans (World σ) (SameSlot i) where
  trans _ _ _ h h' := ⟨h'.slot.trans h.slot, h'.services.trans h.services,
    h'.apduTimeout.trans h.apduTimeout, h'.apduRetry.trans h.apduRetry, h'.dl.trans h.dl⟩

variable {ms : UInt16} {i : Fin maxUmtpSession}

theorem processSlot_elsewhere {j : Fin maxUmtpSession} (h : i ≠ j) :
    Moves (@SameSlot σ i) (processSlot ms j) := by
  constructor
  intro w
  obtain ⟨x, es, app, -, hfinal⟩ := processSlot_effect ms j w
  rw [hfinal]
  exact ⟨w.sessions.modifySlot_other h (fun _ => x), rfl, rfl, rfl, rfl⟩

theorem finRange_split (i : Fin maxUmtpSession) :
    List.finRange maxUmtpSession =
      (List.finRange maxUmtpSession).take i ++ i :: (List.finRange maxUmtpSession).drop (i + 1) := by
  have hi : (i : Nat) < (List.finRange maxUmtpSession).length := by simp
  have hat : (List.finRange maxUmtpSession)[(i : Nat)] = i := by simp
  conv_lhs => rw [← List.take_append_drop i (List.finRange maxUmtpSession),
    List.drop_eq_getElem_cons hi, hat]

theorem finRange_others (i : Fin maxUmtpSession) :
    i ∉ (List.finRange maxUmtpSession).take i ∧ i ∉ (List.finRange maxUmtpSession).drop (i + 1) := by
  have hnodup := List.nodup_finRange maxUmtpSession
  rw [finRange_split i, List.nodup_append, List.nodup_cons] at hnodup
  obtain ⟨-, ⟨hafter, -⟩, hbefore⟩ := hnodup
  exact ⟨fun h => hbefore i h i (by simp) rfl, hafter⟩

/-- The state in which a pass comes to slot `i`. -/
def passBefore (ms : UInt16) (i : Fin maxUmtpSession) (w : World σ) : World σ :=
  final ((forM ((List.finRange maxUmtpSession).take i) (processSlot ms) : Proc σ Unit).run w)

def slotEvents (ms : UInt16) (i : Fin maxUmtpSession) (w : World σ) : List Event :=
  (final ((processSlot ms i).run (passBefore ms i w))).trace.drop (passBefore ms i w).trace.length

theorem passBefore_same (w : World σ) : SameSlot i w (passBefore ms i w) := by
  have hothers : Moves (@SameSlot σ i)
      (forM ((List.finRange maxUmtpSession).take i) (processSlot ms)) := by
    apply moves_forM
    intro j hj
    apply processSlot_elsewhere
    rintro rfl
    exact (finRange_others i).1 hj
  exact hothers.rel w

theorem umtpSessionProcess_slot {w w' : World σ} (h : (umtpSessionProcess ms).run w = .ok () w') :
    ∃ v, (processSlot ms i).run (passBefore ms i w) = .ok () v ∧ SameSlot i v w' := by
  unfold umtpSessionProcess at h
  rw [finRange_split i, List.forM_append, List.forM_cons] at h
  obtain ⟨_, u, hbefore, h⟩ := of_bind_ok h
  obtain ⟨_, v, hat, hafter⟩ := of_bind_ok h
  have hu : passBefore ms i w = u := by rw [passBefore, hbefore, final_ok]
  refine ⟨v, hu ▸ hat, ?_⟩
  have hothers : Moves (@SameSlot σ i)
      (forM ((List.finRange maxUmtpSession).drop (i + 1)) (processSlot ms)) := by
    apply moves_forM
    intro j hj
    apply processSlot_elsewhere
    rintro rfl
    exact (finRange_others i).2 hj
  exact hothers.of_ok hafter

section

variable {w w' : World σ} (hrun : (processSlot ms i).run w = .ok () w')
  (hwait : (w.sessions.session i).waiting = true)
  (ht : ((w.sessions.session i).ticked ms).timer = 0)

include hrun hwait ht

theorem processSlot_resent (hr : (w.sessions.session i).retry < w.apduRetry)
    (hu : (w.sessions.session i).data ≠ 0) {dl : UmtpDl σ} (hdl : w.dl = some dl)
    (h0 : 0 < (w.sessions.session i).pduLen.toNat)
    (hlen : (w.sessions.session i).pduLen.toNat ≤ maxApdu) :
    w'.sessions.session i = ((w.sessions.session i).ticked ms).retried w.apduTimeout ∧
      w'.trace = w.trace ++ [.send (w.sessions.session i).dest (fttpProtocolVersion ::
        (w.sessions.session i).pdu.cells.take (w.sessions.session i).pduLen.toNat)] := by
  rw [processSlot_retry hwait ht hr] at hrun
  obtain ⟨r, v, hsend, hret⟩ := of_bind_ok hrun
  cases hret
  have hmax : (maxApdu : Int) = 1024 := rfl
  have hpdu : maxPdu = 2049 := rfl
  have hread : ((w.sessions.session i).pduPtr i).off +
      (((w.sessions.session i).pduLen.toNat : Nat) : Int).toNat ≤
        ((w.sessions.session i).pduPtr i).obj.length := by
    simp [Session.pduPtr]
    omega
  have htrace := npduSend_trace (w := w.modifySlot i
    (fun x => (x.ticked ms).retried w.apduTimeout)) hu hdl (by omega) hread (by omega)
    (w.sessions.session i).dest
  have hcalls := (npduSend_callsOut (w.sessions.session i).data (w.sessions.session i).dest
    ((w.sessions.session i).pduPtr i) (w.sessions.session i).pduLen.toNat).of_ok hsend
  rw [hsend, final_ok] at htrace
  refine ⟨?_, htrace⟩
  rw [hcalls.sessions]
  simp

theorem processSlot_gaveUp (hr : ¬ (w.sessions.session i).retry < w.apduRetry)
    (hto : (w.sessions.session i).timeout = some .apduTimeoutHandler) {service : UInt8}
    (hservice : (w.sessions.session i).pdu.cells[2]? = some service) :
    w'.sessions.session i = ((w.sessions.session i).ticked ms).released ∧
      w'.trace = w.trace ++ timeoutEvents w.services (w.sessions.session i).dest service.toNat
        (((w.sessions.session i).pduPtr i).add 4) ((w.sessions.session i).pduLen.toNat - 4) := by
  rw [processSlot_expired hwait ht hr, hto] at hrun
  obtain ⟨_, v, hcall, hfree⟩ := of_bind_ok hrun
  have hget : ((w.sessions.session i).pduPtr i).get 2 = some service := by
    simpa [Session.pduPtr, Ptr.get] using hservice
  obtain ⟨app, hhandler⟩ := serviceTimeoutHandler_run (w.sessions.session i).dest service.toNat
    (((w.sessions.session i).pduPtr i).add 4) ((w.sessions.session i).pduLen.toNat - 4)
    (w.modifySlot i (Session.ticked ms))
  simp only [callTimeout, apduTimeoutHandler, hget] at hcall
  rw [hhandler] at hcall
  cases hcall
  cases hfree
  exact ⟨by simp [World.modifySlot], rfl⟩

end

/-- The slot that a callback is about, if it is told of one. -/
def Event.slot : Event → Option (Fin maxUmtpSession)
  | .rsp _ _ session _ _ => session.map Prod.fst
  | .error _ _ _ session => session.map Prod.fst
  | .timeout _ _ _ data _ =>
    match data.store with
    | .sessionPdu i => some i
    | _ => none
  | _ => none

def Session.service (x : Session) : UInt8 := x.pdu.cells[2]?.getD 0

def World.RunsOut (w : World σ) (ms : UInt16) (i : Fin maxUmtpSession) : Prop :=
  (w.sessions.session i).waiting = true ∧ ((w.sessions.session i).ticked ms).timer = 0 ∧
    ¬ (w.sessions.session i).retry < w.apduRetry

instance (w : World σ) (ms : UInt16) (i : Fin maxUmtpSession) : Decidable (w.RunsOut ms i) :=
  inferInstanceAs (Decidable (_ ∧ _))

/-- How often the pass tells a service that slot `i` has run out. -/
def World.reports (w : World σ) (ms : UInt16) (i : Fin maxUmtpSession) : Nat :=
  if w.RunsOut ms i ∧ ((serviceTypeGet w.services (w.sessions.session i).service.toNat).bind
    ServiceType.timeoutHandler).isSome then 1 else 0

theorem Session.service_get (x : Session) : x.pdu.cells[2]? = some x.service := by
  have hlt : 2 < x.pdu.cells.length := by
    rw [Buf.length_cells]
    decide
  rw [service, List.getElem?_eq_getElem hlt, Option.getD_some]

theorem SameSlot.runsOut {w w' : World σ} (h : SameSlot i w w') :
    w'.RunsOut ms i ↔ w.RunsOut ms i := by
  rw [World.RunsOut, World.RunsOut, h.slot, h.apduRetry]

theorem SameSlot.reports {w w' : World σ} (h : SameSlot i w w') :
    w'.reports ms i = w.reports ms i := by
  simp only [World.reports, h.runsOut, h.services, h.slot]

theorem sends_slot {es : List Event} (h : ∀ e ∈ es, e.IsSend) (j : Fin maxUmtpSession) :
    es.countP (fun e => e.slot = some j) = 0 := by
  rw [List.countP_eq_zero]
  intro e he
  have hsend := h e he
  cases e with
  | send dst npdu => simp [Event.slot]
  | _ => cases hsend

theorem processSlot_kept {w w' : World σ} (hrun : (processSlot ms i).run w = .ok () w')
    (hout : ¬ w.RunsOut ms i) :
    (∃ es, w'.trace = w.trace ++ es ∧ ∀ e ∈ es, e.IsSend) ∧
      (w'.sessions.session i).waiting = (w.sessions.session i).waiting := by
  cases hwait : (w.sessions.session i).waiting with
  | false =>
    rw [processSlot_idle hwait] at hrun
    cases hrun
    exact ⟨⟨[], by simp, by simp⟩, hwait⟩
  | true =>
    by_cases ht : ((w.sessions.session i).ticked ms).timer = 0
    · have hr : (w.sessions.session i).retry < w.apduRetry := by
        by_contra hr
        exact hout ⟨hwait, ht, hr⟩
      rw [processSlot_retry hwait ht hr] at hrun
      obtain ⟨r, v, hsend, hret⟩ := of_bind_ok hrun
      cases hret
      obtain ⟨es, app, hes, rfl⟩ := (npduSend_callsOut (w.sessions.session i).data
        (w.sessions.session i).dest ((w.sessions.session i).pduPtr i)
        (w.sessions.session i).pduLen.toNat).of_ok hsend
      refine ⟨⟨es, rfl, hes⟩, ?_⟩
      simp [World.modifySlot, Session.retried, Session.ticked, hwait]
    · rw [processSlot_ticking hwait ht] at hrun
      cases hrun
      refine ⟨⟨[], by simp [World.modifySlot], by simp⟩, ?_⟩
      simp [World.modifySlot, Session.ticked, hwait]

/-- At slot `i`, the pass reports slot `i` only, and leaves it waiting unless it runs out. -/
theorem processSlot_reports {w w' : World σ} (hrun : (processSlot ms i).run w = .ok () w')
    (hto : (w.sessions.session i).waiting = true →
      (w.sessions.session i).timeout = some .apduTimeoutHandler) :
    (∃ es, w'.trace = w.trace ++ es ∧
      ∀ j, es.countP (fun e => e.slot = some j) = if j = i then w.reports ms i else 0) ∧
      ((w'.sessions.session i).waiting = true ↔
        (w.sessions.session i).waiting = true ∧ ¬ w.RunsOut ms i) := by
  by_cases hout : w.RunsOut ms i
  · obtain ⟨hslot, htrace⟩ := processSlot_gaveUp hrun hout.1 hout.2.1 hout.2.2 (hto hout.1)
      (Session.service_get _)
    refine ⟨⟨_, htrace, fun j => ?_⟩, ?_⟩
    · by_cases hj : j = i
      · subst hj
        unfold timeoutEvents World.reports
        split <;> simp_all [Event.slot, Session.pduPtr]
      · have hji : ¬ i = j := fun h => hj h.symm
        unfold timeoutEvents
        split <;> simp [Event.slot, Session.pduPtr, hji]
    · rw [hslot]
      simp [Session.released, hout]
  · obtain ⟨⟨es, htrace, hes⟩, hwaiting⟩ := processSlot_kept hrun hout
    refine ⟨⟨es, htrace, fun j => ?_⟩, ?_⟩
    · rw [sends_slot hes]
      simp [World.reports, hout]
    · rw [hwaiting]
      simp [hout]

theorem processSlots_reports {slots : List (Fin maxUmtpSession)} (hnodup : slots.Nodup)
    {w w' : World σ} (hrun : (forM slots (processSlot ms) : Proc σ Unit).run w = .ok () w')
    (hto : ∀ i, (w.sessions.session i).waiting = true →
      (w.sessions.session i).timeout = some .apduTimeoutHandler) :
    (∃ es, w'.trace = w.trace ++ es ∧
      ∀ j, es.countP (fun e => e.slot = some j) = if j ∈ slots then w.reports ms j else 0) ∧
      w'.services = w.services ∧
      ∀ j, (w'.sessions.session j).waiting = true ↔
        (w.sessions.session j).waiting = true ∧ ¬ (j ∈ slots ∧ w.RunsOut ms j) := by
  induction slots generalizing w with
  | nil =>
    cases hrun
    exact ⟨⟨[], by simp, by simp⟩, rfl, by simp⟩
  | cons i slots ih =>
    obtain ⟨hi, hnodup⟩ := List.nodup_cons.mp hnodup
    rw [List.forM_cons] at hrun
    obtain ⟨_, v, hat, hrest⟩ := of_bind_ok hrun
    obtain ⟨⟨es, htrace, hes⟩, hslot⟩ := processSlot_reports hat (hto i)
    have hother : ∀ j, j ≠ i → SameSlot j w v := fun j hj =>
      (processSlot_elsewhere hj).of_ok hat
    have hto' : ∀ j, (v.sessions.session j).waiting = true →
        (v.sessions.session j).timeout = some .apduTimeoutHandler := by
      intro j hj
      by_cases hji : j = i
      · subst hji
        obtain ⟨x, hx, hv⟩ := processSlot_sessions ms j w
        rw [hat, final_ok] at hv
        have hwait := (hslot.mp hj).1
        rw [hv, SessionState.modifySlot_same] at hj ⊢
        cases hx with
        | ticked => exact hto j hwait
        | released => cases hj
      · rw [(hother j hji).slot] at hj ⊢
        exact hto j hj
    obtain ⟨⟨fs, htrace', hfs⟩, hservices, hwaiting⟩ := ih hnodup hrest hto'
    obtain ⟨x, gs, app, -, hv⟩ := processSlot_effect ms i w
    rw [hat, final_ok] at hv
    have hsame : v.services = w.services := by rw [hv]
    refine ⟨⟨es ++ fs, by rw [htrace', htrace, List.append_assoc], fun j => ?_⟩,
      hservices.trans hsame, fun j => ?_⟩
    · rw [List.countP_append, hes, hfs]
      by_cases hji : j = i
      · subst hji
        simp [hi]
      · simp [hji, (hother j hji).reports]
    · rw [hwaiting]
      by_cases hji : j = i
      · subst hji
        rw [hslot]
        simp [hi]
      · rw [(hother j hji).slot, (hother j hji).runsOut]
        simp [hji]

theorem umtpSessionProcess_reports {w w' : World σ}
    (hrun : (umtpSessionProcess ms).run w = .ok () w')
    (hto : ∀ i, (w.sessions.session i).waiting = true →
      (w.sessions.session i).timeout = some .apduTimeoutHandler) :
    (∃ es, w'.trace = w.trace ++ es ∧
      ∀ j, es.countP (fun e => e.slot = some j) = w.reports ms j) ∧
      w'.services = w.services ∧
      ∀ j, (w'.sessions.session j).waiting = true ↔
        (w.sessions.session j).waiting = true ∧ ¬ w.RunsOut ms j := by
  have h := processSlots_reports (List.nodup_finRange maxUmtpSession) hrun hto
  simpa [List.mem_finRange] using h

end Umtp
