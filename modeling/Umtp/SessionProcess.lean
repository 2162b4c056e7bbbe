import Umtp.Apdu

/-! `umtp_session_process`: the timers of the outstanding requests. -/

set_option autoImplicit false

namespace Umtp
open CheckedBuffer StateExcept

variable {σ : Type}

def Session.ticked (milliseconds : UInt16) (x : Session) : Session :=
  { x with timer :=
      if milliseconds.toUInt32 < x.timer then x.timer - milliseconds.toUInt32 else 0 }

def Session.retried (timer : UInt32) (x : Session) : Session :=
  { x with timer, retry := x.retry + 1 }

def World.modifySlot (w : World σ) (i : Fin maxUmtpSession) (f : Session → Session) : World σ :=
  { w with sessions := w.sessions.modifySlot i f }

/-- `session[i].pdu`, as it is passed on. -/
def Session.pduPtr (x : Session) (i : Fin maxUmtpSession) : Ptr := ⟨.sessionPdu i, x.pdu.cells, 0⟩

/-- `if (session[i].timeout) session[i].timeout(..)` -/
def callTimeout (timeout : Option TimeoutFn) (dest : UmtpAddr) (pdu : Ptr) (pduLen : Int) :
    Proc σ Unit :=
  match timeout with
  | some .apduTimeoutHandler => apduTimeoutHandler dest pdu pduLen
  | none => pure ()

/-- The body of the loop in `umtp_session_process`, for slot `i`. -/
def processSlot (milliseconds : UInt16) (i : Fin maxUmtpSession) : Proc σ Unit := do
  if !((← get).sessions.session i).waiting then
    return
  modify fun w => w.modifySlot i (Session.ticked milliseconds)
  let w ← get
  let x := w.sessions.session i
  if x.timer ≠ 0 then
    return
  if x.retry < w.apduRetry then
    modify fun w => w.modifySlot i (Session.retried w.apduTimeout)
    let _ ← npduSend x.data x.dest (x.pduPtr i) x.pduLen.toNat
  else
    callTimeout x.timeout x.dest (x.pduPtr i) x.pduLen.toNat
    modify fun w => w.modifySlot i Session.released

def umtpSessionProcess (milliseconds : UInt16) : Proc σ Unit :=
  forM (List.finRange maxUmtpSession) (processSlot milliseconds)

section

variable (w : World σ) (i : Fin maxUmtpSession) (f g : Session → Session)

@[simp] theorem World.modifySlot_sessions :
    (w.modifySlot i f).sessions = w.sessions.modifySlot i f := rfl

@[simp] theorem World.modifySlot_apduTimeout :
    (w.modifySlot i f).apduTimeout = w.apduTimeout := rfl

@[simp] theorem World.modifySlot_apduRetry : (w.modifySlot i f).apduRetry = w.apduRetry := rfl

@[simp] theorem World.modifySlot_modifySlot :
    (w.modifySlot i f).modifySlot i g = w.modifySlot i (fun x => g (f x)) := by
  simp [World.modifySlot]

end

section

variable {ms : UInt16} {i : Fin maxUmtpSession} {w : World σ}

theorem processSlot_idle (h : (w.sessions.session i).waiting = false) :
    (processSlot ms i).run w = .ok () w := by
  simp [processSlot, h]

theorem umtpSessionProcess_idle (h : ∀ i, (w.sessions.session i).waiting = false) :
    (umtpSessionProcess ms).run w = .ok () w := by
  have hall : ∀ l : List (Fin maxUmtpSession), (forM l (processSlot ms)).run w = .ok () w := by
    intro l
    induction l with
    | nil => rfl
    | cons i l ih => simp [List.forM_cons, processSlot_idle (h i), ih]
  exact hall _

variable (hwait : (w.sessions.session i).waiting = true)

include hwait

theorem processSlot_ticking (ht : ((w.sessions.session i).ticked ms).timer ≠ 0) :
    (processSlot ms i).run w = .ok () (w.modifySlot i (Session.ticked ms)) := by
  simp [processSlot, hwait, ht]

theorem processSlot_retry (ht : ((w.sessions.session i).ticked ms).timer = 0)
    (hr : (w.sessions.session i).retry < w.apduRetry) :
    (processSlot ms i).run w =
      (do
        let _ ← npduSend (w.sessions.session i).data (w.sessions.session i).dest
          ((w.sessions.session i).pduPtr i) (w.sessions.session i).pduLen.toNat).run
        (w.modifySlot i (fun x => (x.ticked ms).retried w.apduTimeout)) := by
  have hr' : ((w.sessions.session i).ticked ms).retry < w.apduRetry := hr
  simp [processSlot, hwait, ht, hr']
  rfl

theorem processSlot_expired (ht : ((w.sessions.session i).ticked ms).timer = 0)
    (hr : ¬ (w.sessions.session i).retry < w.apduRetry) :
    (processSlot ms i).run w =
      (do
        callTimeout (w.sessions.session i).timeout (w.sessions.session i).dest
          ((w.sessions.session i).pduPtr i) (w.sessions.session i).pduLen.toNat
        modify (fun w : World σ => w.modifySlot i Session.released)).run
        (w.modifySlot i (Session.ticked ms)) := by
  have hr' : ¬ ((w.sessions.session i).ticked ms).retry < w.apduRetry := hr
  simp [processSlot, hwait, ht, hr']
  rfl

end

def Event.IsTimeout : Event → Prop
  | .timeout _ _ _ _ _ => True
  | _ => False

theorem callTimeout_callsOut (timeout : Option TimeoutFn) (dest : UmtpAddr) (pdu : Ptr)
    (pduLen : Int) :
    Moves (@CallsOut σ Event.IsTimeout) (callTimeout timeout dest pdu pduLen) := by
  unfold callTimeout
  split
  · unfold apduTimeoutHandler
    split
    · exact moves_throw _
    · apply (serviceTimeoutHandler_callsOut _ _ _ _).weaken
      rintro s t ⟨es, app, hes, rfl⟩
      exact ⟨es, app, fun e he => hes e he ▸ trivial, rfl⟩
  · exact moves_pure _

/-- What a pass does to the slot it comes to, whether or not it comes back. -/
inductive SlotPass (x : Session) : Session → Prop where
  | ticked (retry : UInt8) (timer : UInt32) : SlotPass x { x with retry, timer }
  | released (timer : UInt32) : SlotPass x { x.released with timer }

theorem processSlot_effect (ms : UInt16) (i : Fin maxUmtpSession) (w : World σ) :
    ∃ x es app, SlotPass (w.sessions.session i) x ∧
      final ((processSlot ms i).run w) =
        { w with sessions := w.sessions.modifySlot i (fun _ => x), app, trace := w.trace ++ es } := by
  cases hwait : (w.sessions.session i).waiting with
  | false =>
    rw [processSlot_idle hwait]
    refine ⟨w.sessions.session i, [], w.app, .ticked _ _, ?_⟩
    rw [w.sessions.modifySlot_self i, List.append_nil]
    rfl
  | true =>
    by_cases ht : ((w.sessions.session i).ticked ms).timer = 0
    · by_cases hr : (w.sessions.session i).retry < w.apduRetry
      · rw [processSlot_retry hwait ht hr]
        have hsend := (moves_bind (npduSend_callsOut (w.sessions.session i).data
          (w.sessions.session i).dest ((w.sessions.session i).pduPtr i)
          (w.sessions.session i).pduLen.toNat) (fun _ => moves_pure ())).rel
          (w.modifySlot i (fun x => (x.ticked ms).retried w.apduTimeout))
        obtain ⟨es, app, -, hfinal⟩ := hsend
        exact ⟨_, es, app, .ticked ((w.sessions.session i).retry + 1) w.apduTimeout, hfinal⟩
      · rw [processSlot_expired hwait ht hr, EStateM.run_bind]
        have hcall := (callTimeout_callsOut (w.sessions.session i).timeout
          (w.sessions.session i).dest ((w.sessions.session i).pduPtr i)
          (w.sessions.session i).pduLen.toNat).rel (w.modifySlot i (Session.ticked ms))
        revert hcall
        cases (callTimeout _ _ _ _).run (w.modifySlot i (Session.ticked ms)) with
        | error e v =>
          intro hcall
          obtain ⟨es, app, -, hv⟩ := hcall
          exact ⟨_, es, app, .ticked _ _, hv⟩
        | ok u v =>
          intro hcall
          obtain ⟨es, app, -, hv⟩ := hcall
          refine ⟨_, es, app, .released ((w.sessions.session i).ticked ms).timer, ?_⟩
          rw [final_ok] at hv
          subst hv
          simp [World.modifySlot]
          rfl
    · rw [processSlot_ticking hwait ht]
      refine ⟨_, [], w.app, .ticked (w.sessions.session i).retry
        ((w.sessions.session i).ticked ms).timer, ?_⟩
      rw [List.append_nil]
      rfl

theorem processSlot_sessions (ms : UInt16) (i : Fin maxUmtpSession) (w : World σ) :
    ∃ x, SlotPass (w.sessions.session i) x ∧
      (final ((processSlot ms i).run w)).sessions = w.sessions.modifySlot i (fun _ => x) := by
  obtain ⟨x, es, app, hx, hfinal⟩ := processSlot_effect ms i w
  exact ⟨x, hx, by rw [hfinal]⟩

end Umtp
