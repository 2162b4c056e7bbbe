import Umtp.Client
import Umtp.Correlation
import Umtp.RetrySchedule
import Umtp.SessionMap

/-! Every confirmed request is settled in time, in whatever order the calls come and whatever
the timeout and the retry count are set to meanwhile. -/

set_option autoImplicit false

namespace Umtp
open CheckedBuffer StateExcept FiniteRun

variable {σ : Type}

def apduTimeoutSet (timeout : UInt32) : Proc σ Unit :=
  modify fun w => { w with apduTimeout := timeout }

def apduRetrySet (count : UInt8) : Proc σ Unit :=
  modify fun w => { w with apduRetry := count }

/-- A call of one of the node's threads, or a change of the settings. -/
inductive ClientAct where
  | call (c : NodeCall)
  | timeoutSet (timeout : UInt32)
  | retrySet (count : UInt8)

structure Limits where
  timeout : Nat
  retry : Nat

def ClientAct.exec (umtp : Ref) : ClientAct → Proc σ Unit
  | .call c => c.exec umtp
  | .timeoutSet timeout => apduTimeoutSet timeout
  | .retrySet count => apduRetrySet count

def ClientAct.Allowed (l : Limits) : ClientAct → Prop
  | .call c => c.Valid
  | .timeoutSet timeout => timeout.toNat ≤ l.timeout
  | .retrySet count => count.toNat ≤ l.retry

instance (l : Limits) (act : ClientAct) : Decidable (act.Allowed l) :=
  match act with
  | .call (.submit _ d) => inferInstanceAs (Decidable (0 ≤ d.dataLen ∧ d.dataLen ≤ maxApdu))
  | .call (.process _) | .call (.handle _ _ _) | .call .sendQueued => isTrue trivial
  | .timeoutSet timeout => inferInstanceAs (Decidable (timeout.toNat ≤ l.timeout))
  | .retrySet count => inferInstanceAs (Decidable (count.toNat ≤ l.retry))

def Client.after (c : Client σ) (act : ClientAct) (w' : World σ) : Client σ :=
  match act with
  | .call call => c.next call w'
  | _ => { c with world := w' }

def ActStep (umtp : Ref) (l : Limits) (c : Client σ) (act : ClientAct) (c' : Client σ) : Prop :=
  act.Allowed l ∧ (act.exec umtp).run c.world = .ok () c'.world ∧ c' = c.after act c'.world

theorem ActStep.timeoutSet {umtp : Ref} {l : Limits} {c c' : Client σ} {timeout : UInt32}
    (h : ActStep umtp l c (.timeoutSet timeout) c') :
    c' = { c with world := { c.world with apduTimeout := timeout } } := by
  obtain ⟨-, hrun, hnext⟩ := h
  injection hrun with _ hworld
  rw [← hworld] at hnext
  exact hnext

theorem ActStep.retrySet {umtp : Ref} {l : Limits} {c c' : Client σ} {count : UInt8}
    (h : ActStep umtp l c (.retrySet count) c') :
    c' = { c with world := { c.world with apduRetry := count } } := by
  obtain ⟨-, hrun, hnext⟩ := h
  injection hrun with _ hworld
  rw [← hworld] at hnext
  exact hnext

def ClientAct.passes (m : Nat) : ClientAct → Bool
  | .call (.process milliseconds) => m ≤ milliseconds.toNat
  | _ => false

/-- How many passes of `m` milliseconds a timer runs for; for one that has run out, it takes
one pass to notice. -/
def passesFor (m timer : Nat) : Nat := (timer - 1) / m + 1

def Limits.passes (l : Limits) (m : Nat) : Nat := (l.retry + 1) * passesFor m l.timeout

inductive Session.Ages (apduTimeout : UInt32) (apduRetry : UInt8) (call : NodeCall) (x : Session) :
    Session → Prop where
  | kept {y : Session} : (∀ milliseconds, call ≠ .process milliseconds) →
      y.waiting = x.waiting → y.timer = x.timer → y.retry = x.retry →
      Ages apduTimeout apduRetry call x y
  | freed {y : Session} : y.waiting = false → Ages apduTimeout apduRetry call x y
  | begun {y : Session} : x.waiting = false → y.timer = apduTimeout →
      Ages apduTimeout apduRetry call x y
  | passed {y : Session} {milliseconds : UInt16} : call = .process milliseconds →
      x.passed milliseconds apduTimeout apduRetry = some y → Ages apduTimeout apduRetry call x y

structure KeepsTimers (w w' : World σ) : Prop where
  apduTimeout : w'.apduTimeout = w.apduTimeout
  apduRetry : w'.apduRetry = w.apduRetry
  slot : ∀ i, (w'.sessions.session i).waiting = false ∨
    (w'.sessions.session i).waiting = (w.sessions.session i).waiting ∧
      (w'.sessions.session i).timer = (w.sessions.session i).timer ∧
      (w'.sessions.session i).retry = (w.sessions.session i).retry

theorem keepsTimers_of_eq {w w' : World σ} (ht : w'.apduTimeout = w.apduTimeout)
    (hr : w'.apduRetry = w.apduRetry) (hs : w'.sessions = w.sessions) : KeepsTimers w w' :=
  ⟨ht, hr, fun i => .inr (by rw [hs]; exact ⟨rfl, rfl, rfl⟩)⟩

instance : Std.Refl (@KeepsTimers σ) := ⟨fun _ => keepsTimers_of_eq rfl rfl rfl⟩

instance : IsTrans (World σ) KeepsTimers where
  trans u v w h h' := by
    refine ⟨h'.apduTimeout.trans h.apduTimeout, h'.apduRetry.trans h.apduRetry, fun i => ?_⟩
    rcases h'.slot i with hfree | ⟨hw', ht', hr'⟩
    · exact .inl hfree
    · rcases h.slot i with hfree | ⟨hw, ht, hr⟩
      · exact .inl (hw'.trans hfree)
      · exact .inr ⟨hw'.trans hw, ht'.trans ht, hr'.trans hr⟩

theorem CallsOut.keepsTimers {E : Event → Prop} {w w' : World σ} (h : CallsOut E w w') :
    KeepsTimers w w' := by
  obtain ⟨es, app, -, rfl⟩ := h
  exact keepsTimers_of_eq rfl rfl rfl

theorem umtpSessionClear_keepsTimers (w : World σ) (id : UInt8) :
    KeepsTimers w { w with sessions := umtpSessionClear id w.sessions } := by
  refine ⟨rfl, rfl, fun i => ?_⟩
  unfold umtpSessionClear
  split
  · rename_i k hk
    dsimp only
    by_cases hik : i = k
    · subst hik
      rw [SessionState.modifySlot_same]
      exact .inl rfl
    · rw [SessionState.modifySlot_other _ hik]
      exact .inr ⟨rfl, rfl, rfl⟩
  · exact .inr ⟨rfl, rfl, rfl⟩

theorem handlerFrame_keepsTimers : HandlerFrame (@KeepsTimers σ) where
  refl := inferInstance
  trans := inferInstance
  callsOut _ _ _ h := h.keepsTimers
  reads _ _ := keepsTimers_of_eq rfl rfl rfl
  transBlk _ _ := keepsTimers_of_eq rfl rfl rfl
  clear := umtpSessionClear_keepsTimers
  send _ _ := keepsTimers_of_eq rfl rfl rfl

theorem _umtpApduSubmit_keepsTimers (umtp : Ref) (dst : UmtpAddr) (apdu : Ptr) (pduLen : Int) :
    Moves (@KeepsTimers σ) (_umtpApduSubmit umtp dst apdu pduLen) :=
  _umtpApduSubmit_moves (fun _ _ h => h.keepsTimers) (fun _ _ => keepsTimers_of_eq rfl rfl rfl)
    umtp dst apdu pduLen

theorem umtpSessionProcess_settings (ms : UInt16) :
    Moves (fun w w' : World σ => w'.apduTimeout = w.apduTimeout ∧ w'.apduRetry = w.apduRetry)
      (umtpSessionProcess ms) := by
  have : Std.Refl (fun w w' : World σ =>
      w'.apduTimeout = w.apduTimeout ∧ w'.apduRetry = w.apduRetry) := ⟨fun _ => ⟨rfl, rfl⟩⟩
  have : IsTrans (World σ) (fun w w' =>
      w'.apduTimeout = w.apduTimeout ∧ w'.apduRetry = w.apduRetry) :=
    ⟨fun _ _ _ h h' => ⟨h'.1.trans h.1, h'.2.trans h.2⟩⟩
  apply moves_forM
  intro i _
  constructor
  intro w
  obtain ⟨x, es, app, -, hfinal⟩ := processSlot_effect ms i w
  rw [hfinal]
  exact ⟨rfl, rfl⟩

theorem nodeStep_ages {umtp : Ref} (hu : umtp ≠ 0) {w w' : World σ} (hs : w.sessions.Inv)
    {call : NodeCall} (hstep : NodeStep umtp w call w') :
    w'.apduTimeout = w.apduTimeout ∧ w'.apduRetry = w.apduRetry ∧
      ∀ i, (w.sessions.session i).Ages w.apduTimeout w.apduRetry call (w'.sessions.session i) := by
  obtain ⟨hvalid, hrun⟩ := hstep
  have hkept : (∀ milliseconds, call ≠ .process milliseconds) → KeepsTimers w w' →
      w'.apduTimeout = w.apduTimeout ∧ w'.apduRetry = w.apduRetry ∧
        ∀ i, (w.sessions.session i).Ages w.apduTimeout w.apduRetry call (w'.sessions.session i) := by
    rintro hcall ⟨htimeout, hretry, hslot⟩
    refine ⟨htimeout, hretry, fun i => ?_⟩
    rcases hslot i with hfree | ⟨hw, ht, hr⟩
    · exact .freed hfree
    · exact .kept hcall hw ht hr
  cases call with
  | submit dst d =>
    obtain ⟨r, u, hsubmit, hret⟩ := of_bind_ok hrun
    cases hret
    obtain ⟨hg, hfits⟩ := umtpApduSubmit_ok hu hvalid hsubmit
    cases hc : d.confirmed with
    | false =>
      obtain ⟨tmp, -, heq⟩ := umtpApduSubmit_unconfirmed hu dst hg hvalid hfits hc
      rw [heq] at hsubmit
      exact hkept (by simp) ((_umtpApduSubmit_keepsTimers _ _ _ _).of_ok hsubmit)
    | true =>
      obtain ⟨k, x, counter, tmp, hfree, -, -, hx, -, heq⟩ :=
        umtpApduSubmit_confirmed hu dst hg hvalid hfits hc
      rw [heq] at hsubmit
      obtain ⟨htimeout, hretry, hslot⟩ := (_umtpApduSubmit_keepsTimers _ _ _ _).of_ok hsubmit
      refine ⟨htimeout, hretry, fun i => ?_⟩
      rcases hslot i with hreleased | ⟨hw, ht, hr⟩
      · exact .freed hreleased
      · dsimp only at hw ht hr
        by_cases hik : i = k
        · subst hik
          have hat : (w.sessions.modifySlot i (fun _ => x)).session i = x :=
            w.sessions.modifySlot_same i _
          rw [hat] at ht
          exact .begun (hs.free hfree) (ht.trans hx.timer)
        · have hother : (w.sessions.modifySlot k (fun _ => x)).session i = w.sessions.session i :=
            w.sessions.modifySlot_other hik _
          rw [hother] at hw ht hr
          exact .kept (by simp) hw ht hr
  | process ms =>
    obtain ⟨htimeout, hretry⟩ := (umtpSessionProcess_settings ms).of_ok hrun
    refine ⟨htimeout, hretry, fun i => ?_⟩
    have hslot := umtpSessionProcess_passed (i := i) hrun
    cases hp : (w.sessions.session i).passed ms w.apduTimeout w.apduRetry with
    | none =>
      rw [hslot, hp]
      exact .freed rfl
    | some y =>
      rw [hslot, hp]
      exact .passed rfl hp
  | handle src npdu len =>
    obtain ⟨r, u, hhandle, hret⟩ := of_bind_ok hrun
    cases hret
    exact hkept (by simp) ((npduHandler_moves handlerFrame_keepsTimers umtp src npdu len).of_ok hhandle)
  | sendQueued =>
    have hmoves := mpuMsgHandle_moves (q := .send) (R := @KeepsTimers σ)
      (fun _ _ => keepsTimers_of_eq rfl rfl rfl) (f := _umtpSendMsg)
      (fun slot pkt => (npduSend_callsOut _ _ _ _).weaken fun _ _ h => h.keepsTimers)
    exact hkept (by simp) (hmoves.of_ok hrun)

/-! The rank of a slot: the passes that it still waits at most. -/

def Session.rank (l : Limits) (m : Nat) (x : Session) : Nat :=
  (l.retry - x.retry.toNat) * passesFor m l.timeout + passesFor m x.timer.toNat

theorem passesFor_mono (m : Nat) {s t : Nat} (h : s ≤ t) : passesFor m s ≤ passesFor m t :=
  Nat.succ_le_succ (Nat.div_le_div_right (Nat.sub_le_sub_right h 1))

theorem passesFor_pos (m t : Nat) : 0 < passesFor m t := Nat.succ_pos _

theorem passesFor_sub {m ms t : Nat} (hm : 0 < m) (hms : m ≤ ms) (ht : ms < t) :
    passesFor m (t - ms) + 1 ≤ passesFor m t := by
  have hle : (t - ms - 1) / m ≤ (t - 1 - m) / m := Nat.div_le_div_right (by omega)
  have hstep : (t - 1) / m = (t - 1 - m) / m + 1 := Nat.div_eq_sub_div hm (by omega)
  unfold passesFor
  omega

theorem Session.rank_le {l : Limits} (m : Nat) {x : Session} (h : x.timer.toNat ≤ l.timeout) :
    x.rank l m ≤ l.passes m := by
  have htimer := passesFor_mono m h
  have hretries := Nat.mul_le_mul_right (passesFor m l.timeout) (Nat.sub_le l.retry x.retry.toNat)
  rw [Limits.passes, Nat.add_mul, Nat.one_mul]
  exact Nat.add_le_add hretries htimer

theorem Session.rank_pos (l : Limits) (m : Nat) (x : Session) : 0 < x.rank l m :=
  Nat.lt_of_lt_of_le (passesFor_pos m _) (Nat.le_add_left _ _)

/-- A pass never raises the rank, and one of `m` milliseconds lowers it. -/
theorem Session.passed_rank {l : Limits} {m : Nat} (hm : 0 < m) {ms : UInt16} {apduTimeout : UInt32}
    {apduRetry : UInt8} (ht : apduTimeout.toNat ≤ l.timeout) (hr : apduRetry.toNat ≤ l.retry)
    {x y : Session} (hwait : x.waiting = true) (h : x.passed ms apduTimeout apduRetry = some y) :
    y.rank l m + (if m ≤ ms.toNat then 1 else 0) ≤ x.rank l m := by
  have htimer := x.ticked_timer ms
  unfold passed at h
  rw [if_neg (by simp [hwait])] at h
  split at h
  · rename_i hleft
    cases h
    have hpos : (x.ticked ms).timer.toNat ≠ 0 := fun h0 => hleft (UInt32.toNat_inj.mp h0)
    have hstep : passesFor m (x.timer.toNat - ms.toNat) + (if m ≤ ms.toNat then 1 else 0) ≤
        passesFor m x.timer.toNat := by
      split
      · rename_i hms
        exact passesFor_sub hm hms (by omega)
      · exact passesFor_mono m (Nat.sub_le _ _)
    have hretry : (x.ticked ms).retry = x.retry := rfl
    rw [rank, rank, htimer, hretry]
    omega
  · split at h
    · rename_i hlt
      cases h
      -- a retry is worth a whole timeout
      have hlt' : x.retry.toNat < apduRetry.toNat := UInt8.lt_iff_toNat_lt.mp hlt
      have hmax := apduRetry.toNat_lt
      have hretry : ((x.ticked ms).retried apduTimeout).retry.toNat = x.retry.toNat + 1 := by
        show (x.retry + 1).toNat = _
        rw [UInt8.toNat_add, UInt8.toNat_one]
        omega
      have hstep : l.retry - x.retry.toNat = (l.retry - (x.retry.toNat + 1)) + 1 := by omega
      have hrestart : passesFor m ((x.ticked ms).retried apduTimeout).timer.toNat ≤
          passesFor m l.timeout := passesFor_mono m ht
      have hpos := passesFor_pos m x.timer.toNat
      rw [rank, rank, hretry, hstep, Nat.add_mul, Nat.one_mul]
      split <;> omega
    · cases h

theorem Session.passed_waiting {ms : UInt16} {apduTimeout : UInt32} {apduRetry : UInt8}
    {x y : Session} (h : x.passed ms apduTimeout apduRetry = some y) : y.waiting = x.waiting := by
  unfold passed at h
  split at h
  · cases h
    rfl
  · split at h
    · cases h
      rfl
    · split at h
      · cases h
        rfl
      · cases h

theorem Session.passed_timer {ms : UInt16} {apduTimeout : UInt32} {apduRetry : UInt8} {n : Nat}
    {x y : Session} (h : x.passed ms apduTimeout apduRetry = some y) (hx : x.timer.toNat ≤ n)
    (ht : apduTimeout.toNat ≤ n) : y.timer.toNat ≤ n := by
  unfold passed at h
  split at h
  · cases h
    exact hx
  · split at h
    · cases h
      rw [x.ticked_timer ms]
      omega
    · split at h
      · cases h
        exact ht
      · cases h

structure World.Within (w : World σ) (l : Limits) : Prop where
  apduTimeout : w.apduTimeout.toNat ≤ l.timeout
  apduRetry : w.apduRetry.toNat ≤ l.retry
  timer : ∀ i, (w.sessions.session i).waiting = true →
    (w.sessions.session i).timer.toNat ≤ l.timeout

theorem nodeStep_within {umtp : Ref} (hu : umtp ≠ 0) {l : Limits} {w w' : World σ}
    (hs : w.sessions.Inv) (hw : w.Within l) {call : NodeCall} (hstep : NodeStep umtp w call w') :
    w'.Within l := by
  obtain ⟨htimeout, hretry, hslot⟩ := nodeStep_ages hu hs hstep
  refine ⟨htimeout ▸ hw.apduTimeout, hretry ▸ hw.apduRetry, fun i hi => ?_⟩
  cases hslot i with
  | kept hcall hwaiting htimer hretries =>
    rw [htimer]
    exact hw.timer i (hwaiting ▸ hi)
  | freed hfree =>
    rw [hfree] at hi
    cases hi
  | begun hfree htimer =>
    rw [htimer]
    exact hw.apduTimeout
  | passed hcall hpassed =>
    have hwaiting := Session.passed_waiting hpassed
    exact Session.passed_timer hpassed (hw.timer i (hwaiting ▸ hi)) hw.apduTimeout

structure Client.Timed (l : Limits) (n : Nat) (c : Client σ) : Prop where
  inv : c.Inv
  within : c.world.Within l
  submitted : n ≤ c.requests.length

theorem actStep_timed {umtp : Ref} (hu : umtp ≠ 0) {l : Limits} {n : Nat} {c c' : Client σ}
    {act : ClientAct} (hc : c.Timed l n) (hstep : ActStep umtp l c act c') : c'.Timed l n := by
  obtain ⟨htable, hidle, howned, hheld, hlatest⟩ := hc.inv
  cases act with
  | call call =>
    obtain ⟨hvalid, hrun, hnext⟩ := hstep
    have hnode : NodeStep umtp c.world call c'.world := ⟨hvalid, hrun⟩
    refine ⟨clientStep_inv hu hc.inv ⟨hnode, hnext⟩, nodeStep_within hu htable hc.within hnode, ?_⟩
    rw [hnext]
    simp only [Client.after, Client.next, List.length_append]
    exact Nat.le_trans hc.submitted (Nat.le_add_right _ _)
  | timeoutSet timeout =>
    rw [hstep.timeoutSet]
    exact ⟨⟨htable, hidle, howned, hheld, hlatest⟩,
      ⟨hstep.1, hc.within.apduRetry, hc.within.timer⟩, hc.submitted⟩
  | retrySet count =>
    rw [hstep.retrySet]
    exact ⟨⟨htable, hidle, howned, hheld, hlatest⟩,
      ⟨hc.within.apduTimeout, hstep.1, hc.within.timer⟩, hc.submitted⟩

theorem actStep_rank {umtp : Ref} (hu : umtp ≠ 0) {l : Limits} {m : Nat} (hm : 0 < m) {n : Nat}
    {c c' : Client σ} {act : ClientAct} (hc : c.Timed l n) (hstep : ActStep umtp l c act c')
    {i : Fin maxUmtpSession} {r : Nat} (hr : r < n) (howner : c'.owner i = some r) :
    c.owner i = some r ∧
      (c'.world.sessions.session i).rank l m + (if act.passes m then 1 else 0) ≤
        (c.world.sessions.session i).rank l m := by
  cases act with
  | call call =>
    obtain ⟨hvalid, hrun, hnext⟩ := hstep
    rw [hnext] at howner
    simp only [Client.after, Client.next] at howner
    split at howner
    · rename_i hwait'
      split at howner
      · rename_i hwait
        refine ⟨howner, ?_⟩
        obtain ⟨-, -, hslot⟩ := nodeStep_ages hu hc.inv.table ⟨hvalid, hrun⟩
        cases hslot i with
        | kept hcall hwaiting htimer hretries =>
          have hpass : ClientAct.passes m (.call call) = false := by
            unfold ClientAct.passes
            split
            · rename_i ms hms
              exact absurd (ClientAct.call.inj hms) (hcall ms)
            · rfl
          rw [hpass, Session.rank, Session.rank, htimer, hretries]
          simp
        | freed hfree =>
          rw [hfree] at hwait'
          cases hwait'
        | begun hfree htimer =>
          rw [hfree] at hwait
          cases hwait
        | passed hcall hpassed =>
          subst hcall
          have hrank := Session.passed_rank hm hc.within.apduTimeout hc.within.apduRetry hwait hpassed
          simpa [ClientAct.passes] using hrank
      · -- the request is younger
        have hlen := hc.submitted
        cases howner
        omega
    · cases howner
  | timeoutSet timeout =>
    rw [hstep.timeoutSet] at howner ⊢
    exact ⟨howner, Nat.le_refl _⟩
  | retrySet count =>
    rw [hstep.retrySet] at howner ⊢
    exact ⟨howner, Nat.le_refl _⟩

theorem actRun_timed {umtp : Ref} (hu : umtp ≠ 0) {l : Limits} {w₀ : World σ}
    (h₀ : w₀.sessions = .init) (ht : w₀.apduTimeout.toNat ≤ l.timeout)
    (hr : w₀.apduRetry.toNat ≤ l.retry) {acts : List ClientAct} {c : Client σ}
    (hrun : Run (ActStep umtp l) (Client.start w₀) acts c) : c.Timed l 0 := by
  apply hrun.invariant (Client.Timed l 0) (fun _ _ _ hc hstep => actStep_timed hu hc hstep)
  refine ⟨Client.start_inv h₀, ⟨ht, hr, fun i hi => ?_⟩, Nat.zero_le _⟩
  simp only [Client.start, h₀] at hi
  cases hi

theorem timedRun_younger {umtp : Ref} (hu : umtp ≠ 0) {l : Limits} {m : Nat} (hm : 0 < m)
    {c c' : Client σ} {n : Nat} (hc : c.Timed l n) {acts : List ClientAct}
    (hr : Run (ActStep umtp l) c acts c')
    (hpasses : l.passes m ≤ acts.countP (ClientAct.passes m)) {i : Fin maxUmtpSession} {r : Nat}
    (howner : c'.owner i = some r) : n ≤ r := by
  by_contra hold
  obtain ⟨hfirst, hrank⟩ := hr.rank (fun c => (c.world.sessions.session i).rank l m)
    (fun _ _ _ h hstep => actStep_timed hu h hstep)
    (fun _ _ _ h hstep ho => actStep_rank hu hm h hstep (Nat.not_le.mp hold) ho) hc howner
  obtain ⟨req, -, hheld⟩ := hc.inv.held i r hfirst
  have hle := Session.rank_le m (hc.within.timer i hheld.waiting)
  have hpos := (c'.world.sessions.session i).rank_pos l m
  omega

/-- No request waits for longer, from wherever its node has got to. -/
theorem request_settled {umtp : Ref} (hu : umtp ≠ 0) {l : Limits} {m : Nat} (hm : 0 < m)
    {w₀ : World σ} (h₀ : w₀.sessions = .init) (ht : w₀.apduTimeout.toNat ≤ l.timeout)
    (hr : w₀.apduRetry.toNat ≤ l.retry) {before after : List ClientAct} {c c' : Client σ}
    (hbefore : Run (ActStep umtp l) (Client.start w₀) before c)
    (hafter : Run (ActStep umtp l) c after c')
    (hpasses : l.passes m ≤ after.countP (ClientAct.passes m)) :
    ∀ i r, c'.owner i = some r → c.requests.length ≤ r := by
  have hc := actRun_timed hu h₀ ht hr hbefore
  intro i r howner
  exact timedRun_younger hu hm ⟨hc.inv, hc.within, Nat.le_refl _⟩ hafter hpasses howner

def Client.act (umtp : Ref) (l : Limits) (c : Client σ) (act : ClientAct) : Option (Client σ) :=
  if act.Allowed l then
    match (act.exec umtp).run c.world with
    | .ok _ w => some (c.after act w)
    | .error _ _ => none
  else none

theorem Client.act_step {umtp : Ref} {l : Limits} {c c' : Client σ} {act : ClientAct}
    (h : c.act umtp l act = some c') : ActStep umtp l c act c' := by
  unfold Client.act at h
  split at h
  · rename_i hallowed
    split at h
    · rename_i w hrun
      cases h
      cases act with
      | call call => exact ⟨hallowed, hrun, rfl⟩
      | timeoutSet timeout => exact ⟨hallowed, hrun, rfl⟩
      | retrySet count => exact ⟨hallowed, hrun, rfl⟩
    · cases h
  · cases h

def onePass : ClientAct := .call (.process 1000)

theorem onePass_runs : ∃ c c' : Client Wire,
    Run (ActStep 1 ⟨3000, 1⟩) (Client.start (syncNode []))
        [.call (.submit UmtpAddr.zero (zeroData true 1))] c ∧
      Run (ActStep 1 ⟨3000, 1⟩) c (List.replicate 6 onePass) c' ∧ c.owner 0 = some 0 := by
  have h : (([ClientAct.call (.submit UmtpAddr.zero (zeroData true 1))].foldlM
      (Client.act 1 ⟨3000, 1⟩) (Client.start (syncNode []))).any fun c =>
        ((List.replicate 6 onePass).foldlM (Client.act 1 ⟨3000, 1⟩) c).isSome &&
          decide (c.owner 0 = some 0)) = true := by decide +kernel
  simp only [Option.any_eq_true, Bool.and_eq_true, decide_eq_true_eq, Option.isSome_iff_exists] at h
  obtain ⟨c, hc, ⟨c', hc'⟩, howner⟩ := h
  exact ⟨c, c', (run_of_foldlM hc).mono fun _ _ _ h => Client.act_step h,
    (run_of_foldlM hc').mono fun _ _ _ h => Client.act_step h, howner⟩

/-- Six passes of a second with the timeout and the retry of the source. -/
theorem request_settled_seconds : ∃ c c' : Client Wire,
    Run (ActStep 1 ⟨3000, 1⟩) c (List.replicate 6 onePass) c' ∧ c.owner 0 = some 0 ∧
      ∀ i r, c'.owner i = some r → c.requests.length ≤ r := by
  obtain ⟨c, c', hbefore, hafter, howner⟩ := onePass_runs
  exact ⟨c, c', hafter, howner, request_settled (m := 1000) Nat.one_ne_zero (by decide) rfl
    (Nat.le_refl _) (Nat.le_refl _) hbefore hafter (by decide)⟩

end Umtp
