import Umtp.Kit.FiniteRun
import Umtp.SessionProcess

set_option autoImplicit false

namespace Umtp
open CheckedBuffer StateExcept FiniteRun

structure SessionState.Inv (s : SessionState) : Prop where
  unique : ∀ i j, (s.session i).sessionId ≠ 0 →
    (s.session i).sessionId = (s.session j).sessionId → i = j
  owned : ∀ i, (s.session i).waiting = true → (s.session i).sessionId ≠ 0

theorem SessionState.init_inv : SessionState.init.Inv where
  unique i j h := absurd rfl h
  owned i h := by simp [init, Session.zero] at h

theorem SessionState.Inv.modifySlot {s : SessionState} (hs : s.Inv) (i : Fin maxUmtpSession)
    (f : Session → Session)
    (hid : (f (s.session i)).sessionId = (s.session i).sessionId ∨
      (f (s.session i)).sessionId = 0 ∨
      ∀ j, (s.session j).sessionId ≠ (f (s.session i)).sessionId)
    (hw : (f (s.session i)).waiting = true → (f (s.session i)).sessionId ≠ 0) :
    (s.modifySlot i f).Inv := by
  have hself : ∀ j, j ≠ i → (f (s.session i)).sessionId ≠ 0 →
      (f (s.session i)).sessionId ≠ (s.session j).sessionId := by
    intro j hj h0 he
    rcases hid with hid | hid | hid
    · rw [hid] at h0 he
      exact hj (hs.unique i j h0 he).symm
    · exact h0 hid
    · exact hid j he.symm
  constructor
  · intro j k h0 he
    by_cases hj : j = i
    · by_cases hk : k = i
      · rw [hj, hk]
      · subst hj
        rw [SessionState.modifySlot_same] at h0 he
        rw [SessionState.modifySlot_other s hk] at he
        exact absurd he (hself k hk h0)
    · rw [SessionState.modifySlot_other s hj] at h0 he
      by_cases hk : k = i
      · subst hk
        rw [SessionState.modifySlot_same] at he
        exact absurd he.symm (hself j hj (he ▸ h0))
      · rw [SessionState.modifySlot_other s hk] at he
        exact hs.unique j k h0 he
  · intro j h
    by_cases hj : j = i
    · subst hj
      rw [SessionState.modifySlot_same] at h ⊢
      exact hw h
    · rw [SessionState.modifySlot_other s hj] at h ⊢
      exact hs.owned j h

theorem SessionState.Inv.setCounter {s : SessionState} (hs : s.Inv) (c : UInt32) :
    ({ s with sessionId := c } : SessionState).Inv := ⟨hs.unique, hs.owned⟩

theorem SessionState.Inv.free {s : SessionState} (hs : s.Inv) {i : Fin maxUmtpSession}
    (h : (s.session i).sessionId = 0) : (s.session i).waiting = false := by
  rw [Bool.eq_false_iff]
  exact fun hw => hs.owned i hw h

theorem umtpFreeSession_inv {s : SessionState} (hs : s.Inv) (t : UInt32) :
    (umtpFreeSession t s).1.Inv := by
  cases hfree : sessionGetIndex s 0 with
  | none => rwa [umtpFreeSession_full hfree]
  | some i =>
    obtain ⟨c, -, hunused, hrun⟩ := umtpFreeSession_free t hfree
    rw [hrun]
    exact (hs.modifySlot i _ (.inr (.inr hunused)) (by simp [Session.granted])).setCounter _

theorem umtpSessionSet_final (t : UInt32) (id : UInt8) (timeout : Option TimeoutFn) (data : Ref)
    (dest : UmtpAddr) (pdu : Ptr) (pduLen : UInt16) (s : SessionState) :
    final ((umtpSessionSet t id timeout data dest pdu pduLen).run s) = s ∨
      ∃ i x, id ≠ 0 ∧ (s.session i).sessionId = id ∧ x.sessionId = id ∧
        final ((umtpSessionSet t id timeout data dest pdu pduLen).run s) =
          s.modifySlot i (fun _ => x) := by
  by_cases hid : id = 0
  · exact .inl (by simp [umtpSessionSet, hid])
  · cases hi : sessionGetIndex s id with
    | none => exact .inl (by simp [umtpSessionSet, hid, hi])
    | some i =>
      have hheld := sessionGetIndex_some hi
      have harmed : ∀ x : Session, (x.armed t timeout data).sessionId = x.sessionId := fun _ => rfl
      right
      by_cases hcopy : pdu.off + pduLen.toNat ≤ pdu.obj.length
      · cases hw : (s.session i).pdu.write 0 (pdu.bytes.take pduLen.toNat) with
        | none =>
          refine ⟨i, (s.session i).armed t timeout data, hid, hheld, hheld, ?_⟩
          simp [umtpSessionSet, hid, hi, memcpy, hcopy, Session.armed, hw]
          rfl
        | some copy =>
          refine ⟨i, ((s.session i).armed t timeout data).stored copy pduLen dest, hid, hheld,
            hheld, ?_⟩
          simp [umtpSessionSet, hid, hi, memcpy, hcopy, Session.armed, hw]
          rfl
      · refine ⟨i, (s.session i).armed t timeout data, hid, hheld, hheld, ?_⟩
        simp [umtpSessionSet, hid, hi, memcpy, hcopy]
        rfl

theorem umtpSessionSet_inv {s : SessionState} (hs : s.Inv) (t : UInt32) (id : UInt8)
    (timeout : Option TimeoutFn) (data : Ref) (dest : UmtpAddr) (pdu : Ptr) (pduLen : UInt16) :
    (final ((umtpSessionSet t id timeout data dest pdu pduLen).run s)).Inv := by
  rcases umtpSessionSet_final t id timeout data dest pdu pduLen s with h | ⟨i, x, h0, hi, hx, h⟩
  · rwa [h]
  · rw [h]
    exact hs.modifySlot i _ (.inl (hx.trans hi.symm)) (fun _ => hx.symm ▸ h0)

theorem umtpSessionClear_inv {s : SessionState} (hs : s.Inv) (id : UInt8) :
    (umtpSessionClear id s).Inv := by
  unfold umtpSessionClear
  split
  · exact hs.modifySlot _ _ (.inr (.inl rfl)) (by simp [Session.released])
  · exact hs

theorem processSlot_inv (ms : UInt16) (i : Fin maxUmtpSession) {σ : Type} :
    Moves (Keeps fun w : World σ => w.sessions.Inv) (processSlot ms i) := by
  constructor
  intro w hw
  obtain ⟨x, hx, hfinal⟩ := processSlot_sessions ms i w
  have hslot : x.sessionId = (w.sessions.session i).sessionId ∨ x.sessionId = 0 := by
    cases hx with
    | ticked => exact .inl rfl
    | released => exact .inr rfl
  have hwait : x.waiting = true → x.sessionId ≠ 0 := by
    intro h
    cases hx with
    | ticked => exact hw.owned i h
    | released => contradiction
  show (final ((processSlot ms i).run w)).sessions.Inv
  rw [hfinal]
  exact hw.modifySlot i _ (hslot.imp_right .inl) hwait

theorem umtpSessionProcess_inv (ms : UInt16) {σ : Type} :
    Moves (Keeps fun w : World σ => w.sessions.Inv) (umtpSessionProcess ms) :=
  moves_forM fun i _ => processSlot_inv ms i

inductive SessionCall where
  | freeSession
  | set (id : UInt8) (timeout : Option TimeoutFn) (data : Ref) (dest : UmtpAddr) (pdu : Ptr)
      (pduLen : UInt16)
  | process (milliseconds : UInt16)
  | clear (id : UInt8)

def SessionCall.exec {σ : Type} : SessionCall → Proc σ Unit
  | .freeSession => do let _ ← Umtp.freeSession
  | .set id timeout data dest pdu pduLen => sessionSet id timeout data dest pdu pduLen
  | .process milliseconds => umtpSessionProcess milliseconds
  | .clear id => sessionClear id

/-- A call that comes back, made in any surroundings that hold the table `s`. -/
def SessionStep (σ : Type) (s : SessionState) (c : SessionCall) (t : SessionState) : Prop :=
  ∃ w w' : World σ, w.sessions = s ∧ c.exec.run w = .ok () w' ∧ w'.sessions = t

theorem SessionCall.exec_inv {σ : Type} (c : SessionCall) :
    Moves (Keeps fun w : World σ => w.sessions.Inv) c.exec := by
  constructor
  intro w hw
  cases c with
  | freeSession => exact umtpFreeSession_inv hw w.apduTimeout
  | set id timeout data dest pdu pduLen =>
    show (final ((sessionSet id timeout data dest pdu pduLen).run w)).sessions.Inv
    rw [sessionSet_run, onSessions_final]
    exact umtpSessionSet_inv hw w.apduTimeout id timeout data dest pdu pduLen
  | process ms => exact (umtpSessionProcess_inv ms).rel w hw
  | clear id => exact umtpSessionClear_inv hw id

theorem session_run_inv {σ : Type} {cs : List SessionCall} {s : SessionState}
    (hr : Run (SessionStep σ) SessionState.init cs s) : s.Inv := by
  apply hr.invariant SessionState.Inv
  · rintro _ c _ hs ⟨w, w', rfl, hrun, rfl⟩
    exact (SessionCall.exec_inv c).of_ok hrun hs
  · exact SessionState.init_inv

structure FreeSessionSpec (s t : SessionState) (id : UInt8) : Prop where
  full : id = 0 ↔ ∀ i, (s.session i).sessionId ≠ 0
  unused : id ≠ 0 → ∀ i, (s.session i).sessionId ≠ id
  granted : id ≠ 0 → ∃! i, (t.session i).sessionId = id
  others : ∀ i, (id = 0 ∨ (t.session i).sessionId ≠ id) → t.session i = s.session i

theorem umtpFreeSession_spec (t : UInt32) (s : SessionState) :
    FreeSessionSpec s (umtpFreeSession t s).1 (umtpFreeSession t s).2 := by
  cases hfree : sessionGetIndex s 0 with
  | none =>
    rw [umtpFreeSession_full hfree]
    exact ⟨by simpa using sessionGetIndex_none.mp hfree, fun h => absurd rfl h,
      fun h => absurd rfl h, fun i _ => rfl⟩
  | some k =>
    obtain ⟨c, hc, hunused, hrun⟩ := umtpFreeSession_free t hfree
    rw [hrun]
    have hat : ((s.modifySlot k (Session.granted c.toUInt8 t)).session k).sessionId =
        c.toUInt8 := by
      rw [SessionState.modifySlot_same]
      rfl
    have hother : ∀ i, i ≠ k →
        (s.modifySlot k (Session.granted c.toUInt8 t)).session i = s.session i :=
      fun i hi => s.modifySlot_other hi _
    refine ⟨⟨fun h => absurd h hc, fun h => absurd (sessionGetIndex_some hfree) (h k)⟩,
      fun _ => hunused, fun _ => ⟨k, hat, ?_⟩, ?_⟩
    · intro i hi
      by_contra hik
      exact hunused i ((congrArg Session.sessionId (hother i hik)).symm.trans hi)
    · intro i hi
      apply hother
      rintro rfl
      exact hi.elim hc (fun h => h hat)

theorem umtpFreeSession_grant {t : UInt32} {s : SessionState} (h : (umtpFreeSession t s).2 ≠ 0) :
    ∃ i c, (s.session i).sessionId = 0 ∧
      (∀ j, (s.session j).sessionId ≠ (umtpFreeSession t s).2) ∧
      (umtpFreeSession t s).1 =
        { s.modifySlot i (Session.granted (umtpFreeSession t s).2 t) with sessionId := c } ∧
      sessionGetIndex (umtpFreeSession t s).1 (umtpFreeSession t s).2 = some i := by
  cases hfree : sessionGetIndex s 0 with
  | none =>
    rw [umtpFreeSession_full hfree] at h
    contradiction
  | some i =>
    obtain ⟨c, -, hunused, hrun⟩ := umtpFreeSession_free t hfree
    rw [hrun]
    refine ⟨i, nextSessionId c, sessionGetIndex_some hfree, hunused, rfl, ?_⟩
    have hat : ((s.modifySlot i (Session.granted c.toUInt8 t)).session i).sessionId = c.toUInt8 := by
      rw [SessionState.modifySlot_same]
      rfl
    cases hj : sessionGetIndex { s.modifySlot i (Session.granted c.toUInt8 t) with
        sessionId := nextSessionId c } c.toUInt8 with
    | none => exact absurd hat (sessionGetIndex_none.mp hj i)
    | some j =>
      by_contra hne
      have hji : j ≠ i := fun e => hne (congrArg some e)
      have hheld := sessionGetIndex_some hj
      simp only [s.modifySlot_other hji] at hheld
      exact hunused j hheld

/-- Clearing id 0 finds a free slot, which is as a cleared one is. -/
theorem umtpSessionClear_other {s : SessionState} (hs : s.Inv) {id : UInt8}
    {i : Fin maxUmtpSession} (h : id = 0 ∨ (s.session i).sessionId ≠ id) :
    (umtpSessionClear id s).session i = s.session i := by
  unfold umtpSessionClear
  split
  · rename_i k hk
    have hheld := sessionGetIndex_some hk
    by_cases hik : i = k
    · subst hik
      have h0 : (s.session i).sessionId = 0 := by
        rcases h with h | h
        · rw [hheld, h]
        · exact absurd hheld h
      have hw := hs.free h0
      rw [SessionState.modifySlot_same]
      unfold Session.released
      rw [← hw, ← h0]
    · exact s.modifySlot_other hik _
  · rfl

theorem umtpSessionSet_other {s : SessionState} {id : UInt8} {i : Fin maxUmtpSession}
    (h : id = 0 ∨ (s.session i).sessionId ≠ id) (t : UInt32) (timeout : Option TimeoutFn)
    (data : Ref) (dest : UmtpAddr) (pdu : Ptr) (pduLen : UInt16) :
    (final ((umtpSessionSet t id timeout data dest pdu pduLen).run s)).session i =
      s.session i := by
  rcases umtpSessionSet_final t id timeout data dest pdu pduLen s with hf | ⟨k, x, h0, hk, hx, hf⟩
  · rw [hf]
  · rw [hf]
    apply s.modifySlot_other
    rintro rfl
    exact h.elim h0 (fun h => h hk)

/-- However often ids have been granted, and so whatever the counter has grown to. -/
theorem session_table {σ : Type} {cs : List SessionCall} {s : SessionState}
    (hr : Run (SessionStep σ) SessionState.init cs s) :
    (∀ i j, (s.session i).sessionId ≠ 0 →
        (s.session i).sessionId = (s.session j).sessionId → i = j) ∧
      (∀ i, (s.session i).waiting = true → (s.session i).sessionId ≠ 0) ∧
      (∀ t, FreeSessionSpec s (umtpFreeSession t s).1 (umtpFreeSession t s).2) ∧
      (∀ id i, (id = 0 ∨ (s.session i).sessionId ≠ id) →
        (umtpSessionClear id s).session i = s.session i) ∧
      ∀ t id timeout data dest pdu pduLen i, (id = 0 ∨ (s.session i).sessionId ≠ id) →
        (final ((umtpSessionSet t id timeout data dest pdu pduLen).run s)).session i =
          s.session i := by
  have hs := session_run_inv hr
  exact ⟨hs.unique, hs.owned, fun t => umtpFreeSession_spec t s,
    fun _ _ h => umtpSessionClear_other hs h,
    fun t _ timeout data dest pdu pduLen _ h =>
      umtpSessionSet_other h t timeout data dest pdu pduLen⟩

def SessionCall.next (s : SessionState) (c : SessionCall) : Option SessionState :=
  match c.exec.run { World.init () with sessions := s } with
  | .ok _ w => some w.sessions
  | .error _ _ => none

theorem SessionCall.step_of_next {s t : SessionState} {c : SessionCall} (h : c.next s = some t) :
    SessionStep Unit s c t := by
  unfold SessionCall.next at h
  split at h
  · rename_i w hrun
    cases h
    exact ⟨_, w, rfl, hrun, rfl⟩
  · cases h

/-- Three ids are granted, the second of them is set, and the first goes back. -/
def threeGrants : List SessionCall :=
  [.freeSession, .freeSession, .set 2 none 1 .zero ⟨.application, [7, 8], 0⟩ 2, .freeSession,
    .process 1000, .clear 1]

theorem threeGrants_run : ∃ s, Run (SessionStep Unit) SessionState.init threeGrants s ∧
    umtpGetSession s 1 = none ∧ umtpGetSession s 3 ≠ none ∧
    ∃ i, umtpGetSession s 2 = some i ∧ (s.session i).waiting = true ∧ (s.session i).dest = .zero ∧
      (s.session i).pduLen = 2 ∧ (s.session i).pdu.cells.take 2 = [7, 8] := by
  have h : (threeGrants.foldlM SessionCall.next SessionState.init).any (fun s =>
      (umtpGetSession s 1).isNone && (umtpGetSession s 3).isSome &&
        (umtpGetSession s 2).any fun i => (s.session i).waiting &&
          decide ((s.session i).dest = .zero) && (s.session i).pduLen == 2 &&
            (s.session i).pdu.cells.take 2 == [7, 8]) = true := by decide +kernel
  simp only [Option.any_eq_true, Bool.and_eq_true, beq_iff_eq, decide_eq_true_eq,
    Option.isNone_iff_eq_none, Option.isSome_iff_ne_none] at h
  obtain ⟨s, hs, ⟨h1, h3⟩, i, h2, ⟨⟨hwait, hdest⟩, hlen⟩, hpdu⟩ := h
  exact ⟨s, (run_of_foldlM hs).mono fun _ _ _ h => SessionCall.step_of_next h, h1, h3, i, h2, hwait,
    hdest, hlen, hpdu⟩

theorem session_table_regranted :
    ∃ s, Run (SessionStep Unit) SessionState.init threeGrants s ∧
      ∃ i, (s.session i).sessionId = 2 ∧ (s.session i).waiting = true ∧
        (umtpFreeSession 3000 s).2 ≠ 2 ∧ (umtpSessionClear 3 s).session i = s.session i ∧
        (final ((umtpSessionSet 3000 3 none 1 .zero ⟨.application, [9], 0⟩ 1).run s)).session i =
          s.session i := by
  obtain ⟨s, hr, -, -, i, hi, hwait, -⟩ := threeGrants_run
  obtain ⟨-, -, hgrant, hclear, hset⟩ := session_table hr
  obtain ⟨-, hid⟩ := umtpGetSession_some hi
  have hother : (s.session i).sessionId ≠ 3 := by
    rw [hid]
    decide
  refine ⟨s, hr, i, hid, hwait, fun h => ?_, hclear 3 i (.inr hother),
    hset 3000 3 none 1 .zero _ 1 i (.inr hother)⟩
  exact (hgrant 3000).unused (by rw [h]; decide) i (hid.trans h.symm)

end Umtp
