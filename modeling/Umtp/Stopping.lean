import Umtp.Kit.FiniteRun
import Umtp.Task

/-! `umtp_stop` and `umtp_free` against a running `umtp_task`. The mpu is destroyed before the
task is joined, and both threads write `umtp->running`. -/

set_option autoImplicit false

namespace Umtp
open CheckedBuffer StateExcept FiniteRun

variable {σ : Type}

def dludpExit (dl : Dludp) : Dludp := if dl.socket ≠ 0 then { dl with socket := -1 } else dl

section

variable {τ : Type} {n : Nat} {s : τ}

theorem safely_true {α : Type} (x : EStateM Stop τ α) :
    Safely (fun _ => False) (fun _ _ => True) x s := ⟨fun _ _ _ => trivial, fun _ _ _ h => h⟩

theorem dludpDeliver_length (dl : Dludp) (pdu : Buf UInt8 maxPdu) {recvBytes : Nat}
    (hpos : recvBytes ≠ 0) (lpdu : Buf UInt8 n) :
    Safely (fun _ => False) (fun r _ => 0 ≤ r.1) (dludpDeliver dl pdu recvBytes lpdu) s := by
  unfold dludpDeliver
  cases dl.decrypt with
  | none =>
    apply (safely_true _).bind
    intro lpdu' t _
    apply safely_pure
    simp only
    omega
  | some decrypt =>
    apply (safely_true _).bind
    intro lpdu' t _
    apply safely_pure
    simp only
    split <;> omega

theorem dludpRecvData_open (host : Endian) {dl : Dludp} (hup : ¬ dl.socket < 0) (src : UmtpAddr)
    (lpdu : Buf UInt8 n) (maxPduArg : Nat) (arrival : Arrival) :
    Safely (fun _ => False) (fun r _ => 0 ≤ r.1 ∨ r.1 = -etimedout)
      (dludpRecvData host dl src lpdu maxPduArg arrival) s := by
  unfold dludpRecvData
  rw [if_neg hup]
  cases arrival with
  | timeout => exact safely_pure (.inr rfl)
  | failed => exact safely_pure (.inl (Int.le_refl 0))
  | datagram bytes sin =>
    apply (safely_true _).bind
    intro pdu t _
    by_cases hlen : min maxPduArg bytes.length = 0
    · simp only [hlen, if_true]
      exact safely_pure (.inl (Int.le_refl 0))
    · have hcut : ¬ maxPduArg < min maxPduArg bytes.length := by omega
      simp only [hlen, hcut, if_false]
      split
      · exact safely_pure (.inl (Int.le_refl 0))
      · split
        · exact safely_pure (.inl (Int.le_refl 0))
        · apply (safely_true _).bind
          intro src' u _
          apply (dludpDeliver_length dl pdu hlen lpdu).bind
          rintro ⟨pduLen, lpdu'⟩ v hpos
          exact safely_pure (.inl hpos)

end

/-- `umtp_task` leaves its loop by the error of `recv_data` exactly when it finds the socket
closed. -/
theorem umtpTaskRound_leaves_iff {umtp : Ref} {host : Endian} {dl : Dludp} {now : Int}
    {arrival : Arrival} {t : TaskLocals} {w w' : World σ} {next : Option TaskLocals}
    (h : (umtpTaskRound umtp host dl now arrival t).run w = .ok next w') :
    next = none ↔ dl.socket < 0 := by
  by_cases hup : dl.socket < 0
  · have hrecv : (dludpRecvData host dl t.src t.buf maxPdu arrival).run w =
        .ok (-einval, t.src, t.buf) w := by simp [dludpRecvData, hup]
    have hpos : 0 < einval := by decide
    have hne : ¬ einval = etimedout := by decide
    simp [umtpTaskRound, hrecv, hpos, hne] at h
    simp [← h.1, hup]
  · obtain ⟨⟨len, src, buf⟩, u, hrecv, hrest⟩ := of_bind_ok h
    have hlen := (dludpRecvData_open host hup t.src t.buf maxPdu arrival).post _ _ hrecv
    have hgo : ¬ (len < 0 ∧ len ≠ -etimedout) := by
      simp only at hlen
      omega
    have htimers : ∀ v, Safely (fun _ => False) (fun r _ => r ≠ none)
        (do
          if UInt32.ofInt (now - t.lastSeconds) ≠ 0 then
            umtpSessionProcess (UInt32.ofInt (now - t.lastSeconds) * 1000).toUInt16
            return some { src, buf, lastSeconds := now }
          return some { src, buf, lastSeconds := t.lastSeconds } : Proc σ (Option TaskLocals)) v := by
      intro v
      split
      · exact (safely_true _).bind fun _ _ _ => safely_pure (by simp)
      · exact safely_pure (by simp)
    simp only [hgo, if_false] at hrest
    have hsome : next ≠ none := by
      split at hrest
      · exact ((safely_true _).bind fun _ v _ => htimers v).post _ _ hrest
      · exact (htimers u).post _ _ hrest
    simp [hup, hsome]

theorem umtpTaskRound_exited {umtp : Ref} {host : Endian} {dl : Dludp} {now : Int}
    {arrival : Arrival} {t : TaskLocals} {w w' : World σ} {next : Option TaskLocals}
    (hopen : dl.socket ≠ 0)
    (h : (umtpTaskRound umtp host (dludpExit dl) now arrival t).run w = .ok next w') :
    next = none := (umtpTaskRound_leaves_iff h).mpr (by simp [dludpExit, hopen])

/-- What `umtp->mpu` leads to; it is NULL in sync mode, and nobody resets it. -/
inductive MpuBlock where
  | null
  | live (running : Bool)
  | destroyed
  deriving DecidableEq

inductive UmtpTaskPc where
  | test
  | recv
  | put
  | leave
  | done
  deriving DecidableEq

/-- The step that `umtp_stop` takes next, or what has become of the instance since. -/
inductive StopPc where
  | exit
  | mpuStop
  | mpuDestroy
  | setRunning
  | join
  | returned
  | freed
  | again
  deriving DecidableEq

structure Instance where
  running : Bool
  socketOpen : Bool
  mpu : MpuBlock
  syncMode : Bool
  task : UmtpTaskPc
  stopper : StopPc
  deriving DecidableEq

def Instance.start (syncMode : Bool) : Instance :=
  ⟨true, true, if syncMode then .null else .live true, syncMode, .test, .exit⟩

inductive StopAct where
  | test
  | recvPacket
  | recvNothing
  | recvFailed
  | put
  | leave
  | mpuLeave
  | exit
  | mpuStop
  | mpuDestroy
  | setRunning
  | join
  | free
  | stopAgain
  deriving DecidableEq

inductive StopStep : Instance → StopAct → Instance → Prop where
  | test {s : Instance} : s.task = .test →
      StopStep s .test { s with task := if s.running then .recv else .leave }
  -- in sync mode the packet is handled at once
  | recvPacket {s : Instance} : s.task = .recv →
      StopStep s .recvPacket { s with task := if s.syncMode then .test else .put }
  | recvNothing {s : Instance} : s.task = .recv →
      StopStep s .recvNothing { s with task := .test }
  | recvFailed {s : Instance} : s.task = .recv → s.socketOpen = false →
      StopStep s .recvFailed { s with task := .leave }
  | put {s : Instance} : s.task = .put → StopStep s .put { s with task := .test }
  | leave {s : Instance} : s.task = .leave →
      StopStep s .leave { s with running := false, task := .done }
  | mpuLeave {s : Instance} : s.mpu = .live true →
      StopStep s .mpuLeave { s with mpu := .live false }
  | exit {s : Instance} : s.stopper = .exit →
      StopStep s .exit
        { s with
          socketOpen := false
          stopper := if s.mpu = .null then .setRunning else .mpuStop }
  -- `mpu_stop`, where the mpu is still running
  | mpuStop {s : Instance} {running : Bool} : s.stopper = .mpuStop → s.mpu = .live running →
      StopStep s .mpuStop { s with mpu := .live false, stopper := .mpuDestroy }
  | mpuDestroy {s : Instance} : s.stopper = .mpuDestroy →
      StopStep s .mpuDestroy { s with mpu := .destroyed, stopper := .setRunning }
  | setRunning {s : Instance} : s.stopper = .setRunning →
      StopStep s .setRunning { s with running := true, stopper := .join }
  | join {s : Instance} : s.stopper = .join → s.task = .done →
      StopStep s .join { s with stopper := .returned }
  | free {s : Instance} : s.stopper = .returned → s.running = false →
      StopStep s .free { s with stopper := .freed }
  -- `umtp_free` calls `umtp_stop` with the mpu gone and the task joined
  | stopAgain {s : Instance} : s.stopper = .returned → s.running = true →
      StopStep s .stopAgain { s with stopper := .again }

structure Instance.Safe (s : Instance) : Prop where
  put : ∀ t, StopStep s .put t → s.mpu ≠ .destroyed
  join : ∀ t, StopStep s .join t → t.running = false
  free : ∀ t, ¬ StopStep s .stopAgain t

/-- No packet is on its way to the mpu when it is destroyed or comes in afterwards, and the
task has not ended yet when `umtp_stop` sets `running`. -/
def Instance.Timely (s : Instance) : StopAct → Prop
  | .recvPacket => s.syncMode = true ∨ s.mpu ≠ .destroyed
  | .mpuDestroy => s.task ≠ .put
  | .setRunning => s.task ≠ .done
  | _ => True

def TimelyStep (s : Instance) (act : StopAct) (t : Instance) : Prop :=
  s.Timely act ∧ StopStep s act t

theorem StopStep.timely {s t : Instance} {act : StopAct} (h : StopStep s act t)
    (htimely : s.Timely act) : TimelyStep s act t := ⟨htimely, h⟩

structure Instance.Inv (s : Instance) : Prop where
  put : s.task = .put → s.mpu ≠ .destroyed
  join : s.stopper = .join → s.task = .done → s.running = false
  returned : s.stopper = .returned → s.running = false

variable {s t : Instance} {act : StopAct}

theorem Instance.start_inv (syncMode : Bool) : (start syncMode).Inv := by
  constructor
  · simp [start]
  · simp [start]
  · simp [start]

theorem Instance.Inv.safe (h : s.Inv) : s.Safe := by
  refine ⟨?_, ?_, ?_⟩
  · intro t hstep
    cases hstep with
    | put htask => exact h.put htask
  · intro t hstep
    cases hstep with
    | join hstopper htask => exact h.join hstopper htask
  · intro t hstep
    cases hstep with
    | stopAgain hstopper hrunning =>
      rw [h.returned hstopper] at hrunning
      contradiction

theorem Instance.Inv.goes (h : s.Inv) {pc : UmtpTaskPc} (hdone : pc ≠ .done)
    (hput : pc = .put → s.mpu ≠ .destroyed) : Inv { s with task := pc } :=
  ⟨hput, fun _ hpc => absurd hpc hdone, h.returned⟩

theorem Instance.inv_stops {pc : StopPc} {mpu : MpuBlock} {socketOpen : Bool}
    (hput : s.task = .put → mpu ≠ .destroyed) (hjoin : pc ≠ .join) (hreturned : pc ≠ .returned) :
    Inv { s with stopper := pc, mpu, socketOpen } :=
  ⟨hput, fun hpc _ => absurd hpc hjoin, fun hpc => absurd hpc hreturned⟩

theorem Instance.Inv.step (h : s.Inv) (htimely : s.Timely act) (hstep : StopStep s act t) :
    t.Inv := by
  cases hstep with
  | test htask =>
    apply h.goes
    · split <;> simp
    · split <;> simp
  | recvPacket htask =>
    apply h.goes
    · split <;> simp
    · intro hput
      split at hput
      · contradiction
      · rename_i hsync
        exact htimely.resolve_left hsync
  | recvNothing htask => exact h.goes (by simp) (by simp)
  | recvFailed htask _ => exact h.goes (by simp) (by simp)
  | put htask => exact h.goes (by simp) (by simp)
  | leave htask => exact ⟨by simp, fun _ _ => rfl, fun _ => rfl⟩
  | mpuLeave hmpu => exact ⟨by simp, h.join, h.returned⟩
  | exit hstopper =>
    apply inv_stops h.put
    · split <;> simp
    · split <;> simp
  | mpuStop hstopper hmpu => exact inv_stops (by simp) (by simp) (by simp)
  | mpuDestroy hstopper =>
    exact inv_stops (fun hput => absurd hput htimely) (by simp) (by simp)
  | setRunning hstopper =>
    exact ⟨h.put, fun _ hdone => absurd hdone htimely, by simp⟩
  | join hstopper htask => exact ⟨h.put, by simp, fun _ => h.join hstopper htask⟩
  | free hstopper hrunning => exact inv_stops h.put (by simp) (by simp)
  | stopAgain hstopper hrunning => exact inv_stops h.put (by simp) (by simp)

theorem Instance.Safe.timely (h : t.Safe) (hstep : StopStep s act t) : s.Timely act := by
  cases hstep with
  | recvPacket htask =>
    by_cases hsync : s.syncMode = true
    · exact .inl hsync
    · refine .inr (h.put _ (.put ?_))
      simp [hsync]
  | mpuDestroy hstopper =>
    intro htask
    exact h.put _ (.put htask) rfl
  | setRunning hstopper =>
    intro htask
    have := h.join _ (.join rfl htask)
    contradiction
  | _ => trivial

theorem umtpStop_safe {syncMode : Bool} {acts : List StopAct}
    (hr : Run TimelyStep (.start syncMode) acts s) :
    s.Safe ∧ ∀ act t, StopStep s act t → (s.Timely act ↔ t.Safe) := by
  have h : s.Inv := by
    apply hr.invariant Instance.Inv
    · rintro s act t h ⟨htimely, hstep⟩
      exact h.step htimely hstep
    · exact Instance.start_inv syncMode
  refine ⟨h.safe, ?_⟩
  intro act t hstep
  exact ⟨fun htimely => (h.step htimely hstep).safe, fun hsafe => hsafe.timely hstep⟩

/-- The task ends once the socket is closed, but after `umtp_stop` has set `running`. -/
theorem umtpStop_safe_timely : ∃ s : Instance,
    Run TimelyStep (.start false)
      [.test, .exit, .mpuStop, .mpuDestroy, .setRunning, .recvFailed, .leave, .join] s ∧
      s.stopper = .returned ∧ s.Safe := by
  have htest : StopStep (.start false) .test _ := .test rfl
  have hstopped := ((Run.nil.snoc (htest.timely trivial)).snoc
    ((StopStep.exit rfl).timely trivial)).snoc ((StopStep.mpuStop rfl rfl).timely trivial)
  have hset := (hstopped.snoc ((StopStep.mpuDestroy rfl).timely UmtpTaskPc.noConfusion)).snoc
    ((StopStep.setRunning rfl).timely UmtpTaskPc.noConfusion)
  have hr := ((hset.snoc ((StopStep.recvFailed rfl rfl).timely trivial)).snoc
    ((StopStep.leave rfl).timely trivial)).snoc ((StopStep.join rfl rfl).timely trivial)
  exact ⟨_, hr, rfl, (umtpStop_safe hr).1⟩

/-- A packet comes in before the socket is closed and is put after the mpu has been freed;
or the task ends before `umtp_stop` sets `running`, and `umtp_free` stops the instance again. -/
theorem umtpStop_harms :
    (¬ ∀ (acts : List StopAct) (s t : Instance), Run StopStep (.start false) acts s →
      StopStep s .put t → s.mpu ≠ .destroyed) ∧
    ¬ ∀ (acts : List StopAct) (s t : Instance), Run StopStep (.start false) acts s →
      StopStep s .join t → t.running = false ∧ ∀ u, ¬ StopStep t .stopAgain u := by
  have htest : StopStep (.start false) .test _ := .test rfl
  have hrecv := Run.nil.snoc htest
  constructor
  · intro hclaim
    have hdestroyed := (((hrecv.snoc (.recvPacket rfl)).snoc (.exit rfl)).snoc
      (.mpuStop rfl rfl)).snoc (.mpuDestroy rfl)
    exact hclaim _ _ _ hdestroyed (.put rfl) rfl
  · intro hclaim
    have hdone := (((hrecv.snoc (.exit rfl)).snoc (.recvFailed rfl rfl)).snoc (.leave rfl))
    have hset := ((hdone.snoc (.mpuStop rfl rfl)).snoc (.mpuDestroy rfl)).snoc (.setRunning rfl)
    exact (hclaim _ _ _ hset (.join rfl rfl)).2 _ (.stopAgain rfl rfl)

end Umtp
