import Umtp.Kit.FiniteRun
import Umtp.Node
import Umtp.RequestRoundTrip
import Umtp.Task

/-! The seconds on the clock of `umtp_task`, and the milliseconds its session timers are
charged. -/

set_option autoImplicit false

namespace Umtp
open CheckedBuffer StateExcept FiniteRun

variable {σ : Type}

/-- What a round passes to `umtp_session_process`, as that function has it. -/
def TaskLocals.charge (t : TaskLocals) (now : Int) : Option UInt16 :=
  if UInt32.ofInt (now - t.lastSeconds) ≠ 0 then
    some (UInt32.ofInt (now - t.lastSeconds) * 1000).toUInt16
  else none

/-- A round up to where it looks at the clock. -/
def umtpTaskReceive (umtp : Ref) (host : Endian) (dl : Dludp) (arrival : Arrival)
    (t : TaskLocals) : Proc σ (Option (UmtpAddr × Buf UInt8 maxPdu)) := do
  let (len, src, buf) ← dludpRecvData host dl t.src t.buf maxPdu arrival
  if len < 0 ∧ len ≠ -etimedout then
    return none
  if 0 < len then
    let _ ← umtpTaskMessage umtp src buf len
  return some (src, buf)

def umtpTaskTimers (now : Int) (t : TaskLocals) (src : UmtpAddr) (buf : Buf UInt8 maxPdu) :
    Proc σ (Option TaskLocals) := do
  match t.charge now with
  | some ms =>
    umtpSessionProcess ms
    return some { src, buf, lastSeconds := now }
  | none => return some { src, buf, lastSeconds := t.lastSeconds }

theorem umtpTaskTimers_eq (now : Int) (t : TaskLocals) (src : UmtpAddr) (buf : Buf UInt8 maxPdu) :
    (umtpTaskTimers now t src buf : Proc σ (Option TaskLocals)) = (do
      if UInt32.ofInt (now - t.lastSeconds) ≠ 0 then
        umtpSessionProcess (UInt32.ofInt (now - t.lastSeconds) * 1000).toUInt16
        return some { src, buf, lastSeconds := now }
      return some { src, buf, lastSeconds := t.lastSeconds }) := by
  unfold umtpTaskTimers TaskLocals.charge
  by_cases h : UInt32.ofInt (now - t.lastSeconds) = 0
  · simp [h]
  · simp [h]

theorem umtpTaskRound_run (umtp : Ref) (host : Endian) (dl : Dludp) (now : Int)
    (arrival : Arrival) (t : TaskLocals) (w : World σ) :
    (umtpTaskRound umtp host dl now arrival t).run w = (do
      match ← umtpTaskReceive umtp host dl arrival t with
      | some (src, buf) => umtpTaskTimers now t src buf
      | none => return none : Proc σ (Option TaskLocals)).run w := by
  simp only [umtpTaskTimers_eq]
  unfold umtpTaskRound umtpTaskReceive
  simp only [EStateM.run_bind]
  cases (dludpRecvData host dl t.src t.buf maxPdu arrival : Proc σ _).run w with
  | error e u => rfl
  | ok r u =>
    obtain ⟨len, src, buf⟩ := r
    by_cases hlen : len < 0 ∧ len ≠ -etimedout
    · simp [hlen]
    · by_cases hpos : 0 < len
      · simp only [hlen, hpos, if_true, if_false, EStateM.run_bind]
        cases (umtpTaskMessage umtp src buf len).run u with
        | error e v => rfl
        | ok r v => rfl
      · simp [hlen, hpos]

/-- What a round finds: the time, what comes from the network, and the state as the other
threads have left it. -/
structure TaskRound (σ : Type) where
  now : Int
  arrival : Arrival
  world : World σ

/-- The local variables, with the latest reading of the clock, that at the latest pass over
the sessions (at first that at the start), and the milliseconds that the passes got. -/
structure Clocked where
  locals : TaskLocals
  now : Int
  pass : Int
  charged : Nat

/-- `last_seconds = time(NULL)` -/
def Clocked.start (start : Int) : Clocked :=
  ⟨{ taskStart with lastSeconds := start }, start, start, 0⟩

/-- A round that does not end the loop. The clock does not go back. -/
def TaskStep (umtp : Ref) (host : Endian) (dl : Dludp) (s : Clocked) (r : TaskRound σ)
    (s' : Clocked) : Prop :=
  s.now ≤ r.now ∧
  (∃ w, (umtpTaskRound umtp host dl r.now r.arrival s.locals).run r.world =
    .ok (some s'.locals) w) ∧
  s'.now = r.now ∧
  match s.locals.charge r.now with
  | some ms => s'.pass = r.now ∧ s'.charged = s.charged + ms.toNat
  | none => s'.pass = s.pass ∧ s'.charged = s.charged

/-- The reading at the latest pass, and the seconds between each pass and the one before, as
they follow from the readings. -/
structure PassLog where
  last : Int
  gaps : List Int

def PassLog.read (log : PassLog) (now : Int) : PassLog :=
  if UInt32.ofInt (now - log.last) = 0 then log else ⟨now, log.gaps ++ [now - log.last]⟩

def passLog (start : Int) (readings : List Int) : PassLog :=
  readings.foldl PassLog.read ⟨start, []⟩

theorem passLog_snoc (start : Int) (readings : List Int) (now : Int) :
    passLog start (readings ++ [now]) = (passLog start readings).read now := by
  simp [passLog]

/-- A gap is charged modulo 2^16 milliseconds. -/
theorem charged_toNat (gap : Int) :
    ((UInt32.ofInt gap * 1000).toUInt16.toNat : Int) = gap * 1000 % 65536 := by
  have hthousand : (1000 : UInt32).toNat = 1000 := rfl
  have hgap : (UInt32.ofInt gap).toNat = (gap % 2 ^ 32).toNat := by
    rw [UInt32.ofInt, UInt32.toNat_ofNat']
    omega
  rw [UInt32.toNat_toUInt16, UInt32.toNat_mul, hthousand, hgap]
  omega

theorem TaskLocals.charge_eq_none {t : TaskLocals} {now : Int} :
    t.charge now = none ↔ UInt32.ofInt (now - t.lastSeconds) = 0 := by
  simp [charge]

theorem TaskLocals.charge_some {t : TaskLocals} {now : Int} {ms : UInt16}
    (h : t.charge now = some ms) :
    UInt32.ofInt (now - t.lastSeconds) ≠ 0 ∧
      (ms.toNat : Int) = (now - t.lastSeconds) * 1000 % 65536 := by
  unfold charge at h
  split at h
  case isTrue hne =>
    cases h
    exact ⟨hne, charged_toNat _⟩
  case isFalse => cases h

theorem umtpTaskRound_lastSeconds {umtp : Ref} {host : Endian} {dl : Dludp} {now : Int}
    {arrival : Arrival} {t t' : TaskLocals} {w w' : World σ}
    (h : (umtpTaskRound umtp host dl now arrival t).run w = .ok (some t') w') :
    t'.lastSeconds = if t.charge now = none then t.lastSeconds else now := by
  rw [umtpTaskRound_run] at h
  obtain ⟨r, u, -, hrest⟩ := of_bind_ok h
  cases r with
  | none => cases hrest
  | some r =>
    cases hcharge : t.charge now with
    | none =>
      simp [umtpTaskTimers, hcharge] at hrest
      simp [← hrest.1]
    | some ms =>
      simp only [umtpTaskTimers, hcharge] at hrest
      obtain ⟨-, v, -, hrest⟩ := of_bind_ok hrest
      cases hrest
      simp

structure Clocked.Follows (start : Int) (s : Clocked) (log : PassLog) : Prop where
  lastSeconds : s.locals.lastSeconds = log.last
  pass : s.pass = log.last
  now : log.last ≤ s.now
  charged_le : (s.charged : Int) ≤ 1000 * (log.last - start)
  charged : (s.charged : Int) = 1000 * (log.last - start) ↔ ∀ gap ∈ log.gaps, gap ≤ 65

theorem taskStep_follows {umtp : Ref} {host : Endian} {dl : Dludp} {start : Int} {s s' : Clocked}
    {r : TaskRound σ} {log : PassLog} (hs : s.Follows start log)
    (hstep : TaskStep umtp host dl s r s') : s'.Follows start (log.read r.now) := by
  obtain ⟨hmono, ⟨w, hround⟩, hnow, hghost⟩ := hstep
  have hlast := umtpTaskRound_lastSeconds hround
  have hbefore := hs.now
  cases hcharge : s.locals.charge r.now with
  | none =>
    rw [hcharge] at hghost
    obtain ⟨hpass, hcharged⟩ := hghost
    have hsame : log.read r.now = log := by
      rw [TaskLocals.charge_eq_none, hs.lastSeconds] at hcharge
      simp [PassLog.read, hcharge]
    rw [hsame]
    refine ⟨?_, hpass.trans hs.pass, by omega, ?_, ?_⟩
    · rw [hlast, if_pos hcharge]
      exact hs.lastSeconds
    · rw [hcharged]
      exact hs.charged_le
    · rw [hcharged]
      exact hs.charged
  | some ms =>
    rw [hcharge] at hghost
    obtain ⟨hpass, hcharged⟩ := hghost
    obtain ⟨hne, hms⟩ := TaskLocals.charge_some hcharge
    rw [hs.lastSeconds] at hne hms
    have hread : log.read r.now = ⟨r.now, log.gaps ++ [r.now - log.last]⟩ := by
      simp [PassLog.read, hne]
    have hle := hs.charged_le
    have hiff := hs.charged
    rw [hread]
    refine ⟨?_, hpass, by simp [hnow], ?_, ?_⟩
    · rw [hlast, if_neg (by simp [hcharge])]
    · dsimp only
      omega
    · -- no pass makes up for what another is short of
      simp only [List.forall_mem_append, List.forall_mem_singleton, ← hiff]
      omega

theorem session_time_iff {umtp : Ref} {host : Endian} {dl : Dludp} {start : Int}
    {rounds : List (TaskRound σ)} {s : Clocked}
    (hr : Run (TaskStep umtp host dl) (Clocked.start start) rounds s) :
    (s.charged : Int) = 1000 * (s.pass - start) ↔
      ∀ gap ∈ (passLog start (rounds.map (·.now))).gaps, gap ≤ 65 := by
  have hs : s.Follows start (passLog start (rounds.map (·.now))) := by
    refine hr.history (fun rs s => s.Follows start (passLog start (rs.map (·.now)))) ?_ ?_
    · exact ⟨rfl, rfl, Int.le_refl _, by simp [passLog, Clocked.start],
        by simp [passLog, Clocked.start]⟩
    · intro rs r t u _ ht hstep
      rw [List.map_append, List.map_singleton, passLog_snoc]
      exact taskStep_follows ht hstep
  rw [hs.pass]
  exact hs.charged

theorem umtpTaskRound_idle {umtp : Ref} {host : Endian} {dl : Dludp} (hup : ¬ dl.socket < 0)
    (now : Int) (t : TaskLocals) {w : World σ}
    (hidle : ∀ i, (w.sessions.session i).waiting = false) :
    (umtpTaskRound umtp host dl now .timeout t).run w =
      .ok (some { t with lastSeconds := if t.charge now = none then t.lastSeconds else now }) w := by
  rw [umtpTaskRound_run]
  have hreceive : (umtpTaskReceive umtp host dl .timeout t).run w = .ok (some (t.src, t.buf)) w := by
    have hpos : ¬ etimedout < 0 := by decide
    simp [umtpTaskReceive, dludpRecvData, hup, hpos]
  rw [EStateM.run_bind, hreceive]
  cases hcharge : t.charge now with
  | none => simp [umtpTaskTimers, hcharge]
  | some ms => simp [umtpTaskTimers, hcharge, umtpSessionProcess_idle hidle]

theorem taskStep_idle {umtp : Ref} {host : Endian} {dl : Dludp} (hup : ¬ dl.socket < 0)
    {s : Clocked} {now : Int} (hnow : s.now ≤ now) {ms : UInt16}
    (hms : s.locals.charge now = some ms) {w : World σ}
    (hidle : ∀ i, (w.sessions.session i).waiting = false) :
    TaskStep umtp host dl s ⟨now, .timeout, w⟩
      ⟨{ s.locals with lastSeconds := now }, now, now, s.charged + ms.toNat⟩ := by
  refine ⟨hnow, ⟨w, ?_⟩, rfl, ?_⟩
  · rw [umtpTaskRound_idle hup now s.locals hidle]
    simp [hms]
  · simp [hms]

/-- Passes after one second, after forty, and after 65 as the last gap that is charged in full. -/
theorem session_time_gaps : ∃ s, Run (TaskStep 1 .little localLink) (Clocked.start 1000)
    [⟨1001, .timeout, startedNode⟩, ⟨1041, .timeout, startedNode⟩, ⟨1106, .timeout, startedNode⟩]
    s ∧ s.pass = 1106 ∧ (s.charged : Int) = 1000 * (s.pass - 1000) := by
  have hfirst : Run (TaskStep 1 .little localLink) (Clocked.start 1000)
      [⟨1001, .timeout, startedNode⟩] _ :=
    Run.nil.snoc (taskStep_idle (by decide) (by decide)
      (show (Clocked.start 1000).locals.charge 1001 = some 1000 from rfl) fun _ => rfl)
  have hsecond : Run (TaskStep 1 .little localLink) (Clocked.start 1000)
      [⟨1001, .timeout, startedNode⟩, ⟨1041, .timeout, startedNode⟩] _ :=
    hfirst.snoc (taskStep_idle (by decide) (by decide)
      (show _ = some (40000 : UInt16) from rfl) fun _ => rfl)
  have hthird : Run (TaskStep 1 .little localLink) (Clocked.start 1000)
      [⟨1001, .timeout, startedNode⟩, ⟨1041, .timeout, startedNode⟩, ⟨1106, .timeout, startedNode⟩]
      _ :=
    hsecond.snoc (taskStep_idle (by decide) (by decide)
      (show _ = some (65000 : UInt16) from rfl) fun _ => rfl)
  exact ⟨_, hthird, rfl, (session_time_iff hthird).mpr (by decide)⟩

/-- 66 seconds between two passes are charged as 464 milliseconds. -/
theorem session_time_lost : ∃ s, Run (TaskStep 1 .little localLink) (Clocked.start 1000)
    [⟨1066, .timeout, startedNode⟩] s ∧ s.pass - 1000 = 66 ∧ s.charged = 464 ∧
      (s.charged : Int) ≠ 1000 * (s.pass - 1000) := by
  have hr : Run (TaskStep 1 .little localLink) (Clocked.start 1000)
      [⟨1066, .timeout, startedNode⟩] _ :=
    Run.nil.snoc (taskStep_idle (by decide) (by decide) rfl fun _ => rfl)
  exact ⟨_, hr, rfl, rfl, by decide⟩

end Umtp
