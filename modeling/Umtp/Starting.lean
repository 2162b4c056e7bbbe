import Umtp.Addresses
import Umtp.Kit.FiniteRun
import Umtp.Mpu

set_option autoImplicit false

namespace Umtp
open CheckedBuffer FiniteRun

structure AllocatedMpu where
  mpu : Mpu
  /-- A thread runs `mpu_task` on it. -/
  task : Bool
  /-- How many times `mpu_destroy` has been called on it. -/
  destroyed : Nat

/-- What comes of a call of `dl->init`: its result, the link, and a socket that it has opened
and not closed again. -/
structure InitOutcome where
  ret : Int
  dl : Dludp
  socket : Option Int

/-- What comes of the steps of `umtp_start` that may fail: the memory that `malloc` gives, and the
results of `dl->init` and of `pthread_create`. -/
structure StartOutcome where
  malloc : Option Mpu
  mpuThread : Int
  init : Dludp → InitOutcome
  umtpThread : Int

/-- A `struct umtp`, all that `mpu_create` has allocated so far, which `umtp->mpu` is an index of,
and the sockets that are open. -/
structure Starter where
  conf : Option Bool
  dl : Option Dludp
  hasInit : Bool
  mpu : Option Nat
  task : Bool
  running : Bool
  mpus : List AllocatedMpu
  sockets : List Int

namespace Starter

/-- `mpu_create(&umtp->mpu, ..)`; `running` is as `malloc` left it. -/
def mpuCreate (malloc : Option Mpu) (s : Starter) : Int × Starter :=
  match malloc with
  | none => (-enomem, { s with mpu := none })
  | some p =>
    let mpu : Mpu :=
      { p with
        recvQueue := ringbufInit p.recvQueue.buffer
        sendQueue := ringbufInit p.sendQueue.buffer }
    (0, { s with mpu := some s.mpus.length, mpus := s.mpus ++ [⟨mpu, false, 0⟩] })

def mpuStart (thread : Int) (s : Starter) : Int × Starter :=
  match s.mpu with
  | none => (-einval, s)
  | some i =>
    let setRunning (running : Bool) (m : AllocatedMpu) :=
      { m with mpu := { m.mpu with running } }
    let s := { s with mpus := s.mpus.modify i (setRunning true) }
    if thread ≠ 0 then (thread, { s with mpus := s.mpus.modify i (setRunning false) })
    else (0, { s with mpus := s.mpus.modify i fun m => { m with task := true } })

def mpuDestroy (s : Starter) : Starter :=
  match s.mpu with
  | none => s
  | some i => { s with mpus := s.mpus.modify i fun m => { m with destroyed := m.destroyed + 1 } }

/-- The mpu is created and started unless `conf->sync_mode`. -/
def startMpu (o : StartOutcome) (s : Starter) : Int × Starter :=
  let (ret, s) := s.mpuCreate o.malloc
  if ret ≠ 0 then (ret, s)
  else
    let (ret, s) := s.mpuStart o.mpuThread
    if ret ≠ 0 then (ret, s.mpuDestroy) else (0, s)

/-- `umtp->dl->init(umtp->dl)`, where there is one. -/
def initLink (o : StartOutcome) (s : Starter) (dl : Dludp) : Int × Starter :=
  if s.hasInit then
    let outcome := o.init dl
    (outcome.ret,
      { s with dl := some outcome.dl, sockets := s.sockets ++ outcome.socket.toList })
  else (0, s)

/-- The link and the task. Here nothing is undone. -/
def startTask (o : StartOutcome) (s : Starter) (dl : Dludp) : Int × Starter :=
  let (ret, s) := s.initLink o dl
  if ret ≠ 0 then (ret, s)
  else if o.umtpThread ≠ 0 then (o.umtpThread, { s with running := false })
  else (0, { s with running := true, task := true })

def umtpStart (o : StartOutcome) (s : Starter) : Int × Starter :=
  match s.dl, s.conf with
  | none, _ => (-einval, s)
  | some _, none => (-einval, s)
  | some dl, some syncMode =>
    let (ret, s) := if syncMode then (0, s) else s.startMpu o
    if ret ≠ 0 then (ret, s) else s.startTask o dl

structure Consistent (s : Starter) : Prop where
  task : ∀ m ∈ s.mpus, m.task = false
  mpu : ∀ i ∈ s.mpu, ∀ m ∈ s.mpus[i]?, m.destroyed = 0

structure LeavesNothing (s s' : Starter) : Prop where
  consistent : s'.Consistent
  destroyed : ∀ m ∈ s'.mpus.drop s.mpus.length, m.destroyed = 1
  sockets : s'.sockets = s.sockets
  running : s'.running = false

/-- The attempt gets to nothing that would have to be undone: it is refused, or it fails in
`mpu_create`, or it needs no mpu and opens no socket. And nothing has been left before it. -/
def Clean (s : Starter) (o : StartOutcome) : Prop :=
  match s.dl, s.conf with
  | some _, some false => o.malloc = none ∧ ∀ m ∈ s.mpus, m.task = false
  | some dl, some true => s.Consistent ∧ (s.hasInit = true → (o.init dl).socket = none)
  | _, _ => s.Consistent

def Failed (s : Starter) (o : StartOutcome) (s' : Starter) : Prop :=
  s.running = false ∧ (s.umtpStart o).1 ≠ 0 ∧ s' = (s.umtpStart o).2

theorem modify_last {α : Type} (xs : List α) (x : α) (f : α → α) :
    (xs ++ [x]).modify xs.length f = xs ++ [f x] := by
  induction xs with
  | nil => rfl
  | cons y ys ih => simpa using ih

def block (p : Mpu) (running task : Bool) (destroyed : Nat) : AllocatedMpu :=
  ⟨⟨ringbufInit p.recvQueue.buffer, ringbufInit p.sendQueue.buffer, running⟩, task, destroyed⟩

theorem startMpu_some {s : Starter} {o : StartOutcome} {p : Mpu} (hmalloc : o.malloc = some p) :
    s.startMpu o =
      if o.mpuThread ≠ 0 then (o.mpuThread,
        { s with mpu := some s.mpus.length, mpus := s.mpus ++ [block p false false 1] })
      else (0, { s with mpu := some s.mpus.length, mpus := s.mpus ++ [block p true true 0] }) := by
  unfold startMpu mpuCreate
  simp only [hmalloc]
  by_cases hthread : o.mpuThread = 0
  · simp [mpuStart, hthread, modify_last, block]
  · simp [mpuStart, hthread, modify_last, block, mpuDestroy]

inductive Left (s : Starter) (o : StartOutcome) : Starter → Prop
  | refused : s.dl = none ∨ s.conf = none → s.Left o s
  | noMemory (dl : Dludp) : s.dl = some dl → s.conf = some false → o.malloc = none →
      s.Left o { s with mpu := none }
  | notStarted (dl : Dludp) (p : Mpu) : s.dl = some dl → s.conf = some false →
      o.malloc = some p → s.Left o
        { s with mpu := some s.mpus.length, mpus := s.mpus ++ [block p false false 1] }
  | started (dl : Dludp) (p : Mpu) (dl' : Option Dludp) (sockets : List Int) :
      s.dl = some dl → s.conf = some false → o.malloc = some p → s.Left o
        { s with
          dl := dl'
          mpu := some s.mpus.length
          mpus := s.mpus ++ [block p true true 0]
          sockets }
  | sync (dl : Dludp) (dl' : Option Dludp) : s.dl = some dl → s.conf = some true →
      s.Left o
        { s with
          dl := dl'
          sockets := s.sockets ++ if s.hasInit then (o.init dl).socket.toList else [] }

theorem startTask_fails {s : Starter} {o : StartOutcome} {dl : Dludp} (hrunning : s.running = false)
    (h : (s.startTask o dl).1 ≠ 0) : ∃ dl', (s.startTask o dl).2 = { s with
      dl := dl'
      sockets := s.sockets ++ if s.hasInit then (o.init dl).socket.toList else [] } := by
  obtain ⟨ret, dl', hinit⟩ : ∃ ret dl', s.initLink o dl = (ret, { s with
      dl := dl'
      sockets := s.sockets ++ if s.hasInit then (o.init dl).socket.toList else [] }) := by
    unfold initLink
    split
    · exact ⟨_, _, rfl⟩
    · exact ⟨0, s.dl, by simp⟩
  unfold startTask at h ⊢
  simp only [hinit] at h ⊢
  by_cases hret : ret = 0
  · by_cases hthread : o.umtpThread = 0
    · simp [hret, hthread] at h
    · refine ⟨dl', ?_⟩
      simp [hret, hthread, hrunning]
  · refine ⟨dl', ?_⟩
    simp [hret]

theorem Failed.left {s s' : Starter} {o : StartOutcome} (h : s.Failed o s') : s.Left o s' := by
  obtain ⟨hrunning, hret, rfl⟩ := h
  unfold umtpStart at hret ⊢
  cases hdl : s.dl with
  | none => exact .refused (.inl hdl)
  | some dl =>
    cases hconf : s.conf with
    | none => exact .refused (.inr hconf)
    | some syncMode =>
      simp only [hdl, hconf] at hret ⊢
      cases syncMode with
      | true =>
        simp only [if_true, ne_eq, not_true, if_false] at hret ⊢
        obtain ⟨dl', hs'⟩ := startTask_fails hrunning hret
        rw [hs']
        exact .sync dl dl' hdl hconf
      | false =>
        simp only [Bool.false_eq_true, if_false] at hret ⊢
        cases hmalloc : o.malloc with
        | none =>
          have hmpu : s.startMpu o = (-enomem, { s with mpu := none }) := by
            simp [startMpu, mpuCreate, hmalloc, enomem]
          simp only [hmpu]
          exact .noMemory dl hdl hconf hmalloc
        | some p =>
          simp only [startMpu_some hmalloc] at hret ⊢
          by_cases hthread : o.mpuThread = 0
          · simp only [hthread, ne_eq, not_true, if_false] at hret ⊢
            obtain ⟨dl', hs'⟩ := startTask_fails (by exact hrunning) hret
            rw [hs']
            exact .started dl p dl' _ hdl hconf hmalloc
          · simp only [hthread, ne_eq, not_false_eq_true, if_true]
            exact .notStarted dl p hdl hconf hmalloc

theorem Left.mpus {s s' : Starter} {o : StartOutcome} (h : s.Left o s') :
    ∃ new, s'.mpus = s.mpus ++ new := by
  cases h with
  | refused | noMemory | sync => exact ⟨[], (List.append_nil _).symm⟩
  | notStarted | started => exact ⟨_, rfl⟩

theorem Left.running {s s' : Starter} {o : StartOutcome} (h : s.Left o s') :
    s'.running = s.running := by
  cases h <;> rfl

theorem Left.clean_iff {s s' : Starter} {o : StartOutcome} (h : s.Left o s')
    (hrunning : s.running = false) : s.Clean o ↔ s.LeavesNothing s' := by
  have hrunning' := h.running.trans hrunning
  cases h with
  | refused hunset =>
    have hclean : s.Clean o ↔ s.Consistent := by
      unfold Clean
      rcases hunset with hdl | hconf
      · rw [hdl]
      · rw [hconf]
        cases s.dl <;> rfl
    rw [hclean]
    exact ⟨fun h => ⟨h, by simp, rfl, hrunning⟩, fun h => h.consistent⟩
  | noMemory dl hdl hconf hmalloc =>
    have hclean : s.Clean o ↔ ∀ m ∈ s.mpus, m.task = false := by
      simp [Clean, hdl, hconf, hmalloc]
    rw [hclean]
    exact ⟨fun h => ⟨⟨h, by simp⟩, by simp, rfl, hrunning'⟩, fun h => h.consistent.task⟩
  | notStarted dl p hdl hconf hmalloc =>
    have hclean : ¬ s.Clean o := by simp [Clean, hdl, hconf, hmalloc]
    refine iff_of_false hclean fun h => ?_
    have hdestroyed := h.consistent.mpu s.mpus.length rfl (block p false false 1) (by simp)
    simp [block] at hdestroyed
  | started dl p dl' sockets hdl hconf hmalloc =>
    have hclean : ¬ s.Clean o := by simp [Clean, hdl, hconf, hmalloc]
    refine iff_of_false hclean fun h => ?_
    have htask := h.consistent.task (block p true true 0) (by simp)
    simp [block] at htask
  | sync dl dl' hdl hconf =>
    have hclean : s.Clean o ↔ s.Consistent ∧ (s.hasInit = true → (o.init dl).socket = none) := by
      simp [Clean, hdl, hconf]
    rw [hclean]
    constructor
    · rintro ⟨hs, hsocket⟩
      refine ⟨⟨hs.task, hs.mpu⟩, by simp, ?_, hrunning'⟩
      simpa using hsocket
    · intro h
      refine ⟨⟨h.consistent.task, h.consistent.mpu⟩, ?_⟩
      simpa using h.sockets

theorem LeavesNothing.trans {s t u : Starter} (hst : s.LeavesNothing t) (htu : t.LeavesNothing u)
    (hs : ∃ new, t.mpus = s.mpus ++ new) (ht : ∃ new, u.mpus = t.mpus ++ new) :
    s.LeavesNothing u := by
  obtain ⟨new, hnew⟩ := hs
  obtain ⟨new', hnew'⟩ := ht
  refine ⟨htu.consistent, fun m hm => ?_, htu.sockets.trans hst.sockets, htu.running⟩
  have hold := hst.destroyed
  have hlast := htu.destroyed
  rw [hnew, List.drop_left] at hold
  rw [hnew', List.drop_left] at hlast
  rw [hnew', hnew, List.append_assoc, List.drop_left, List.mem_append] at hm
  rcases hm with hm | hm
  · exact hold m hm
  · exact hlast m hm

theorem startTask_succeeds {s : Starter} {o : StartOutcome} {dl : Dludp}
    (h : (s.startTask o dl).1 = 0) : ∃ dl' sockets, (s.startTask o dl).2 =
      { s with dl := dl', sockets, running := true, task := true } := by
  unfold startTask initLink at h ⊢
  by_cases hinit : s.hasInit = true
  · by_cases hret : (o.init dl).ret = 0
    · by_cases hthread : o.umtpThread = 0
      · simp [hinit, hret, hthread]
      · simp [hinit, hret, hthread] at h
    · simp [hinit, hret] at h
  · by_cases hthread : o.umtpThread = 0
    · simp [hinit, hthread]
    · simp [hinit, hthread] at h

end Starter

theorem umtpStart_succeeds {s : Starter} {o : StartOutcome} (h : (s.umtpStart o).1 = 0) :
    (s.umtpStart o).2.running = true ∧ (s.umtpStart o).2.task = true ∧
      (s.conf = some true ∧ (s.umtpStart o).2.mpu = s.mpu ∧ (s.umtpStart o).2.mpus = s.mpus ∨
        s.conf = some false ∧ (s.umtpStart o).2.mpu = some s.mpus.length ∧
          ∃ p : Mpu, o.malloc = some p ∧ (s.umtpStart o).2.mpus = s.mpus ++
            [⟨mpuCreate p.recvQueue.buffer p.sendQueue.buffer, true, 0⟩]) := by
  unfold Starter.umtpStart at h ⊢
  cases hdl : s.dl with
  | none => simp [hdl, einval] at h
  | some dl =>
    cases hconf : s.conf with
    | none => simp [hdl, hconf, einval] at h
    | some syncMode =>
      simp only [hdl, hconf] at h ⊢
      cases syncMode with
      | true =>
        simp only [if_true, ne_eq, not_true, if_false] at h ⊢
        obtain ⟨dl', sockets, hs'⟩ := Starter.startTask_succeeds h
        simp [hs']
      | false =>
        simp only [Bool.false_eq_true, if_false] at h ⊢
        cases hmalloc : o.malloc with
        | none => simp [Starter.startMpu, Starter.mpuCreate, hmalloc, enomem] at h
        | some p =>
          simp only [Starter.startMpu_some hmalloc] at h ⊢
          by_cases hthread : o.mpuThread = 0
          · simp only [hthread, ne_eq, not_true, if_false] at h ⊢
            obtain ⟨dl', sockets, hs'⟩ := Starter.startTask_succeeds h
            rw [hs']
            simp [Starter.block, mpuCreate]
          · simp [hthread] at h

/-- `dludp_init` in the place of `dl->init`. It closes the socket on its way out, but not one that
it takes for an error. -/
def dludpInitOutcome (host : Endian) (sys : LinkSetup) (dl : Dludp) : InitOutcome :=
  let (ret, dl, _) := dludpInit host dl sys
  ⟨ret, dl, if dl.socket < 0 then none else some dl.socket⟩

theorem dludpInit_closes {host : Endian} {sys : LinkSetup} {dl : Dludp} (hsocket : sys.socket ≠ 0)
    (h : (dludpInitOutcome host sys dl).ret ≠ 0) :
    (dludpInitOutcome host sys dl).socket = none := by
  unfold dludpInitOutcome dludpInit at h ⊢
  by_cases hopen : sys.socket ≤ 0
  · have hfailed : sys.socket < 0 := by omega
    simp [hopen, hfailed]
  · by_cases hopt : sys.setsockopt = 0
    · by_cases hbind : sys.bind ⟨Buf.fill 4 0, host.bytes (htons host (UInt16.ofInt
          (if dl.port ≤ 0 then umtpDefaultPort else dl.port)))⟩ = 0
      · simp [hopen, hopt, hbind] at h
      · simp [hopen, hopt, hbind]
    · simp [hopen, hopt]

theorem umtpStart_leaves_nothing {s t : Starter} {os : List StartOutcome}
    (hs : s.running = false)
    (hr : Run (fun s o s' => s.Failed o s' ∧ s.Clean o) s os t) :
    t.running = false ∧ (os ≠ [] → s.LeavesNothing t) ∧
      ∀ o t', t.Failed o t' → (t.Clean o ↔ t.LeavesNothing t') := by
  have hlast : ∀ {t : Starter} o t', t.Failed o t' → (t.Clean o ↔ t.LeavesNothing t') :=
    fun o t' hfailed => hfailed.left.clean_iff hfailed.1
  have hall : t.running = false ∧ (∃ new, t.mpus = s.mpus ++ new) ∧
      (os = [] ∧ t = s ∨ s.LeavesNothing t) := by
    apply hr.history fun os t => t.running = false ∧ (∃ new, t.mpus = s.mpus ++ new) ∧
      (os = [] ∧ t = s ∨ s.LeavesNothing t)
    · exact ⟨hs, ⟨[], (List.append_nil _).symm⟩, .inl ⟨rfl, rfl⟩⟩
    · rintro os o t u - ⟨-, hst, hleaves⟩ ⟨hfailed, hclean⟩
      have htu := hfailed.left.mpus
      have hleft := (hlast o u hfailed).mp hclean
      rcases hleaves with ⟨-, rfl⟩ | hleaves
      · exact ⟨hleft.running, htu, .inr hleft⟩
      · have hsu := hleaves.trans hleft hst htu
        obtain ⟨new, hnew⟩ := hst
        obtain ⟨new', hnew'⟩ := htu
        refine ⟨hleft.running, ⟨new ++ new', ?_⟩, .inr hsu⟩
        rw [hnew', hnew, List.append_assoc]
  obtain ⟨hrunning, -, hleaves⟩ := hall
  exact ⟨hrunning, fun hne => hleaves.resolve_left fun h => hne h.1, hlast⟩

def allocated (syncMode : Bool) : Starter :=
  ⟨some syncMode, some localLink, true, none, false, false, [], []⟩

def bindResult (ret : Int) : StartOutcome where
  malloc := some ⟨ringbufInit fun _ => .zero, ringbufInit fun _ => .zero, false⟩
  mpuThread := 0
  init := dludpInitOutcome .little { localSetup with bind := fun _ => ret, errno := 98 }
  umtpThread := 0

/-- In sync mode a port in use leaves nothing behind, however often it is tried. A task that cannot
be created leaves the socket. -/
theorem umtpStart_leaves_nothing_sync : ∃ t : Starter,
    Run (fun s o s' => s.Failed o s' ∧ s.Clean o) (allocated true)
      [bindResult (-1), bindResult (-1)] t ∧
      (allocated true).LeavesNothing t ∧ ¬ t.Clean { bindResult 0 with umtpThread := 11 } := by
  have hfirst : (allocated true).Clean (bindResult (-1)) :=
    ⟨⟨by simp [allocated], by simp [allocated]⟩, fun _ => rfl⟩
  have hsecond : Starter.Clean ((allocated true).umtpStart (bindResult (-1))).2
      (bindResult (-1)) := by
    refine ⟨⟨?_, ?_⟩, fun _ => rfl⟩
    · show ∀ m ∈ [], _
      simp
    · show ∀ i ∈ none, _
      simp
  have hr : Run (fun (s : Starter) o s' => s.Failed o s' ∧ s.Clean o) (allocated true)
      [bindResult (-1), bindResult (-1)]
      (((allocated true).umtpStart (bindResult (-1))).2.umtpStart (bindResult (-1))).2 :=
    (Run.nil.snoc ⟨⟨rfl, by decide, rfl⟩, hfirst⟩).snoc ⟨⟨rfl, by decide, rfl⟩, hsecond⟩
  obtain ⟨-, hleaves, hiff⟩ := umtpStart_leaves_nothing rfl hr
  refine ⟨_, hr, hleaves (by simp), fun hclean => ?_⟩
  have hleft := (hiff { bindResult 0 with umtpThread := 11 } _ ⟨rfl, by decide, rfl⟩).mp hclean
  exact absurd hleft.sockets (by decide)

/-- With an mpu, one more task is left by each attempt that finds the port in use, and an mpu that
cannot be started is destroyed but still referred to, so that a stop destroys it again. -/
theorem umtpStart_leaves :
    (∃ t : Starter, Run Starter.Failed (allocated false) [bindResult (-1), bindResult (-1)] t ∧
      t.mpus.map AllocatedMpu.task = [true, true]) ∧
    (∃ t, (allocated false).Failed { bindResult 0 with mpuThread := 11 } t ∧ t.mpu = some 0 ∧
      t.mpus.map AllocatedMpu.destroyed = [1] ∧
      t.mpuDestroy.mpus.map AllocatedMpu.destroyed = [2]) ∧
    (∃ t, (allocated true).Failed { bindResult 0 with umtpThread := 11 } t ∧ t.sockets = [3]) ∧
    ¬ ∀ (s t : Starter) (o : StartOutcome), s.Failed o t → s.LeavesNothing t := by
  refine ⟨⟨_, (Run.nil.snoc ⟨rfl, by decide, rfl⟩).snoc ⟨rfl, by decide, rfl⟩, rfl⟩,
    ⟨_, ⟨rfl, by decide, rfl⟩, rfl, rfl, rfl⟩, ⟨_, ⟨rfl, by decide, rfl⟩, rfl⟩, fun h => ?_⟩
  have hleft := h (allocated true) _ { bindResult 0 with umtpThread := 11 } ⟨rfl, by decide, rfl⟩
  exact absurd hleft.sockets (by decide)

end Umtp
