import Umtp.MpuDrain

/-! `mpu_task` and the threads that put packets in its queues. The queues are looked at only
after a wait that was signalled, and a signal wakes the task only while it waits. -/

set_option autoImplicit false

namespace Umtp
open CheckedBuffer StateExcept FiniteRun

variable {σ : Type}

inductive MpuPc where
  | test
  | lock
  | wait
  | waiting (woken : Bool)
  | drain
  | unlock (signalled : Bool)
  | left
  deriving DecidableEq

/-- `pthread_cond_signal(&mpu->mpu_msg_flag)`, as the task sees it. -/
def MpuPc.signal : MpuPc → MpuPc
  | .waiting _ => .waiting true
  | pc => pc

/-- `signals` counts the producers that are between their `ringbuf_data_put` and their signal.
The last four fields only observe: every packet accepted gets the number `next`, `numbers`
are those of the packets in each queue, and `mark` and `idle` are `next`, and whether both
queues were empty, when the last wait began. -/
structure MpuThreads (σ : Type) where
  world : World σ
  pc : MpuPc
  signals : Nat
  next : Nat
  numbers : QueueName → List Nat
  mark : Nat
  idle : Bool

def MpuThreads.start (w : World σ) : MpuThreads σ :=
  ⟨w, .test, 0, 0, fun _ => [], 0, false⟩

def MpuThreads.enqueued (s : MpuThreads σ) (q : QueueName) (ret : Int) (w : World σ) :
    MpuThreads σ :=
  { s with
    world := w
    signals := s.signals + 1
    next := if ret = 0 then s.next + 1 else s.next
    numbers := if ret = 0 then Function.update s.numbers q (s.numbers q ++ [s.next])
      else s.numbers }

inductive ThreadAct where
  | enqueue (q : QueueName) (ret : Int)
  | signal
  | stop
  | test
  | leave
  | lock
  | wait
  | signalled
  | timedOut
  | drain
  | unlock (signalled : Bool)
  deriving DecidableEq

/-- The steps of any number of producers and of the one mpu task. No producer takes
`mpu_msg_mutex`, so that the task never waits for it, and a producer that finds the mpu
stopped returns before it does anything. -/
inductive ThreadStep : MpuThreads σ → ThreadAct → MpuThreads σ → Prop where
  | enqueue {s : MpuThreads σ} {m : Mpu} {w' : World σ} {q : QueueName} {addr : UmtpAddr}
      {data : Ref} {msg : Ptr} {len ret : Int} :
      s.world.mpu = some m → m.running = true →
      (mpuPut q addr data msg len).run s.world = .ok ret w' →
      ThreadStep s (.enqueue q ret) (s.enqueued q ret w')
  | signal {s : MpuThreads σ} {k : Nat} : s.signals = k + 1 →
      ThreadStep s .signal { s with signals := k, pc := s.pc.signal }
  | stop {s : MpuThreads σ} {m : Mpu} : s.world.mpu = some m →
      ThreadStep s .stop
        { s with world := { s.world with mpu := some { m with running := false } } }
  | test {s : MpuThreads σ} {m : Mpu} : s.pc = .test → s.world.mpu = some m →
      m.running = true → ThreadStep s .test { s with pc := .lock }
  | leave {s : MpuThreads σ} {m : Mpu} : s.pc = .test → s.world.mpu = some m →
      m.running = false → ThreadStep s .leave { s with pc := .left }
  | lock {s : MpuThreads σ} : s.pc = .lock → ThreadStep s .lock { s with pc := .wait }
  | wait {s : MpuThreads σ} {m : Mpu} : s.pc = .wait → s.world.mpu = some m →
      ThreadStep s .wait { s with pc := .waiting false, mark := s.next, idle := mpuIdle m }
  | signalled {s : MpuThreads σ} : s.pc = .waiting true →
      ThreadStep s .signalled { s with pc := .drain }
  | timedOut {s : MpuThreads σ} : s.pc = .waiting false →
      ThreadStep s .timedOut { s with pc := .unlock false }
  | drain {s : MpuThreads σ} {w' : World σ} : s.pc = .drain →
      FuelLoop.Ends mpuDrainStep s.world (.ok () w') →
      ThreadStep s .drain { s with world := w', pc := .unlock true, numbers := fun _ => [] }
  | unlock {s : MpuThreads σ} {signalled : Bool} : s.pc = .unlock signalled →
      ThreadStep s (.unlock signalled) { s with pc := .test }

/-- No packet that was there when the last wait began is still in a queue. -/
def MpuThreads.NoneStranded (s : MpuThreads σ) : Prop := ∀ q, ∀ i ∈ s.numbers q, s.mark ≤ i

def MpuThreads.AfterWait (s : MpuThreads σ) : Prop :=
  match s.pc with
  | .waiting _ => s.NoneStranded ↔ s.idle = true
  | .unlock signalled => s.NoneStranded ↔ signalled = true ∨ s.idle = true
  | _ => True

structure MpuThreads.Inv (s : MpuThreads σ) (m : Mpu) : Prop where
  up : s.world.mpu = some m
  valid : ∀ q, (m.queue q).Valid
  length : ∀ q, (s.numbers q).length = (m.queue q).size
  lt_next : ∀ q, ∀ i ∈ s.numbers q, i < s.next
  mark_le : s.mark ≤ s.next
  after : s.AfterWait

theorem mpuDrain_idle {w w' : World σ} (h : FuelLoop.Ends mpuDrainStep w (.ok () w')) :
    ∃ m, w'.mpu = some m ∧ mpuIdle m = true := by
  obtain ⟨n, hn⟩ := h
  obtain ⟨t, -, ht⟩ := FuelLoop.run_post mpuDrainStep (fun _ => True)
    (fun _ _ _ _ => trivial) trivial hn
  cases hm : t.mpu with
  | none => simp [mpuDrainStep, hm] at ht
  | some m =>
    by_cases hidle : mpuIdle m = true
    · rw [mpuDrainStep_idle hm hidle] at ht
      cases ht
      exact ⟨m, hm, hidle⟩
    · cases hr : mpuTaskRound.run t with
      | ok a w₁ => simp [mpuDrainStep, hm, hidle, hr] at ht
      | error e w₁ => simp [mpuDrainStep, hm, hidle, hr] at ht

theorem mpuIdle_size {m : Mpu} (h : mpuIdle m = true) (q : QueueName) : (m.queue q).size = 0 := by
  obtain ⟨hsend, hrecv⟩ := (mpuIdle_iff m).mp h
  rw [← RingBuffer.contents_length]
  cases q with
  | recv => simp [hrecv]
  | send => simp [hsend]

theorem MpuThreads.Inv.idle_iff {s : MpuThreads σ} {m : Mpu} (h : s.Inv m) :
    mpuIdle m = true ↔ ∀ q, s.numbers q = [] := by
  constructor
  · intro hidle q
    have hlen := h.length q
    rw [mpuIdle_size hidle q] at hlen
    exact List.eq_nil_of_length_eq_zero hlen
  · intro hnil
    have hcont : ∀ q, (m.queue q).contents = [] := by
      intro q
      have hlen := h.length q
      rw [hnil q, ← RingBuffer.contents_length] at hlen
      exact List.eq_nil_of_length_eq_zero hlen.symm
    exact (mpuIdle_iff m).mpr ⟨hcont .send, hcont .recv⟩

theorem MpuThreads.AfterWait.congr {s t : MpuThreads σ} (h : s.AfterWait)
    (hnone : t.NoneStranded ↔ s.NoneStranded) (hidle : t.idle = s.idle)
    (hpc : t.pc = s.pc ∨ t.pc = s.pc.signal) : t.AfterWait := by
  unfold AfterWait at h ⊢
  rw [hidle]
  cases hs : s.pc with
  | waiting woken =>
    rw [hs] at hpc h
    rcases hpc with hpc | hpc
    · rw [hpc]
      exact hnone.trans h
    · rw [hpc]
      exact hnone.trans h
  | unlock signalled =>
    rw [hs] at hpc h
    rcases hpc with hpc | hpc
    · rw [hpc]
      exact hnone.trans h
    · rw [hpc]
      exact hnone.trans h
  | _ =>
    rw [hs] at hpc
    rcases hpc with hpc | hpc
    · rw [hpc]
      trivial
    · rw [hpc]
      trivial

theorem MpuThreads.noneStranded_enqueued {s : MpuThreads σ} (hmark : s.mark ≤ s.next)
    (q : QueueName) (ret : Int) (w : World σ) :
    (s.enqueued q ret w).NoneStranded ↔ s.NoneStranded := by
  by_cases hret : ret = 0
  · constructor
    · intro hold q' i hi
      apply hold q' i
      by_cases hq : q' = q
      · subst hq
        simp [enqueued, hret, hi]
      · simp [enqueued, hret, hq, hi]
    · intro hold q' i hi
      by_cases hq : q' = q
      · subst hq
        simp [enqueued, hret] at hi
        rcases hi with hi | rfl
        · exact hold q' i hi
        · exact hmark
      · simp [enqueued, hret, hq] at hi
        exact hold q' i hi
  · simp [NoneStranded, enqueued, hret]

theorem MpuThreads.Inv.enqueue {s : MpuThreads σ} {m : Mpu} (h : s.Inv m)
    (hr : m.running = true) {q : QueueName} {addr : UmtpAddr} {data : Ref} {msg : Ptr}
    {len ret : Int} {w' : World σ} (hput : (mpuPut q addr data msg len).run s.world = .ok ret w') :
    ∃ m', (s.enqueued q ret w').Inv m' := by
  have hafter : (s.enqueued q ret w').AfterWait :=
    h.after.congr (noneStranded_enqueued h.mark_le q ret w') rfl (.inl rfl)
  rcases mpuPut_ok addr data h.up hr (h.valid q) hput with ⟨hret, rfl⟩ | ⟨rfl, ring, pkt, rfl, hv, hc⟩
  · exact ⟨m, h.up, h.valid, by simpa [enqueued, hret] using h.length,
      by simpa [enqueued, hret] using h.lt_next, by simpa [enqueued, hret] using h.mark_le, hafter⟩
  · have hsize : ring.size = (m.queue q).size + 1 := by
      rw [← RingBuffer.contents_length, hc]
      simp
    refine ⟨m.setQueue q ring, by simp [enqueued, World.setQueue, h.up], ?_, ?_, ?_, ?_, hafter⟩
    · intro q'
      by_cases hq : q' = q
      · subst hq
        simpa using hv
      · rw [Mpu.queue_setQueue_ne m hq]
        exact h.valid q'
    · intro q'
      by_cases hq : q' = q
      · subst hq
        simp [enqueued, hsize, h.length q']
      · rw [Mpu.queue_setQueue_ne m hq]
        simpa [enqueued, hq] using h.length q'
    · intro q' i hi
      have hlt : i ∈ s.numbers q' → i < s.next := h.lt_next q' i
      by_cases hq : q' = q
      · subst hq
        simp [enqueued] at hi ⊢
        rcases hi with hi | rfl
        · have := hlt hi
          omega
        · omega
      · rw [show (s.enqueued q 0 (s.world.setQueue q ring)).numbers q' = s.numbers q' by
          simp [enqueued, hq]] at hi
        have := hlt hi
        simp [enqueued]
        omega
    · have := h.mark_le
      simp [enqueued]
      omega

theorem MpuThreads.Inv.step {s s' : MpuThreads σ} {m : Mpu} {act : ThreadAct} (h : s.Inv m)
    (hstep : ThreadStep s act s') : ∃ m', s'.Inv m' := by
  cases hstep with
  | enqueue hup hr hput =>
    obtain rfl := Option.some.inj (h.up.symm.trans hup)
    exact h.enqueue hr hput
  | signal _ =>
    exact ⟨m, h.up, h.valid, h.length, h.lt_next, h.mark_le, h.after.congr Iff.rfl rfl (.inr rfl)⟩
  | stop hup =>
    obtain rfl := Option.some.inj (h.up.symm.trans hup)
    refine ⟨{ m with running := false }, rfl, ?_, ?_, h.lt_next, h.mark_le, h.after⟩
    · intro q
      have := h.valid q
      cases q <;> exact this
    · intro q
      have := h.length q
      cases q <;> exact this
  | test _ _ _ => exact ⟨m, h.up, h.valid, h.length, h.lt_next, h.mark_le, trivial⟩
  | leave _ _ _ => exact ⟨m, h.up, h.valid, h.length, h.lt_next, h.mark_le, trivial⟩
  | lock _ => exact ⟨m, h.up, h.valid, h.length, h.lt_next, h.mark_le, trivial⟩
  | wait _ hup =>
    obtain rfl := Option.some.inj (h.up.symm.trans hup)
    refine ⟨m, h.up, h.valid, h.length, h.lt_next, Nat.le_refl _, ?_⟩
    -- every packet there is has a number below the mark
    show (∀ q, ∀ i ∈ s.numbers q, s.next ≤ i) ↔ mpuIdle m = true
    rw [h.idle_iff]
    constructor
    · intro hnone q
      apply List.eq_nil_iff_forall_not_mem.mpr
      intro i hi
      have hlt := h.lt_next q i hi
      have hle := hnone q i hi
      omega
    · intro hnil q i hi
      rw [hnil q] at hi
      contradiction
  | signalled _ => exact ⟨m, h.up, h.valid, h.length, h.lt_next, h.mark_le, trivial⟩
  | timedOut hpc =>
    refine ⟨m, h.up, h.valid, h.length, h.lt_next, h.mark_le, ?_⟩
    have hold := h.after
    simp only [AfterWait, hpc] at hold
    simp only [AfterWait, Bool.false_eq_true, false_or]
    exact hold
  | drain _ hends =>
    obtain ⟨m', hup, hidle⟩ := mpuDrain_idle hends
    have hsize := mpuIdle_size hidle
    refine ⟨m', hup, ?_, ?_, ?_, h.mark_le, ?_⟩
    · intro q
      exact ⟨by rw [hsize]; omega, by decide, by decide⟩
    · intro q
      simp [hsize]
    · simp
    · simp [AfterWait, NoneStranded]
  | unlock _ => exact ⟨m, h.up, h.valid, h.length, h.lt_next, h.mark_le, trivial⟩

theorem MpuThreads.inv_start {w : World σ} {recvBuffer sendBuffer : Fin maxPduCount → Packet}
    (hm : w.mpu = some (mpuCreate recvBuffer sendBuffer)) :
    (start w).Inv (mpuCreate recvBuffer sendBuffer) := by
  refine ⟨hm, mpuCreate_valid _ _, ?_, by simp [start], Nat.le_refl _, trivial⟩
  intro q
  simp [start, mpuCreate_size]

theorem MpuThreads.run_inv {w : World σ} {recvBuffer sendBuffer : Fin maxPduCount → Packet}
    (hm : w.mpu = some (mpuCreate recvBuffer sendBuffer)) {acts : List ThreadAct}
    {s : MpuThreads σ} (hr : Run ThreadStep (start w) acts s) : ∃ m, s.Inv m := by
  apply hr.invariant (fun s => ∃ m, s.Inv m)
  · rintro s act t ⟨m, h⟩ hstep
    exact h.step hstep
  · exact ⟨_, inv_start hm⟩

/-- At the end of each iteration, whatever the producers have done: what was queued before the
wait began has gone if and only if the wait was signalled, or there was nothing. -/
theorem wait_leaves_nothing_iff {w : World σ}
    {recvBuffer sendBuffer : Fin maxPduCount → Packet}
    (hm : w.mpu = some (mpuCreate recvBuffer sendBuffer)) {acts : List ThreadAct}
    {s s' : MpuThreads σ} {signalled : Bool} (hr : Run ThreadStep (.start w) acts s)
    (hstep : ThreadStep s (.unlock signalled) s') :
    (s.NoneStranded ↔ signalled = true ∨ s.idle = true) ∧
      -- the numbers are those of the packets in the queues
      ∃ m, s.world.mpu = some m ∧ ∀ q, (s.numbers q).length = (m.queue q).contents.length := by
  obtain ⟨m, h⟩ := MpuThreads.run_inv hm hr
  have hlen : ∀ q, (s.numbers q).length = (m.queue q).contents.length := by
    intro q
    rw [RingBuffer.contents_length, h.length q]
  refine ⟨?_, m, h.up, hlen⟩
  have hafter := h.after
  cases hstep with
  | unlock hpc =>
    unfold MpuThreads.AfterWait at hafter
    rw [hpc] at hafter
    exact hafter

theorem idleNode_locked :
    Run ThreadStep (.start idleNode) [.test, .lock] { MpuThreads.start idleNode with pc := .wait } := by
  have htest := ThreadStep.test (s := .start idleNode) rfl rfl rfl
  exact (Run.nil.snoc htest).snoc (.lock rfl)

/-- A packet whose signal comes just before the wait outlasts the iteration. -/
theorem signal_before_wait_lost :
    ¬ ∀ (acts : List ThreadAct) (s s' : MpuThreads Unit) (signalled : Bool),
      Run ThreadStep (.start idleNode) acts s → ThreadStep s (.unlock signalled) s' →
        s.NoneStranded := by
  intro hclaim
  obtain ⟨w, m, p, hput, hinv, -, -, -⟩ := idleNode_received 1
  have hqueued := idleNode_locked.snoc (.enqueue rfl rfl hput)
  have hlost := ((hqueued.snoc (.signal rfl)).snoc (.wait rfl hinv.up)).snoc (.timedOut rfl)
  have hmem : 0 ∈ ((MpuThreads.start idleNode).enqueued .recv 0 w).numbers .recv := by
    simp [MpuThreads.enqueued, MpuThreads.start]
  exact absurd (hclaim _ _ _ _ hlost (.unlock rfl) .recv 0 hmem) (Nat.not_succ_le_zero 0)

theorem signal_in_wait_heard : ∃ (acts : List ThreadAct) (s s' : MpuThreads Unit),
    Run ThreadStep (.start idleNode) acts s ∧ .enqueue .recv 0 ∈ acts ∧
      ThreadStep s (.unlock true) s' ∧ 0 < s.mark ∧ s.NoneStranded := by
  obtain ⟨w, m, p, hput, hinv, hc, hlen, hversion⟩ := idleNode_received 1
  have haccepted : ∀ p' ∈ (m.queue .recv).contents, p'.Accepted := by
    intro p' hp'
    rw [hc, List.mem_singleton] at hp'
    subst hp'
    exact ⟨hversion, .inl (by rw [hlen]; decide)⟩
  obtain ⟨w', hends, -⟩ := mpu_drain_ends hinv haccepted
  have hqueued := idleNode_locked.snoc (.enqueue rfl rfl hput)
  have hheard := ((hqueued.snoc (.wait rfl hinv.up)).snoc (.signal rfl)).snoc (.signalled rfl)
  refine ⟨_, _, _, hheard.snoc (.drain rfl hends), by simp, .unlock rfl, Nat.one_pos, ?_⟩
  exact (wait_leaves_nothing_iff rfl (hheard.snoc (.drain rfl hends)) (.unlock rfl)).1.mpr
    (.inl rfl)

end Umtp
