import Umtp.Kit.FiniteRun
import Umtp.MpuTask

/-! A packet queue with one producer and one consumer, whose calls interleave: puts may come
between any two steps of `mpu_msg_handle`. -/

set_option autoImplicit false

namespace Umtp
open CheckedBuffer StateExcept FiniteRun

variable {σ : Type}

/-- A packet without the stale bytes after its end. -/
structure Message where
  length : UInt16
  bytes : List UInt8
  addr : UmtpAddr
  data : Ref
  deriving DecidableEq

def Packet.message (p : Packet) : Message :=
  ⟨p.length, p.buffer.cells.take p.length.toNat, p.addr, p.data⟩

/-- How far `mpu_msg_handle` has got with the packet in a slot. -/
inductive Consumer where
  | idle
  | peeked (slot : Fin maxPduCount)
  | handled (slot : Fin maxPduCount)

structure QueueState (σ : Type) where
  world : World σ
  consumer : Consumer

inductive QueueAct where
  | put (m : Message) (ret : Int)
  | peek
  | handle (m : Message)
  | pop

/-- One call of the producer, or one step of the consumer. The handler reads the packet in
its slot at the moment it runs. -/
inductive QueueStep (q : QueueName) (handler : Fin maxPduCount → Packet → Proc σ Int) :
    QueueState σ → QueueAct → QueueState σ → Prop where
  | put {w w' : World σ} {c : Consumer} {addr : UmtpAddr} {data : Ref} {msg : Ptr} {len ret : Int} :
      0 ≤ len → len ≤ maxMpuData → msg.off + len.toNat ≤ msg.obj.length →
      (mpuPut q addr data msg len).run w = .ok ret w' →
      QueueStep q handler ⟨w, c⟩
        (.put ⟨UInt16.ofInt len, msg.bytes.take len.toNat, addr, data⟩ ret) ⟨w', c⟩
  | peek {w : World σ} {m : Mpu} {slot : Fin maxPduCount} :
      w.mpu = some m → ringbufEmpty (m.queue q) = false → ringbufPeek (m.queue q) = some slot →
      QueueStep q handler ⟨w, .idle⟩ .peek ⟨w, .peeked slot⟩
  | handle {w w' : World σ} {m : Mpu} {slot : Fin maxPduCount} :
      w.mpu = some m → (handler slot ((m.queue q).buffer slot)).run w = .ok 0 w' →
      QueueStep q handler ⟨w, .peeked slot⟩ (.handle ((m.queue q).buffer slot).message)
        ⟨w', .handled slot⟩
  | pop {w w' : World σ} {slot : Fin maxPduCount} :
      (mpuPop q).run w = .ok () w' →
      QueueStep q handler ⟨w, .handled slot⟩ .pop ⟨w', .idle⟩

def LeavesQueue (q : QueueName) (w w' : World σ) : Prop :=
  w'.mpu.map (fun m => (m.queue q, m.running)) = w.mpu.map (fun m => (m.queue q, m.running))

instance (q : QueueName) : Std.Refl (@LeavesQueue σ q) := ⟨fun _ => rfl⟩

instance (q : QueueName) : IsTrans (World σ) (LeavesQueue q) := ⟨fun _ _ _ h₁ h₂ => h₂.trans h₁⟩

theorem LeavesQueue.some {q : QueueName} {w w' : World σ} (h : LeavesQueue q w w') {m : Mpu}
    (hm : w.mpu = some m) :
    ∃ m', w'.mpu = some m' ∧ m'.queue q = m.queue q ∧ m'.running = m.running := by
  unfold LeavesQueue at h
  rw [hm] at h
  cases hm' : w'.mpu with
  | none => simp [hm'] at h
  | some m' =>
    simp only [hm', Option.map_some, Option.some.injEq, Prod.mk.injEq] at h
    exact ⟨m', rfl, h⟩

theorem LeavesQueue.of_callsOut {q : QueueName} {E : Event → Prop} {w w' : World σ}
    (h : CallsOut E w w') : LeavesQueue q w w' := by
  obtain ⟨es, app, -, rfl⟩ := h
  rfl

theorem _umtpSendMsg_leavesQueue (slot : Fin maxPduCount) (pkt : Packet) :
    Moves (@LeavesQueue σ .send) (_umtpSendMsg slot pkt) :=
  (npduSend_callsOut _ _ _ _).weaken fun _ _ h => .of_callsOut h

theorem _umtpHandleMsg_leavesQueue (slot : Fin maxPduCount) (pkt : Packet) :
    Moves (@LeavesQueue σ .recv) (_umtpHandleMsg slot pkt) := by
  apply npduHandler_moves
  refine ⟨inferInstance, inferInstance, fun _ _ _ h => .of_callsOut h, fun _ _ => rfl,
    fun _ _ => rfl, fun _ _ => rfl, ?_⟩
  intro w ring
  unfold LeavesQueue World.setQueue
  cases w.mpu <;> rfl

/-- A call of `mpu_msg_handle` is the three steps of the consumer, one after the other. -/
theorem mpuMsgHandle_steps {q : QueueName} {handler : Fin maxPduCount → Packet → Proc σ Int}
    {w w₁ : World σ} {m : Mpu} {slot : Fin maxPduCount} (hm : w.mpu = some m)
    (hne : ringbufEmpty (m.queue q) = false) (hpeek : ringbufPeek (m.queue q) = some slot)
    (hret : (handler slot ((m.queue q).buffer slot)).run w = .ok 0 w₁) :
    ∃ w', (mpuMsgHandle q handler).run w = .ok () w' ∧
      Run (QueueStep q handler) ⟨w, .idle⟩
        [.peek, .handle ((m.queue q).buffer slot).message, .pop] ⟨w', .idle⟩ := by
  refine ⟨_, ?_, ((Run.nil.snoc (.peek hm hne hpeek)).snoc (.handle hm hret)).snoc (.pop rfl)⟩
  simp [mpuMsgHandle, umtpMpu, hm, hne, hpeek, hret, mpuPop]

def accepted (acts : List QueueAct) : List Message :=
  acts.filterMap fun
    | .put m ret => if ret = 0 then some m else none
    | _ => none

def given (acts : List QueueAct) : List Message :=
  acts.filterMap fun
    | .handle m => some m
    | _ => none

def popped (acts : List QueueAct) : Nat :=
  acts.countP fun
    | .pop => true
    | _ => false

section

variable (acts : List QueueAct) (m : Message) (ret : Int)

@[simp] theorem accepted_put :
    accepted (acts ++ [.put m ret]) = accepted acts ++ if ret = 0 then [m] else [] := by
  by_cases h : ret = 0 <;> simp [accepted, h]

@[simp] theorem accepted_peek : accepted (acts ++ [.peek]) = accepted acts := by simp [accepted]

@[simp] theorem accepted_handle : accepted (acts ++ [.handle m]) = accepted acts := by
  simp [accepted]

@[simp] theorem accepted_pop : accepted (acts ++ [.pop]) = accepted acts := by simp [accepted]

@[simp] theorem given_put : given (acts ++ [.put m ret]) = given acts := by simp [given]

@[simp] theorem given_peek : given (acts ++ [.peek]) = given acts := by simp [given]

@[simp] theorem given_handle : given (acts ++ [.handle m]) = given acts ++ [m] := by simp [given]

@[simp] theorem given_pop : given (acts ++ [.pop]) = given acts := by simp [given]

@[simp] theorem popped_put : popped (acts ++ [.put m ret]) = popped acts := by simp [popped]

@[simp] theorem popped_peek : popped (acts ++ [.peek]) = popped acts := by simp [popped]

@[simp] theorem popped_handle : popped (acts ++ [.handle m]) = popped acts := by simp [popped]

@[simp] theorem popped_pop : popped (acts ++ [.pop]) = popped acts + 1 := by simp [popped]

end

def Consumer.slot : Consumer → Option (Fin maxPduCount)
  | .idle => none
  | .peeked slot => some slot
  | .handled slot => some slot

def Consumer.ahead : Consumer → Nat
  | .handled _ => 1
  | _ => 0

/-- The queue holds what has been accepted and not yet popped, and the consumer is at its
first packet. -/
structure QueueInv (q : QueueName) (acts : List QueueAct) (s : QueueState σ) (m : Mpu) :
    Prop where
  up : s.world.mpu = some m
  running : m.running = true
  valid : (m.queue q).Valid
  contents : (m.queue q).contents.map Packet.message = (accepted acts).drop (popped acts)
  popped_le : popped acts ≤ (accepted acts).length
  given_eq : given acts = (accepted acts).take (popped acts + s.consumer.ahead)
  at_first : ∀ slot, s.consumer.slot = some slot →
    (m.queue q).contents ≠ [] ∧ ringbufPeek (m.queue q) = some slot

theorem QueueInv.size {q : QueueName} {acts : List QueueAct} {s : QueueState σ} {m : Mpu}
    (h : QueueInv q acts s m) : (m.queue q).size = (accepted acts).length - popped acts := by
  have hlen := congrArg List.length h.contents
  rwa [List.length_map, List.length_drop, RingBuffer.contents_length] at hlen

theorem QueueInv.first {q : QueueName} {acts : List QueueAct} {s : QueueState σ} {m : Mpu}
    (h : QueueInv q acts s m) {slot : Fin maxPduCount} (hs : s.consumer.slot = some slot) :
    ((accepted acts).drop (popped acts)).head? = some ((m.queue q).buffer slot).message := by
  obtain ⟨hne, hpeek⟩ := h.at_first slot hs
  obtain ⟨x, xs, hx⟩ := List.exists_cons_of_ne_nil hne
  obtain ⟨c, hc, hb⟩ := ringbufPeek_cons hx
  rw [hc] at hpeek
  cases hpeek
  rw [← h.contents, hx, hb]
  rfl

theorem QueueInv.ahead_le {q : QueueName} {acts : List QueueAct} {s : QueueState σ} {m : Mpu}
    (h : QueueInv q acts s m) : popped acts + s.consumer.ahead ≤ (accepted acts).length := by
  have hle := h.popped_le
  cases hc : s.consumer with
  | idle => exact hle
  | peeked slot => exact hle
  | handled slot =>
    have hslot : s.consumer.slot = some slot := by rw [hc]; rfl
    have hfirst := h.first hslot
    by_contra hgt
    simp only [Consumer.ahead] at hgt
    rw [List.drop_of_length_le (by omega)] at hfirst
    contradiction

theorem QueueInv.put {q : QueueName} {acts : List QueueAct} {w w' : World σ} {c : Consumer}
    {m : Mpu} (h : QueueInv q acts ⟨w, c⟩ m) {addr : UmtpAddr} {data : Ref} {msg : Ptr}
    {len ret : Int} (h0 : 0 ≤ len) (hlen : len ≤ maxMpuData)
    (hread : msg.off + len.toNat ≤ msg.obj.length)
    (hput : (mpuPut q addr data msg len).run w = .ok ret w') :
    ∃ m', QueueInv q (acts ++ [.put ⟨UInt16.ofInt len, msg.bytes.take len.toNat, addr, data⟩ ret])
      ⟨w', c⟩ m' := by
  have hdata : (maxMpuData : Int) = 2000 := rfl
  by_cases hfull : (m.queue q).size = maxPduCount
  · rw [mpuPut_full addr data h.up h.running h.valid hfull] at hput
    cases hput
    have hret : ¬ (-enomem : Int) = 0 := by decide
    exact ⟨m, h.up, h.running, h.valid, by simpa [hret] using h.contents,
      by simpa [hret] using h.popped_le, by simpa [hret] using h.given_eq, h.at_first⟩
  · have hroom : (m.queue q).size < maxPduCount := by
      have := h.valid.size_le
      omega
    obtain ⟨ring, pkt, hrun, hvalid, htail, hcont, hpl, hpb, hpa, hpd⟩ :=
      mpuPut_room addr data h.up h.running h.valid hroom hread (by omega)
    have hmsg : pkt.message = ⟨UInt16.ofInt len, msg.bytes.take len.toNat, addr, data⟩ := by
      have hl := uint16_ofInt_toNat h0 (by omega)
      simp [Packet.message, hpl, hl, hpb, hpa, hpd]
    rw [hrun] at hput
    cases hput
    have hup : w.mpu = some m := h.up
    have hle := h.popped_le
    have hahead := h.ahead_le
    refine ⟨m.setQueue q ring, by simp [World.setQueue, hup], by simpa using h.running,
      by simpa using hvalid, ?_, ?_, ?_, ?_⟩
    · simp [hcont, h.contents, hmsg, List.drop_append_of_le_length hle]
    · simp
      omega
    · simp [h.given_eq, List.take_append_of_le_length hahead]
    · intro slot hs
      obtain ⟨hne, hpeek⟩ := h.at_first slot hs
      rw [ringbufPeek_some hne] at hpeek
      have hne' : ring.contents ≠ [] := by simp [hcont]
      rw [Mpu.queue_setQueue, ringbufPeek_some hne', htail]
      exact ⟨hne', hpeek⟩

theorem QueueInv.peek {q : QueueName} {acts : List QueueAct} {w : World σ} {m m₁ : Mpu}
    (h : QueueInv q acts ⟨w, .idle⟩ m) {slot : Fin maxPduCount} (hm : w.mpu = some m₁)
    (hne : ringbufEmpty (m₁.queue q) = false) (hpeek : ringbufPeek (m₁.queue q) = some slot) :
    QueueInv q (acts ++ [.peek]) ⟨w, .peeked slot⟩ m := by
  have hup : w.mpu = some m := h.up
  have he : m₁ = m := Option.some.inj (hm.symm.trans hup)
  subst he
  refine ⟨h.up, h.running, h.valid, by simpa using h.contents, by simpa using h.popped_le,
    by simpa [Consumer.ahead] using h.given_eq, ?_⟩
  intro slot' hs
  cases hs
  refine ⟨fun hc => ?_, hpeek⟩
  rw [(ringbufEmpty_iff _).mpr hc] at hne
  contradiction

theorem QueueInv.handle {q : QueueName} {acts : List QueueAct} {w w' : World σ} {m : Mpu}
    {slot : Fin maxPduCount} (h : QueueInv q acts ⟨w, .peeked slot⟩ m)
    (hkeep : LeavesQueue q w w') :
    ∃ m', QueueInv q (acts ++ [.handle ((m.queue q).buffer slot).message])
      ⟨w', .handled slot⟩ m' := by
  obtain ⟨m', hup, hq, hrunning⟩ := hkeep.some h.up
  have hfirst := h.first rfl
  refine ⟨m', hup, hrunning.trans h.running, hq ▸ h.valid, ?_, ?_, ?_, ?_⟩
  · simpa [hq] using h.contents
  · simpa using h.popped_le
  · rw [List.head?_drop] at hfirst
    simp only [given_handle, h.given_eq, accepted_handle, popped_handle, Consumer.ahead]
    rw [List.take_add_one, hfirst]
    rfl
  · intro slot' hs
    rw [hq]
    exact h.at_first slot' hs

theorem QueueInv.pop {q : QueueName} {acts : List QueueAct} {w w' : World σ} {m : Mpu}
    {slot : Fin maxPduCount} (h : QueueInv q acts ⟨w, .handled slot⟩ m)
    (hpop : (mpuPop q).run w = .ok () w') :
    ∃ m', QueueInv q (acts ++ [.pop]) ⟨w', .idle⟩ m' := by
  obtain ⟨hne, -⟩ := h.at_first slot rfl
  obtain ⟨x, xs, hx⟩ := List.exists_cons_of_ne_nil hne
  obtain ⟨-, hvalid, hcont⟩ := ringbufPop_cons h.valid hx
  have hup : w.mpu = some m := h.up
  have hahead := h.ahead_le
  cases hpop
  refine ⟨m.setQueue q (ringbufPop (m.queue q)).2, by simp [hup], by simpa using h.running,
    by simpa using hvalid, ?_, ?_, ?_, ?_⟩
  · have hc := h.contents
    rw [hx] at hc
    simp [hcont]
    rw [← List.tail_drop, ← hc]
    rfl
  · simpa [Consumer.ahead] using hahead
  · simpa [Consumer.ahead] using h.given_eq
  · simp [Consumer.slot]

theorem queue_run_inv {q : QueueName} {handler : Fin maxPduCount → Packet → Proc σ Int}
    (hkeep : ∀ slot pkt, Moves (LeavesQueue q) (handler slot pkt)) {w₀ : World σ} {m₀ : Mpu}
    {block : Fin maxPduCount → Packet} (hm : w₀.mpu = some m₀) (hrun : m₀.running = true)
    (hq : m₀.queue q = ringbufInit block) {acts : List QueueAct} {s : QueueState σ}
    (hr : Run (QueueStep q handler) ⟨w₀, .idle⟩ acts s) : ∃ m, QueueInv q acts s m := by
  apply hr.history (fun acts s => ∃ m, QueueInv q acts s m)
  · refine ⟨m₀, hm, hrun, hq ▸ ringbufInit_valid block (by decide) (by decide), ?_, ?_, ?_, ?_⟩
    · simp [hq, accepted]
    · simp [accepted, popped]
    · simp [given, accepted]
    · simp [Consumer.slot]
  · rintro acts act t u - ⟨m, h⟩ hstep
    cases hstep with
    | put h0 hlen hread hput => exact h.put h0 hlen hread hput
    | peek hup hne hpeek => exact ⟨m, h.peek hup hne hpeek⟩
    | handle hup hret =>
      have he := Option.some.inj (hup.symm.trans h.up)
      subst he
      exact h.handle ((hkeep _ _).of_ok hret)
    | pop hpop => exact h.pop hpop

/-- The queue is a bounded FIFO, whatever its 32-bit counters have come to. -/
theorem packet_queue_fifo {q : QueueName} {handler : Fin maxPduCount → Packet → Proc σ Int}
    (hkeep : ∀ slot pkt, Moves (LeavesQueue q) (handler slot pkt)) {w₀ : World σ} {m₀ : Mpu}
    {block : Fin maxPduCount → Packet} (hm : w₀.mpu = some m₀) (hrun : m₀.running = true)
    (hq : m₀.queue q = ringbufInit block) {acts : List QueueAct} {s : QueueState σ}
    (hr : Run (QueueStep q handler) ⟨w₀, .idle⟩ acts s) :
    given acts <+: accepted acts ∧
      ∃ m, s.world.mpu = some m ∧
        -- every packet accepted and not yet popped is as it was put
        (m.queue q).contents.map Packet.message = (accepted acts).drop (popped acts) ∧
        (∀ slot, s.consumer.slot = some slot →
          ((accepted acts).drop (popped acts)).head? =
            some ((m.queue q).buffer slot).message) ∧
        ∀ addr data msg (len : Int), 0 ≤ len → len ≤ maxMpuData →
          msg.off + len.toNat ≤ msg.obj.length →
          if (accepted acts).length - popped acts = maxPduCount then
            (mpuPut q addr data msg len).run s.world = .ok (-enomem) s.world
          else ∃ w', (mpuPut q addr data msg len).run s.world = .ok 0 w' := by
  obtain ⟨m, h⟩ := queue_run_inv hkeep hm hrun hq hr
  refine ⟨h.given_eq ▸ List.take_prefix _ _, m, h.up, h.contents, fun slot hs => h.first hs, ?_⟩
  intro addr data msg len h0 hlen hread
  rw [← h.size]
  split
  · rename_i hfull
    exact mpuPut_full addr data h.up h.running h.valid hfull
  · rename_i hne
    have hroom : (m.queue q).size < maxPduCount := by
      have := h.valid.size_le
      omega
    have hdata : (maxMpuData : Int) = 2000 := rfl
    obtain ⟨ring, -, hput, -⟩ :=
      mpuPut_room addr data h.up h.running h.valid hroom hread (by omega)
    exact ⟨_, hput⟩

/-- The step as a machine makes it, with a message that lies in the application's memory. -/
def QueueAct.next (q : QueueName) (handler : Fin maxPduCount → Packet → Proc σ Int)
    (s : QueueState σ) : QueueAct → Option (QueueState σ)
  | .put m ret =>
    match (mpuPut q m.addr m.data ⟨.application, m.bytes, 0⟩ m.length.toNat).run s.world with
    | .ok r w =>
      if m.bytes.length = m.length.toNat ∧ m.bytes.length ≤ maxMpuData ∧ r = ret then
        some ⟨w, s.consumer⟩
      else none
    | .error _ _ => none
  | .peek =>
    match s.consumer, s.world.mpu with
    | .idle, some m =>
      if ringbufEmpty (m.queue q) then none
      else (ringbufPeek (m.queue q)).map fun slot => ⟨s.world, .peeked slot⟩
    | _, _ => none
  | .handle msg =>
    match s.consumer, s.world.mpu with
    | .peeked slot, some m =>
      match (handler slot ((m.queue q).buffer slot)).run s.world with
      | .ok r w =>
        if r = 0 ∧ ((m.queue q).buffer slot).message = msg then some ⟨w, .handled slot⟩ else none
      | .error _ _ => none
    | _, _ => none
  | .pop =>
    match s.consumer, (mpuPop q).run s.world with
    | .handled _, .ok () w => some ⟨w, .idle⟩
    | _, _ => none

theorem QueueAct.step_of_next {q : QueueName} {handler : Fin maxPduCount → Packet → Proc σ Int}
    {s t : QueueState σ} {act : QueueAct} (h : act.next q handler s = some t) :
    QueueStep q handler s act t := by
  obtain ⟨w, c⟩ := s
  cases act with
  | put m ret =>
    simp only [QueueAct.next] at h
    split at h
    · rename_i r w' hput
      split at h
      · rename_i hm
        obtain ⟨hlen, hmax, rfl⟩ := hm
        cases h
        have hbound : (maxMpuData : Int) = 2000 := rfl
        have hl : UInt16.ofInt (m.length.toNat : Int) = m.length := by
          rw [← UInt16.toNat_inj, uint16_ofInt_toNat (by omega) (by omega), Int.toNat_natCast]
        have htake : (⟨.application, m.bytes, 0⟩ : Ptr).bytes.take (m.length.toNat : Int).toNat =
            m.bytes := by simp [Ptr.bytes, ← hlen]
        have hstep : QueueStep q handler ⟨w, c⟩ _ ⟨w', c⟩ := .put (Int.natCast_nonneg _) (by omega)
          (show 0 + (m.length.toNat : Int).toNat ≤ m.bytes.length by omega) hput
        rwa [hl, htake] at hstep
      · cases h
    · cases h
  | peek =>
    simp only [QueueAct.next] at h
    split at h
    · rename_i m hm
      split at h
      · cases h
      · rename_i hne
        obtain ⟨slot, hpeek, rfl⟩ := Option.map_eq_some_iff.mp h
        exact .peek hm (by simpa using hne) hpeek
    · cases h
  | handle msg =>
    simp only [QueueAct.next] at h
    split at h
    · rename_i hm
      split at h
      · rename_i hrun
        split at h
        · rename_i hr
          obtain ⟨rfl, rfl⟩ := hr
          cases h
          exact .handle hm hrun
        · cases h
      · cases h
    · cases h
  | pop =>
    simp only [QueueAct.next] at h
    split at h
    · rename_i hrun
      cases h
      exact .pop hrun
    · cases h

/-- A node that is up, over a link that takes every frame. -/
def idleNode : World Unit :=
  { World.init () with
    dl := some ⟨fun _ _ _ => pure 0⟩
    mpu := some (mpuCreate (fun _ => .zero) (fun _ => .zero)) }

def oneByte (b : UInt8) : Message := ⟨1, [b], .zero, 1⟩

def fourPuts : List QueueAct :=
  [.put (oneByte 7) 0, .put (oneByte 8) 0, .peek, .put (oneByte 9) 0, .handle (oneByte 7), .pop,
    .peek, .handle (oneByte 8), .put (oneByte 10) 0, .pop]

theorem packet_queue_fifo_four :
    ∃ s : QueueState Unit, Run (QueueStep .send _umtpSendMsg) ⟨idleNode, .idle⟩ fourPuts s ∧
      given fourPuts = [oneByte 7, oneByte 8] ∧ given fourPuts <+: accepted fourPuts ∧
      ∃ m, s.world.mpu = some m ∧
        (m.queue .send).contents.map Packet.message = [oneByte 9, oneByte 10] := by
  have h : (fourPuts.foldlM (QueueAct.next .send _umtpSendMsg)
      (⟨idleNode, .idle⟩ : QueueState Unit)).isSome = true := by decide +kernel
  obtain ⟨s, hs⟩ := Option.isSome_iff_exists.mp h
  have hr := (run_of_foldlM hs).mono fun _ _ _ h => QueueAct.step_of_next h
  obtain ⟨hgiven, m, hm, hcont, -⟩ := packet_queue_fifo _umtpSendMsg_leavesQueue rfl rfl rfl hr
  exact ⟨s, hr, by decide, hgiven, m, hm, hcont⟩

end Umtp
