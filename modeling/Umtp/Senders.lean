import Umtp.PacketQueue

/-! `mpu_put_send` called by several threads at once, with the mutex commented out: between
the peek, the fill and the put of one call come those of others. -/

set_option autoImplicit false

namespace Umtp
open CheckedBuffer StateExcept FiniteRun

variable {σ : Type}

/-- The arguments of a call of `mpu_put_send` with a message that fits into a packet. -/
structure SendCall where
  dst : UmtpAddr
  data : Ref
  msg : List UInt8
  fits : msg.length ≤ maxMpuData

def SendCall.message (c : SendCall) : Message := ⟨UInt16.ofNat c.msg.length, c.msg, c.dst, c.data⟩

def SendCall.packet (c : SendCall) (buffer : Buf UInt8 maxMpuData) : Packet :=
  ⟨UInt16.ofNat c.msg.length, buffer, c.dst, c.data⟩

inductive SendStage where
  | idle
  | peeked (slot : Fin maxPduCount)
  | filled (slot : Fin maxPduCount)
  | returned (ret : Int)
  deriving DecidableEq

/-- The send queue of a running mpu and the calls, which are numbered. The last three fields
only observe: the call that filled each packet last, the calls that have returned 0, and
what the send handler has been given, oldest first. -/
structure Senders where
  ring : RingBuffer Packet maxPduCount
  stage : Nat → SendStage
  writer : Fin maxPduCount → Option Nat
  accepted : List Nat
  sent : List Message

def Senders.start (ring : RingBuffer Packet maxPduCount) : Senders :=
  ⟨ring, fun _ => .idle, fun _ => none, [], []⟩

def Senders.setStage (s : Senders) (i : Nat) (stage : SendStage) : Senders :=
  { s with stage := Function.update s.stage i stage }

def Senders.fill (s : Senders) (i : Nat) (slot : Fin maxPduCount) (pkt : Packet) : Senders :=
  { s.setStage i (.filled slot) with
    ring := s.ring.fill slot pkt
    writer := Function.update s.writer slot (some i) }

/-- `ringbuf_data_put` has found the packet to be the next one. -/
def Senders.put (s : Senders) (i : Nat) (slot : Fin maxPduCount) : Senders :=
  { s.setStage i (.returned 0) with
    ring := (ringbufDataPut s.ring slot).2
    accepted := s.accepted ++ [i] }

def Senders.send (s : Senders) (slot : Fin maxPduCount) : Senders :=
  { s with
    ring := (ringbufPop s.ring).2
    sent := s.sent ++ [(s.ring.buffer slot).message] }

inductive SendAct where
  | peek (i : Nat)
  | fill (i : Nat)
  | put (i : Nat)
  | send
  deriving DecidableEq

inductive SendStep (call : Nat → SendCall) : Senders → SendAct → Senders → Prop where
  | full {s : Senders} {i : Nat} : s.stage i = .idle → ringbufDataPeek s.ring = none →
      SendStep call s (.peek i) (s.setStage i (.returned (-enomem)))
  | peek {s : Senders} {i : Nat} {slot : Fin maxPduCount} :
      s.stage i = .idle → ringbufDataPeek s.ring = some slot →
      SendStep call s (.peek i) (s.setStage i (.peeked slot))
  | fill {s : Senders} {i : Nat} {slot : Fin maxPduCount} {buffer : Buf UInt8 maxMpuData} :
      s.stage i = .peeked slot →
      (s.ring.buffer slot).buffer.write 0 (call i).msg = some buffer →
      SendStep call s (.fill i) (s.fill i slot ((call i).packet buffer))
  | put {s : Senders} {i : Nat} {slot : Fin maxPduCount} :
      s.stage i = .filled slot → (ringbufDataPut s.ring slot).1 = true →
      SendStep call s (.put i) (s.put i slot)
  | refused {s : Senders} {i : Nat} {slot : Fin maxPduCount} :
      s.stage i = .filled slot → (ringbufDataPut s.ring slot).1 = false →
      SendStep call s (.put i) (s.setStage i (.returned (-enomem)))
  | send {s : Senders} {slot : Fin maxPduCount} : ringbufPeek s.ring = some slot →
      SendStep call s .send (s.send slot)

/-- What the handler has been given and will be given are the packets of the calls that have
returned 0, as these were called: each of them once, and nothing of any other call. -/
structure Senders.Delivered (call : Nat → SendCall) (s : Senders) : Prop where
  packets : s.sent ++ s.ring.contents.map Packet.message =
    s.accepted.map fun i => (call i).message
  nodup : s.accepted.Nodup
  accepted_iff : ∀ i, i ∈ s.accepted ↔ s.stage i = .returned 0

/-- No call fills a packet that is in the queue, or one that another call has filled since
when it publishes it. -/
def Senders.Ordered (s : Senders) : SendAct → Prop
  | .fill i => ∀ slot, s.stage i = .peeked slot → ¬ s.ring.Holds slot
  | .put i => ∀ slot, s.stage i = .filled slot → (ringbufDataPut s.ring slot).1 = true →
      s.writer slot = some i
  | _ => True

def OrderedStep (call : Nat → SendCall) (s : Senders) (act : SendAct) (t : Senders) : Prop :=
  s.Ordered act ∧ SendStep call s act t

structure Senders.Inv (call : Nat → SendCall) (s : Senders) : Prop where
  valid : s.ring.Valid
  filled : ∀ i slot, s.stage i = .filled slot → ∃ j, s.writer slot = some j
  written : ∀ slot i, s.writer slot = some i →
    (s.ring.buffer slot).message = (call i).message
  delivered : s.Delivered call

variable {call : Nat → SendCall} {s t : Senders} {i : Nat} {slot : Fin maxPduCount}

theorem SendCall.message_fill {c : SendCall} {buffer buffer' : Buf UInt8 maxMpuData}
    (h : buffer.write 0 c.msg = some buffer') :
    (c.packet buffer').message = c.message := by
  have hmax : maxMpuData = 2000 := rfl
  have hlen : (UInt16.ofNat c.msg.length).toNat = c.msg.length := by
    have := c.fits
    rw [UInt16.toNat_ofNat', Nat.mod_eq_of_lt (by omega)]
  have hread := Buf.read_write h
  rw [List.drop_zero] at hread
  simp only [Packet.message, packet, message, hlen]
  rw [hread]

section

variable (s : Senders) (i : Nat) (slot : Fin maxPduCount) (pkt : Packet)

@[simp] theorem Senders.setStage_stage (stage : SendStage) :
    (s.setStage i stage).stage = Function.update s.stage i stage := rfl

@[simp] theorem Senders.setStage_ring (stage : SendStage) : (s.setStage i stage).ring = s.ring :=
  rfl

@[simp] theorem Senders.fill_stage :
    (s.fill i slot pkt).stage = Function.update s.stage i (.filled slot) := rfl

@[simp] theorem Senders.fill_ring : (s.fill i slot pkt).ring = s.ring.fill slot pkt := rfl

@[simp] theorem Senders.fill_writer :
    (s.fill i slot pkt).writer = Function.update s.writer slot (some i) := rfl

@[simp] theorem Senders.fill_sent : (s.fill i slot pkt).sent = s.sent := rfl

@[simp] theorem Senders.fill_accepted : (s.fill i slot pkt).accepted = s.accepted := rfl

@[simp] theorem Senders.put_stage :
    (s.put i slot).stage = Function.update s.stage i (.returned 0) := rfl

@[simp] theorem Senders.put_ring : (s.put i slot).ring = (ringbufDataPut s.ring slot).2 := rfl

@[simp] theorem Senders.put_writer : (s.put i slot).writer = s.writer := rfl

@[simp] theorem Senders.put_sent : (s.put i slot).sent = s.sent := rfl

@[simp] theorem Senders.put_accepted : (s.put i slot).accepted = s.accepted ++ [i] := rfl

@[simp] theorem Senders.send_ring : (s.send slot).ring = (ringbufPop s.ring).2 := rfl

@[simp] theorem Senders.send_writer : (s.send slot).writer = s.writer := rfl

@[simp] theorem Senders.send_sent :
    (s.send slot).sent = s.sent ++ [(s.ring.buffer slot).message] := rfl

@[simp] theorem Senders.send_accepted : (s.send slot).accepted = s.accepted := rfl

end

theorem Senders.Delivered.stays_accepted {s : Senders} (h : s.Delivered call)
    (hi : s.stage i ≠ .returned 0) {stage : SendStage} (hstage : stage ≠ .returned 0) (j : Nat) :
    j ∈ s.accepted ↔ Function.update s.stage i stage j = .returned 0 := by
  by_cases hj : j = i
  · subst hj
    rw [Function.update_self, h.accepted_iff]
    exact ⟨fun hr => absurd hr hi, fun hr => absurd hr hstage⟩
  · rw [Function.update_of_ne hj, h.accepted_iff]

theorem Senders.start_inv (block : Fin maxPduCount → Packet) :
    (start (ringbufInit block)).Inv call := by
  refine ⟨ringbufInit_valid block (by decide) (by decide), ?_, ?_, ?_, ?_, ?_⟩
  · simp [start]
  · simp [start]
  · simp [start]
  · simp [start]
  · simp [start]

theorem Senders.Inv.setStage (h : s.Inv call) (hi : s.stage i ≠ .returned 0) {stage : SendStage}
    (hstage : stage ≠ .returned 0) (hfilled : ∀ slot, stage ≠ .filled slot) :
    (s.setStage i stage).Inv call := by
  refine ⟨h.valid, ?_, h.written, h.delivered.packets, h.delivered.nodup,
    h.delivered.stays_accepted hi hstage⟩
  intro j slot hj
  by_cases hji : j = i
  · subst hji
    rw [setStage_stage, Function.update_self] at hj
    exact absurd hj (hfilled slot)
  · rw [setStage_stage, Function.update_of_ne hji] at hj
    exact h.filled j slot hj

theorem Senders.Inv.fill (h : s.Inv call) (hpeeked : s.stage i = .peeked slot)
    (hfree : ¬ s.ring.Holds slot) {pkt : Packet} (hpkt : pkt.message = (call i).message) :
    (s.fill i slot pkt).Inv call := by
  refine ⟨h.valid.fill slot pkt, ?_, ?_, ?_, h.delivered.nodup, ?_⟩
  · intro j slot' hj
    by_cases hslot : slot' = slot
    · subst hslot
      exact ⟨i, Function.update_self _ _ _⟩
    · rw [fill_writer, Function.update_of_ne hslot]
      apply h.filled j slot'
      by_cases hji : j = i
      · subst hji
        simp only [fill_stage, Function.update_self, SendStage.filled.injEq] at hj
        exact absurd hj.symm hslot
      · simpa [hji] using hj
  · intro slot' j hj
    by_cases hslot : slot' = slot
    · subst hslot
      simp only [fill_writer, Function.update_self, Option.some.injEq] at hj
      subst hj
      simpa using hpkt
    · rw [fill_writer, Function.update_of_ne hslot] at hj
      simpa [hslot] using h.written slot' j hj
  · rw [fill_ring, RingBuffer.fill_contents_of_not_holds hfree]
    exact h.delivered.packets
  · exact h.delivered.stays_accepted (by simp [hpeeked]) (by simp)

theorem Senders.Inv.put (h : s.Inv call) (hfilled : s.stage i = .filled slot)
    (hput : (ringbufDataPut s.ring slot).1 = true)
    (hmsg : (s.ring.buffer slot).message = (call i).message) :
    (s.put i slot).Inv call := by
  obtain ⟨-, hvalid, hcont⟩ := ringbufDataPut_true h.valid hput
  have hnew : i ∉ s.accepted := by
    rw [h.delivered.accepted_iff, hfilled]
    simp
  refine ⟨hvalid, ?_, ?_, ?_, ?_, ?_⟩
  · intro j slot' hj
    by_cases hji : j = i
    · subst hji
      simp at hj
    · rw [put_stage, Function.update_of_ne hji] at hj
      exact h.filled j slot' hj
  · intro slot' j hj
    rw [put_ring, ringbufDataPut_buffer]
    exact h.written slot' j hj
  · simp only [put_ring, hcont, List.map_append, List.map_cons, List.map_nil, ← List.append_assoc,
      hmsg, put_sent, put_accepted, h.delivered.packets]
  · simp only [put_accepted, List.nodup_append, h.delivered.nodup, List.nodup_singleton, true_and]
    intro j hj k hk hjk
    rw [List.mem_singleton.mp hk] at hjk
    exact hnew (hjk ▸ hj)
  · intro j
    by_cases hji : j = i
    · subst hji
      simp
    · simp [hji, h.delivered.accepted_iff]

theorem Senders.Inv.send (h : s.Inv call) (hpeek : ringbufPeek s.ring = some slot) :
    (s.send slot).Inv call := by
  cases hc : s.ring.contents with
  | nil => simp [ringbufPeek_nil hc] at hpeek
  | cons pkt pkts =>
    obtain ⟨slot', hpeek', hpkt⟩ := ringbufPeek_cons hc
    obtain rfl := Option.some.inj (hpeek.symm.trans hpeek')
    obtain ⟨-, hvalid, hcont⟩ := ringbufPop_cons h.valid hc
    have hpackets := h.delivered.packets
    rw [hc] at hpackets
    refine ⟨hvalid, h.filled, ?_, ?_, h.delivered.nodup, h.delivered.accepted_iff⟩
    · intro slot' j hj
      rw [send_ring, ringbufPop_buffer]
      exact h.written slot' j hj
    · simp only [send_ring, hcont, send_sent, hpkt, List.append_assoc]
      exact hpackets

theorem Senders.Inv.step (h : s.Inv call) {act : SendAct} (hord : s.Ordered act)
    (hstep : SendStep call s act t) : t.Inv call := by
  cases hstep with
  | full hidle _ => exact h.setStage (by simp [hidle]) (by decide) (by simp)
  | peek hidle _ => exact h.setStage (by simp [hidle]) (by simp) (by simp)
  | fill hpeeked hwrite => exact h.fill hpeeked (hord _ hpeeked) (SendCall.message_fill hwrite)
  | put hfilled hput =>
    exact h.put hfilled hput (h.written _ _ (hord _ hfilled hput))
  | refused hfilled hput =>
    exact h.setStage (by simp [hfilled]) (by decide) (by simp)
  | send hpeek => exact h.send hpeek

/-- Where no two calls are alike, any other step loses a packet or sends the wrong one. -/
theorem Senders.Inv.ordered (h : s.Inv call)
    (hcalls : Function.Injective fun i => (call i).message) {act : SendAct}
    (hstep : SendStep call s act t) (hdel : t.Delivered call) : s.Ordered act := by
  cases hstep with
  | full _ _ => trivial
  | peek _ _ => trivial
  | refused hfilled hput =>
    intro slot' hslot htrue
    obtain rfl := SendStage.filled.inj (hfilled.symm.trans hslot)
    rw [hput] at htrue
    contradiction
  | send _ => trivial
  | @fill i slot buffer hpeeked hwrite =>
    intro slot' hslot hholds
    obtain rfl := SendStage.peeked.inj (hpeeked.symm.trans hslot)
    -- the packet that was there is the call's own, so the call has returned already
    obtain ⟨k, hold, hnew⟩ := hholds.get
    have hsame := List.append_cancel_left (h.delivered.packets.trans hdel.packets.symm)
    have hget := congrArg (fun l => l[k]?) hsame
    simp only [fill_ring, List.getElem?_map, hold, hnew, Option.map_some, Option.some.injEq,
      SendCall.message_fill hwrite] at hget
    have hmem : (call i).message ∈ s.accepted.map fun j => (call j).message := by
      rw [← h.delivered.packets, ← hget]
      exact List.mem_append_right _ (List.mem_map_of_mem (List.mem_of_getElem? hold))
    obtain ⟨j, hj, heq⟩ := List.mem_map.mp hmem
    obtain rfl := hcalls heq
    rw [h.delivered.accepted_iff, hpeeked] at hj
    contradiction
  | @put i slot hfilled hput =>
    intro slot' hslot _
    obtain rfl := SendStage.filled.inj (hfilled.symm.trans hslot)
    obtain ⟨j, hj⟩ := h.filled i slot hfilled
    obtain ⟨-, -, hcont⟩ := ringbufDataPut_true h.valid hput
    have hpackets := hdel.packets
    simp only [put_ring, hcont, List.map_append, List.map_cons, List.map_nil, put_sent,
      put_accepted, ← List.append_assoc, h.delivered.packets] at hpackets
    have hmsg := List.cons.inj (List.append_cancel_left hpackets)
    have heq := (h.written slot j hj).symm.trans hmsg.1
    rw [hj, hcalls heq]

section

variable {w w₁ : World σ} {m : Mpu}

/-- A call that nobody disturbs is its three steps, one after the other. -/
theorem mpuPutSend_steps (hm : w.mpu = some m) (hr : m.running = true)
    (hs : s.ring = m.queue .send) (hv : s.ring.Valid) (hi : s.stage i = .idle) {msg : Ptr}
    (hmsg : msg.bytes.take (call i).msg.length = (call i).msg)
    (hread : msg.off + (call i).msg.length ≤ msg.obj.length) :
    ∃ acts t ret, Run (SendStep call) s acts t ∧ t.stage i = .returned ret ∧
      (mpuPutSend (call i).dst (call i).data msg (call i).msg.length).run w =
        .ok ret { w with mpu := some (m.setQueue .send t.ring) } := by
  cases hpeek : ringbufDataPeek s.ring with
  | none =>
    refine ⟨_, _, _, Run.nil.snoc (.full hi hpeek), Function.update_self _ _ _, ?_⟩
    have hfull := (ringbufDataPeek_none hv).mp hpeek
    rw [hs] at hv hfull
    have hsame : m.setQueue .send s.ring = m := by rw [hs]; rfl
    rw [mpuPutSend, mpuPut_full _ _ hm hr hv hfull, Senders.setStage_ring, hsame, ← hm]
  | some slot =>
    obtain ⟨buffer, hwrite⟩ : ∃ buffer, (s.ring.buffer slot).buffer.write 0 (call i).msg =
        some buffer := Buf.exists_write (by have := (call i).fits; omega)
    obtain ⟨hput, -, -⟩ := ringbufDataPut_fill hv hpeek ((call i).packet buffer)
    have hpeeked := Run.nil.snoc (show SendStep call s (.peek i) _ from .peek hi hpeek)
    have hfilled := hpeeked.snoc (.fill (i := i) (Function.update_self _ _ _) hwrite)
    refine ⟨_, _, _, hfilled.snoc (.put (i := i) (Function.update_self _ _ _) hput),
      Function.update_self _ _ _, ?_⟩
    rw [hs] at hpeek hwrite hput
    have hcopy : (memcpy (QueueName.send.store slot) ((m.queue .send).buffer slot).buffer 0 msg
        (call i).msg.length).run w = .ok buffer w := memcpy_run hread (hmsg.symm ▸ hwrite) w
    have hlen : UInt16.ofInt (call i).msg.length = UInt16.ofNat (call i).msg.length := by
      have hfits := (call i).fits
      have hmax : maxMpuData = 2000 := rfl
      rw [← UInt16.toNat_inj, uint16_ofInt_toNat (by omega) (by omega), UInt16.toNat_ofNat',
        Nat.mod_eq_of_lt (by omega)]
      rfl
    unfold SendCall.packet at hput
    simp [mpuPutSend, mpuPut, hm, hr, hpeek, hcopy, hlen, hput, World.setQueue, hs,
      SendCall.packet]

theorem mpuMsgHandle_send_step {handler : Fin maxPduCount → Packet → Proc σ Int}
    {slot : Fin maxPduCount} (hm : w.mpu = some m) (hs : s.ring = m.queue .send)
    (hpeek : ringbufPeek s.ring = some slot)
    (hret : (handler slot (s.ring.buffer slot)).run w = .ok 0 w₁)
    (hkeep : LeavesQueue .send w w₁) :
    SendStep call s .send (s.send slot) ∧
      ∃ w' m', (mpuMsgHandle .send handler).run w = .ok () w' ∧ w'.mpu = some m' ∧
        m'.queue .send = (s.send slot).ring := by
  refine ⟨.send hpeek, ?_⟩
  obtain ⟨m₁, hm₁, hq, -⟩ := hkeep.some hm
  have hne : ringbufEmpty (m.queue .send) = false := by
    rw [← hs, Bool.eq_false_iff, Ne, ringbufEmpty_iff]
    intro hnil
    rw [ringbufPeek_nil hnil] at hpeek
    contradiction
  rw [hs] at hpeek hret
  refine ⟨{ w₁ with mpu := some (m₁.setQueue .send (ringbufPop (m₁.queue .send)).2) },
    m₁.setQueue .send (ringbufPop (m₁.queue .send)).2, ?_, rfl, by simp [hq, hs]⟩
  simp [mpuMsgHandle, umtpMpu, hm, hne, hpeek, hret, mpuPop, hm₁]

end

theorem Senders.run_inv {block : Fin maxPduCount → Packet} {acts : List SendAct}
    (hr : Run (OrderedStep call) (.start (ringbufInit block)) acts s) : s.Inv call := by
  apply hr.invariant (Senders.Inv call)
  · rintro s act t h ⟨hord, hstep⟩
    exact h.step hord hstep
  · exact start_inv block

/-- The calls do not corrupt each other as long as their steps are ordered, and no longer. -/
theorem senders_delivered {block : Fin maxPduCount → Packet} {acts : List SendAct}
    (hr : Run (OrderedStep call) (.start (ringbufInit block)) acts s) :
    s.Delivered call ∧
      ((Function.Injective fun i => (call i).message) → ∀ act t, SendStep call s act t →
        (s.Ordered act ↔ t.Delivered call)) := by
  have h := Senders.run_inv hr
  refine ⟨h.delivered, ?_⟩
  intro hcalls act t hstep
  constructor
  · intro hord
    exact (h.step hord hstep).delivered
  · exact h.ordered hcalls hstep

/-! With the mutex held from the peek to the put, every step would be ordered. -/

def SendStage.Inside : SendStage → Prop
  | .peeked _ | .filled _ => True
  | _ => False

def Senders.Locked (s : Senders) : SendAct → Prop
  | .peek _ => ∀ j, ¬ (s.stage j).Inside
  | _ => True

structure Senders.Alone (s : Senders) : Prop where
  one : ∀ i j, (s.stage i).Inside → (s.stage j).Inside → i = j
  peeked : ∀ i slot, s.stage i = .peeked slot → ringbufDataPeek s.ring = some slot
  filled : ∀ i slot, s.stage i = .filled slot →
    ringbufDataPeek s.ring = some slot ∧ s.writer slot = some i

theorem Senders.Alone.ordered (h : s.Alone) (hv : s.ring.Valid) (act : SendAct) :
    s.Ordered act := by
  cases act with
  | peek i => trivial
  | fill i =>
    intro slot hslot
    exact ringbufDataPeek_not_holds hv (h.peeked i slot hslot)
  | put i =>
    intro slot hslot _
    exact (h.filled i slot hslot).2
  | send => trivial

theorem Senders.alone_of_others {stage : SendStage}
    (hothers : ∀ j, j ≠ i → ¬ (s.stage j).Inside)
    (hstage : t.stage = Function.update s.stage i stage)
    (hpeeked : ∀ slot, stage = .peeked slot → ringbufDataPeek t.ring = some slot)
    (hfilled : ∀ slot, stage = .filled slot →
      ringbufDataPeek t.ring = some slot ∧ t.writer slot = some i) : t.Alone := by
  have hself : t.stage i = stage := by rw [hstage, Function.update_self]
  have honly : ∀ j, (t.stage j).Inside → j = i := by
    intro j hj
    by_contra hji
    rw [hstage, Function.update_of_ne hji] at hj
    exact hothers j hji hj
  refine ⟨fun j k hj hk => (honly j hj).trans (honly k hk).symm, ?_, ?_⟩
  · intro j slot hj
    obtain rfl := honly j (by rw [hj]; trivial)
    exact hpeeked slot (hself.symm.trans hj)
  · intro j slot hj
    obtain rfl := honly j (by rw [hj]; trivial)
    exact hfilled slot (hself.symm.trans hj)

theorem Senders.Alone.step (h : s.Alone) (hv : s.ring.Valid) {act : SendAct}
    (hlock : s.Locked act) (hstep : SendStep call s act t) : t.Alone := by
  have hothers : ∀ {i : Nat}, (s.stage i).Inside → ∀ j, j ≠ i → ¬ (s.stage j).Inside :=
    fun hi j hji hj => hji (h.one j _ hj hi)
  cases hstep with
  | full _ _ => exact alone_of_others (fun j _ => hlock j) rfl (by simp) (by simp)
  | peek _ hpeek =>
    refine alone_of_others (fun j _ => hlock j) rfl ?_ (by simp)
    intro slot hslot
    rw [← SendStage.peeked.inj hslot]
    exact hpeek
  | @fill i slot buffer hpeeked hwrite =>
    refine alone_of_others (hothers (by rw [hpeeked]; trivial)) rfl (by simp) ?_
    intro slot' hslot
    obtain rfl := SendStage.filled.inj hslot
    exact ⟨h.peeked i slot hpeeked, Function.update_self _ _ _⟩
  | put hfilled _ =>
    exact alone_of_others (hothers (by rw [hfilled]; trivial)) rfl (by simp) (by simp)
  | refused hfilled _ =>
    exact alone_of_others (hothers (by rw [hfilled]; trivial)) rfl (by simp) (by simp)
  | send hpeek =>
    refine ⟨h.one, ?_, ?_⟩
    · intro j slot hj
      exact ringbufPop_dataPeek hv (h.peeked j slot hj)
    · intro j slot hj
      obtain ⟨hnext, hown⟩ := h.filled j slot hj
      exact ⟨ringbufPop_dataPeek hv hnext, hown⟩

theorem locked_senders_delivered {block : Fin maxPduCount → Packet} {acts : List SendAct}
    (hr : Run (fun s act t => s.Locked act ∧ SendStep call s act t)
      (.start (ringbufInit block)) acts s) : s.Delivered call := by
  have hinv : s.Inv call ∧ s.Alone := by
    apply hr.invariant (fun s => s.Inv call ∧ s.Alone)
    · rintro s act t ⟨h, halone⟩ ⟨hlock, hstep⟩
      exact ⟨h.step (halone.ordered h.valid act) hstep, halone.step h.valid hlock hstep⟩
    · refine ⟨Senders.start_inv block, ?_, ?_, ?_⟩
      · exact fun i j hi _ => hi.elim
      · simp [Senders.start]
      · simp [Senders.start]
  exact hinv.1.delivered

def SendAct.next (call : Nat → SendCall) (s : Senders) : SendAct → Option Senders
  | .peek i =>
    if s.stage i = .idle then
      match ringbufDataPeek s.ring with
      | none => some (s.setStage i (.returned (-enomem)))
      | some slot => some (s.setStage i (.peeked slot))
    else none
  | .fill i =>
    match s.stage i with
    | .peeked slot => ((s.ring.buffer slot).buffer.write 0 (call i).msg).map fun buffer =>
        s.fill i slot ((call i).packet buffer)
    | _ => none
  | .put i =>
    match s.stage i with
    | .filled slot =>
      if (ringbufDataPut s.ring slot).1 then some (s.put i slot)
      else some (s.setStage i (.returned (-enomem)))
    | _ => none
  | .send => (ringbufPeek s.ring).map s.send

theorem SendAct.step_of_next {act : SendAct} (h : act.next call s = some t) :
    SendStep call s act t := by
  cases act with
  | peek i =>
    simp only [SendAct.next] at h
    split at h
    · rename_i hidle
      split at h
      · rename_i hfull
        cases h
        exact .full hidle hfull
      · rename_i hpeek
        cases h
        exact .peek hidle hpeek
    · cases h
  | fill i =>
    simp only [SendAct.next] at h
    split at h
    · rename_i hpeeked
      obtain ⟨buffer, hwrite, rfl⟩ := Option.map_eq_some_iff.mp h
      exact .fill hpeeked hwrite
    · cases h
  | put i =>
    simp only [SendAct.next] at h
    split at h
    · rename_i hfilled
      split at h
      · rename_i hput
        cases h
        exact .put hfilled hput
      · rename_i hput
        cases h
        exact .refused hfilled (by simpa using hput)
    · cases h
  | send =>
    obtain ⟨slot, hpeek, rfl⟩ := Option.map_eq_some_iff.mp h
    exact .send hpeek

instance (s : Senders) : ∀ act, Decidable (s.Ordered act)
  | .peek _ => .isTrue trivial
  | .fill i => inferInstanceAs (Decidable (∀ slot, s.stage i = .peeked slot → ¬ s.ring.Holds slot))
  | .put i => inferInstanceAs (Decidable (∀ slot, s.stage i = .filled slot →
      (ringbufDataPut s.ring slot).1 = true → s.writer slot = some i))
  | .send => .isTrue trivial

def byteSenders (i : Nat) : SendCall := ⟨.zero, i + 1, [UInt8.ofNat i], by simp⟩

def emptySenders : Senders := .start (ringbufInit fun _ => .zero)

theorem emptySenders_peek :
    SendStep byteSenders emptySenders (.peek 0) (emptySenders.setStage 0 (.peeked 0)) :=
  .peek rfl rfl

theorem emptySenders_dataPeek : ringbufDataPeek emptySenders.ring = some 0 := rfl

theorem emptySenders_contents : emptySenders.ring.contents = [] := ringbufInit_contents _

theorem emptySenders_valid : emptySenders.ring.Valid :=
  ringbufInit_valid _ (by decide) (by decide)

theorem byteSenders_write (buffer : Buf UInt8 maxMpuData) (i : Nat) :
    ∃ buffer', buffer.write 0 (byteSenders i).msg = some buffer' :=
  Buf.exists_write (by simp [byteSenders])

/-- The second and the third call peek the same packet, and only the second fills it. -/
def threeSenders : List SendAct :=
  [.peek 0, .fill 0, .put 0, .peek 1, .peek 2, .fill 1, .send, .put 1]

theorem senders_delivered_three : ∃ s : Senders,
    Run (OrderedStep byteSenders) emptySenders threeSenders s ∧
      s.sent ++ s.ring.contents.map Packet.message =
        [(byteSenders 0).message, (byteSenders 1).message] ∧
      ∃ t, SendStep byteSenders s (.fill 2) t ∧ ¬ t.Delivered byteSenders := by
  have hrun : (threeSenders.foldlM
      (fun (s : Senders) (act : SendAct) => if s.Ordered act then act.next byteSenders s else none)
      emptySenders).any (fun s => decide (s.accepted = [0, 1]) && !decide (s.Ordered (.fill 2)) &&
        ((SendAct.fill 2).next byteSenders s).isSome) = true := by decide +kernel
  simp only [Option.any_eq_true, Bool.and_eq_true, decide_eq_true_eq, Bool.not_eq_true',
    decide_eq_false_iff_not] at hrun
  obtain ⟨s, hs, ⟨haccepted, hfill⟩, hnext⟩ := hrun
  have hr : Run (OrderedStep byteSenders) emptySenders threeSenders s := by
    apply (run_of_foldlM hs).mono
    intro u act v h
    split at h
    · rename_i hord
      exact ⟨hord, SendAct.step_of_next h⟩
    · cases h
  obtain ⟨t, ht⟩ := Option.isSome_iff_exists.mp hnext
  have hcalls : Function.Injective fun i => (byteSenders i).message :=
    fun i j h => Nat.succ.inj (congrArg Message.data h)
  obtain ⟨hdelivered, hexact⟩ := senders_delivered hr
  refine ⟨s, hr, ?_, t, SendAct.step_of_next ht, ?_⟩
  · rw [hdelivered.packets, haccepted]
    rfl
  · rwa [← hexact hcalls _ _ (SendAct.step_of_next ht)]

/-- Two calls peek the same packet. The first returns 0, and the bytes of the second are
sent, which returns an error. -/
theorem senders_overwritten :
    ¬ ∀ (acts : List SendAct) (s : Senders),
      Run (SendStep byteSenders) emptySenders acts s → s.Delivered byteSenders := by
  intro hclaim
  obtain ⟨b, hb⟩ := byteSenders_write Packet.zero.buffer 0
  obtain ⟨c, hc⟩ := byteSenders_write b 1
  let s := (emptySenders.setStage 0 (.peeked 0)).setStage 1 (.peeked 0)
  let t := (s.fill 0 0 ((byteSenders 0).packet b)).fill 1 0 ((byteSenders 1).packet c)
  let u := (t.put 0 0).setStage 1 (.returned (-enomem))
  obtain ⟨hput, hvalid, hcont⟩ := ringbufDataPut_fill (emptySenders_valid.fill 0 _)
    ((RingBuffer.fill_dataPeek _ 0 ((byteSenders 0).packet b)).trans emptySenders_dataPeek)
    ((byteSenders 1).packet c)
  rw [RingBuffer.fill_contents emptySenders_valid emptySenders_dataPeek, emptySenders_contents,
    List.nil_append] at hcont
  obtain ⟨slot, hslot, hpkt⟩ := ringbufPeek_cons hcont
  obtain ⟨-, -, hempty⟩ := ringbufPop_cons hvalid hcont
  have hpeek : SendStep byteSenders (emptySenders.setStage 0 (.peeked 0)) (.peek 1) s :=
    .peek rfl emptySenders_dataPeek
  have hfill₀ : SendStep byteSenders s (.fill 0) (s.fill 0 0 ((byteSenders 0).packet b)) :=
    .fill rfl hb
  have hfill₁ : SendStep byteSenders (s.fill 0 0 ((byteSenders 0).packet b)) (.fill 1) t :=
    .fill rfl hc
  have hrefused : SendStep byteSenders (t.put 0 0) (.put 1) u :=
    .refused rfl (ringbufDataPut_again ((emptySenders_valid.fill 0 _).fill 0 _) hput)
  have hsend : SendStep byteSenders u .send (u.send slot) := .send hslot
  have hfilled := (((Run.nil.snoc emptySenders_peek).snoc hpeek).snoc hfill₀).snoc hfill₁
  have hr := ((hfilled.snoc (.put rfl hput)).snoc hrefused).snoc hsend
  have hpackets := (hclaim _ _ hr).packets
  rw [show (u.send slot).ring.contents = [] from hempty] at hpackets
  have hsame : (u.ring.buffer slot).message = (byteSenders 0).message :=
    (List.cons.inj hpackets).1
  rw [show u.ring.buffer slot = (byteSenders 1).packet c from hpkt,
    SendCall.message_fill hc] at hsame
  exact absurd (congrArg Message.bytes hsame) (by decide)

end Umtp
