import Umtp.Kit.FiniteRun
import Umtp.RingBytes

/-! `ringbuf_put` and `ringbuf_pop` called by two processes, one that puts and one that pops,
with no lock: every read and store of one may come between any two of the other. -/

set_option autoImplicit false

namespace Umtp
open RingWindow FiniteRun

variable {n k : Nat}

inductive PutStage (k : Nat) where
  | idle
  | called (x : Element k)
  | counting (x : Element k) (head : UInt32)
  | room (x : Element k)
  | copying (x : Element k) (ringData i : Nat)

/-- How far a call of `ringbuf_pop` has got, with what is in the caller's element. -/
inductive PopStage (k : Nat) where
  | idle
  | called (out : Element k)
  | counting (out : Element k) (head : UInt32)
  | found (out : Element k)
  | copying (out : Element k) (ringData i : Nat)

inductive RingEvent (k : Nat) where
  | put (x : Element k) (status : Bool)
  | pop (x : Option (Element k))

/-- The ring and the two processes. The last three fields only observe: what the calls have
returned so far, and all calls in the order in which they have taken effect. -/
structure RingProcesses (n k : Nat) where
  ring : ByteRing n k
  producer : PutStage k
  consumer : PopStage k
  putReturned : List (Element k × Bool)
  popReturned : List (Option (Element k))
  log : List (RingEvent k)

def RingProcesses.start (n k : Nat) (buffer : Nat → UInt8) : RingProcesses n k :=
  ⟨⟨buffer, 0, 0⟩, .idle, .idle, [], [], []⟩

def RingProcesses.putReturns (s : RingProcesses n k) (ring : ByteRing n k) (x : Element k)
    (status : Bool) : RingProcesses n k :=
  { s with
    ring
    producer := .idle
    putReturned := s.putReturned ++ [(x, status)]
    log := s.log ++ [.put x status] }

def RingProcesses.producerNext (s : RingProcesses n k) : Option (RingProcesses n k) :=
  match s.producer with
  | .idle => none
  | .called x => some { s with producer := .counting x s.ring.head }
  | .counting x head =>
    if head - s.ring.tail = UInt32.ofNat n then some (s.putReturns s.ring x false)
    else some { s with producer := .room x }
  | .room x => some { s with producer := .copying x (ringDataOffset n k s.ring.head) 0 }
  | .copying x ringData i =>
    if h : i < k then
      some { s with
        ring := s.ring.store (ringData + i) (x ⟨i, h⟩)
        producer := .copying x ringData (i + 1) }
    else some (s.putReturns { s.ring with head := s.ring.head + 1 } x true)

/-- The next read or store of `ringbuf_pop`. A call that finds the ring empty takes effect as
it reads `head`: `tail` is its own. -/
def RingProcesses.consumerNext (s : RingProcesses n k) : Option (RingProcesses n k) :=
  match s.consumer with
  | .idle => none
  | .called out =>
    some { s with
      consumer := .counting out s.ring.head
      log := if s.ring.head - s.ring.tail = 0 then s.log ++ [.pop none] else s.log }
  | .counting out head =>
    if head - s.ring.tail = 0 then
      some { s with consumer := .idle, popReturned := s.popReturned ++ [none] }
    else some { s with consumer := .found out }
  | .found out => some { s with consumer := .copying out (ringDataOffset n k s.ring.tail) 0 }
  | .copying out ringData i =>
    if h : i < k then
      some { s with
        consumer :=
          .copying (Function.update out ⟨i, h⟩ (s.ring.buffer (ringData + i))) ringData (i + 1) }
    else
      some { s with
        ring := { s.ring with tail := s.ring.tail + 1 }
        consumer := .idle
        popReturned := s.popReturned ++ [some out]
        log := s.log ++ [.pop (some out)] }

inductive RingAct (k : Nat) where
  | put (x : Element k)
  | producer
  | pop (out : Element k)
  | consumer

/-- One step of one process. A process calls again when its last call has returned. -/
def RingProcesses.next (s : RingProcesses n k) : RingAct k → Option (RingProcesses n k)
  | .put x =>
    match s.producer with
    | .idle => some { s with producer := .called x }
    | _ => none
  | .producer => s.producerNext
  | .pop out =>
    match s.consumer with
    | .idle => some { s with consumer := .called out }
    | _ => none
  | .consumer => s.consumerNext

inductive FifoStep (n : Nat) : List (Element k) → RingEvent k → List (Element k) → Prop where
  | put {xs : List (Element k)} {x : Element k} :
      xs.length < n → FifoStep n xs (.put x true) (xs ++ [x])
  | full {xs : List (Element k)} {x : Element k} :
      xs.length = n → FifoStep n xs (.put x false) xs
  | pop {xs : List (Element k)} {x : Element k} : FifoStep n (x :: xs) (.pop (some x)) xs
  | empty : FifoStep n [] (.pop none) []

def RingEvent.putResult : RingEvent k → Option (Element k × Bool)
  | .put x status => some (x, status)
  | .pop _ => none

def RingEvent.popResult : RingEvent k → Option (Option (Element k))
  | .put _ _ => none
  | .pop x => some x

def RingProcesses.pendingPop (s : RingProcesses n k) : List (Option (Element k)) :=
  match s.consumer with
  | .counting _ head => if head - s.ring.tail = 0 then [none] else []
  | _ => []

structure RingSize (n k : Nat) : Prop extends BlockSize n k where
  dvd : n ∣ 2 ^ 32

section

variable [NeZero n]

def RingProcesses.PutReady (s : RingProcesses n k) : Prop :=
  match s.producer with
  | .counting _ head => head = s.ring.head
  | .room _ => ringbufDataPeek s.ring.elements ≠ none
  | .copying x ringData i => i ≤ k ∧ ∃ c, ringbufDataPeek s.ring.elements = some c ∧
      ringData = c * k ∧ ∀ j : Fin k, j < i → s.ring.elements.buffer c j = x j
  | _ => True

def RingProcesses.PopReady (s : RingProcesses n k) : Prop :=
  match s.consumer with
  | .counting _ head => head - s.ring.tail ≠ 0 → s.ring.elements.contents ≠ []
  | .found _ => s.ring.elements.contents ≠ []
  | .copying out ringData i => i ≤ k ∧ ∃ y, s.ring.elements.contents.head? = some y ∧
      ringData = cell n s.ring.tail.toNat * k ∧ ∀ j : Fin k, j < i → out j = y j
  | _ => True

structure RingProcesses.Inv (buffer : Nat → UInt8) (s : RingProcesses n k) : Prop where
  valid : s.ring.elements.Valid
  fifo : Run (FifoStep n) [] s.log s.ring.elements.contents
  puts : s.log.filterMap RingEvent.putResult = s.putReturned
  pops : s.log.filterMap RingEvent.popResult = s.popReturned ++ s.pendingPop
  put : s.PutReady
  pop : s.PopReady
  outside : ∀ a, n * k ≤ a → s.ring.buffer a = buffer a

theorem RingProcesses.start_inv (h : RingSize n k) (buffer : Nat → UInt8) :
    (start n k buffer).Inv buffer where
  valid := ringbufInit_valid _ h.lt h.dvd
  fifo := by
    have hnil : (start n k buffer).ring.elements.contents = [] := ringbufInit_contents _
    rw [hnil]
    exact .nil
  puts := rfl
  pops := rfl
  put := trivial
  pop := trivial
  outside _ _ := rfl

section

variable {s : RingProcesses n k}

theorem RingProcesses.PopReady.grow (h : s.PopReady) {s' : RingProcesses n k}
    (more : List (Element k)) (htail : s'.ring.tail = s.ring.tail)
    (hcont : s'.ring.elements.contents = s.ring.elements.contents ++ more)
    (hconsumer : s'.consumer = s.consumer) : s'.PopReady := by
  unfold PopReady at h ⊢
  rw [hconsumer, htail, hcont]
  cases hc : s.consumer with
  | idle => trivial
  | called out => trivial
  | counting out head =>
    rw [hc] at h
    exact fun hne => List.append_ne_nil_of_left_ne_nil (h hne) _
  | found out =>
    rw [hc] at h
    exact List.append_ne_nil_of_left_ne_nil h _
  | copying out ringData i =>
    rw [hc] at h
    obtain ⟨hi, y, hy, hrest⟩ := h
    exact ⟨hi, y, by rw [List.head?_append, hy, Option.some_or], hrest⟩

end

variable {buffer : Nat → UInt8} {s s' : RingProcesses n k}

theorem producerNext_inv (hsize : RingSize n k) (h : s.Inv buffer)
    (hnext : s.producerNext = some s') : s'.Inv buffer := by
  obtain ⟨hvalid, hfifo, hputs, hpops, hput, hpop, hout⟩ := h
  unfold RingProcesses.producerNext at hnext
  unfold RingProcesses.PutReady at hput
  cases hp : s.producer with
  | idle => simp [hp] at hnext
  | called x =>
    simp only [hp, Option.some.injEq] at hnext
    subst hnext
    exact ⟨hvalid, hfifo, hputs, hpops, rfl, hpop, hout⟩
  | counting x head =>
    simp only [hp] at hnext hput
    subst hput
    split at hnext
    · rename_i hfull
      cases hnext
      have hlen : s.ring.elements.contents.length = n := by
        rw [RingBuffer.contents_length, ← ringbufFull_iff hvalid]
        exact beq_iff_eq.mpr hfull
      refine ⟨hvalid, hfifo.snoc (.full hlen), ?_, ?_, trivial, hpop, hout⟩
      · simp [RingProcesses.putReturns, RingEvent.putResult, hputs]
      · simp only [RingProcesses.putReturns, List.filterMap_append, hpops]
        exact List.append_nil _
    · rename_i hroom
      cases hnext
      refine ⟨hvalid, hfifo, hputs, hpops, ?_, hpop, hout⟩
      have hfull : ¬ ringbufFull s.ring.elements = true := fun hf => hroom (beq_iff_eq.mp hf)
      simp [RingProcesses.PutReady, ringbufDataPeek, hfull]
  | room x =>
    simp only [hp, Option.some.injEq] at hnext hput
    subst hnext
    exact ⟨hvalid, hfifo, hputs, hpops, ⟨Nat.zero_le _, _, ringbufDataPeek_head hput,
      ringDataOffset_eq hsize.toBlockSize _, fun _ hj => absurd hj (Nat.not_lt_zero _)⟩, hpop, hout⟩
  | copying x ringData i =>
    simp only [hp] at hnext hput
    obtain ⟨hi, c, hpeek, rfl, hbytes⟩ := hput
    split at hnext
    · rename_i hik
      cases hnext
      have helements := s.ring.elements_store c ⟨i, hik⟩ (x ⟨i, hik⟩)
      have hcont : (s.ring.store (c * k + i) (x ⟨i, hik⟩)).elements.contents =
          s.ring.elements.contents := by
        rw [helements]
        exact RingBuffer.fill_contents hvalid hpeek _
      refine ⟨?_, ?_, hputs, hpops, ⟨hik, c, ?_, rfl, ?_⟩, ?_, ?_⟩
      · rw [helements]
        exact hvalid.fill _ _
      · rw [hcont]
        exact hfifo
      · rw [helements]
        exact hpeek
      · intro j hj
        rw [helements, RingBuffer.fill_buffer, Function.update_self]
        by_cases hji : j = ⟨i, hik⟩
        · rw [hji, Function.update_self]
        · have hne : j.val ≠ i := fun he => hji (Fin.ext he)
          rw [Function.update_of_ne hji]
          exact hbytes j (by omega)
      · exact hpop.grow [] rfl (hcont.trans (List.append_nil _).symm) rfl
      · intro a ha
        have hlt := byte_lt c ⟨i, hik⟩
        have hne : a ≠ c * k + i := fun he => by
          subst he
          exact absurd hlt (Nat.not_lt.mpr ha)
        exact (Function.update_of_ne hne _ _).trans (hout a ha)
    · rename_i hik
      cases hnext
      have hx : s.ring.elements.buffer c = x := funext fun j => hbytes j (by have := j.isLt; omega)
      have hput := ringbufDataPut_peeked hpeek
      obtain ⟨-, hvalid', hcont⟩ := ringbufDataPut_true hvalid (by rw [hput])
      rw [hput, hx] at hcont
      rw [hput] at hvalid'
      have hlen : s.ring.elements.contents.length < n := by
        rw [RingBuffer.contents_length]
        exact (ringbufDataPeek_some hvalid hpeek).1
      refine ⟨hvalid', ?_, ?_, ?_, trivial, hpop.grow [x] rfl hcont rfl, hout⟩
      · have hstep := hfifo.snoc (.put (x := x) hlen)
        rw [← hcont] at hstep
        exact hstep
      · simp [RingProcesses.putReturns, RingEvent.putResult, hputs]
      · simp only [RingProcesses.putReturns, List.filterMap_append, hpops]
        exact List.append_nil _

theorem RingProcesses.PutReady.shrink (h : s.PutReady) (hvalid : s.ring.elements.Valid)
    (hring : s'.ring.elements = (ringbufPop s.ring.elements).2)
    (hproducer : s'.producer = s.producer) : s'.PutReady := by
  have hhead : s'.ring.head = s.ring.head := by
    have heq : s'.ring.head = (ringbufPop s.ring.elements).2.head := congrArg RingBuffer.head hring
    rw [heq, ringbufPop]
    split <;> rfl
  unfold RingProcesses.PutReady at h ⊢
  rw [hproducer, hhead, hring]
  cases hp : s.producer with
  | idle => trivial
  | called x => trivial
  | counting x head =>
    rw [hp] at h
    exact h
  | room x =>
    rw [hp] at h
    rw [ringbufPop_dataPeek hvalid (ringbufDataPeek_head h)]
    simp
  | copying x ringData i =>
    rw [hp] at h
    obtain ⟨hi, c, hpeek, hdata, hbytes⟩ := h
    refine ⟨hi, c, ringbufPop_dataPeek hvalid hpeek, hdata, ?_⟩
    rw [ringbufPop_buffer]
    exact hbytes

theorem consumerNext_inv (hsize : RingSize n k) (h : s.Inv buffer)
    (hnext : s.consumerNext = some s') : s'.Inv buffer := by
  obtain ⟨hvalid, hfifo, hputs, hpops, hput, hpop, hout⟩ := h
  unfold RingProcesses.consumerNext at hnext
  unfold RingProcesses.PopReady at hpop
  unfold RingProcesses.pendingPop at hpops
  have hempty : s.ring.head - s.ring.tail = 0 ↔ s.ring.elements.contents = [] := by
    rw [← ringbufEmpty_iff]
    exact beq_iff_eq.symm
  cases hp : s.consumer with
  | idle => simp [hp] at hnext
  | called out =>
    simp only [hp, Option.some.injEq] at hnext hpops
    subst hnext
    by_cases hnone : s.ring.head - s.ring.tail = 0
    · have hcont := hempty.mp hnone
      rw [hcont] at hfifo
      refine ⟨hvalid, ?_, ?_, ?_, hput, fun hne => absurd hnone hne, hout⟩
      · simp only [if_pos hnone, hcont]
        exact hfifo.snoc .empty
      · simp [if_pos hnone, RingEvent.putResult, hputs]
      · simp [if_pos hnone, RingEvent.popResult, RingProcesses.pendingPop, hpops]
    · simp only [if_neg hnone]
      refine ⟨hvalid, hfifo, hputs, ?_, hput, fun _ hc => hnone (hempty.mpr hc), hout⟩
      simp [if_neg hnone, RingProcesses.pendingPop, hpops]
  | counting out head =>
    simp only [hp] at hnext hpop hpops
    split at hnext
    · rename_i hnone
      cases hnext
      rw [if_pos hnone] at hpops
      exact ⟨hvalid, hfifo, hputs, by rw [hpops]; exact (List.append_nil _).symm, hput, trivial, hout⟩
    · rename_i hsome
      cases hnext
      rw [if_neg hsome] at hpops
      exact ⟨hvalid, hfifo, hputs, hpops, hput, hpop hsome, hout⟩
  | found out =>
    simp only [hp, Option.some.injEq] at hnext hpop hpops
    subst hnext
    obtain ⟨y, ys, hcont⟩ := List.exists_cons_of_ne_nil hpop
    exact ⟨hvalid, hfifo, hputs, hpops, hput, ⟨Nat.zero_le _, y, by rw [hcont]; rfl,
      ringDataOffset_eq hsize.toBlockSize _, fun _ hj => absurd hj (Nat.not_lt_zero _)⟩, hout⟩
  | copying out ringData i =>
    simp only [hp] at hnext hpop hpops
    obtain ⟨hi, y, hy, rfl, hbytes⟩ := hpop
    obtain ⟨ys, hcont⟩ := List.head?_eq_some_iff.mp hy
    have hne : s.ring.elements.contents ≠ [] := by
      rw [hcont]
      exact List.cons_ne_nil _ _
    split at hnext
    · rename_i hik
      cases hnext
      refine ⟨hvalid, hfifo, hputs, hpops, hput, ⟨hik, y, hy, rfl, ?_⟩, hout⟩
      obtain ⟨c, hpeek, hc⟩ := ringbufPeek_cons hcont
      rw [ringbufPeek_some hne, Option.some.injEq] at hpeek
      intro j hj
      by_cases hji : j = ⟨i, hik⟩
      · subst hji
        rw [Function.update_self, ← hc, ← hpeek]
        rfl
      · have hne : j.val ≠ i := fun he => hji (Fin.ext he)
        rw [Function.update_of_ne hji]
        exact hbytes j (by omega)
    · rename_i hik
      cases hnext
      have hout' : out = y := funext fun j => hbytes j (by have := j.isLt; omega)
      subst hout'
      obtain ⟨-, hvalid', hcont'⟩ := ringbufPop_cons hvalid hcont
      have hring : (ByteRing.elements { s.ring with tail := s.ring.tail + 1 }) =
          (ringbufPop s.ring.elements).2 := by
        rw [ringbufPop_full hne]
        rfl
      rw [hcont] at hfifo
      refine ⟨?_, ?_, ?_, ?_, hput.shrink hvalid hring rfl, trivial, hout⟩
      · simp only [hring]
        exact hvalid'
      · simp only [hring, hcont']
        exact hfifo.snoc .pop
      · simp [RingEvent.putResult, hputs]
      · simp [RingEvent.popResult, RingProcesses.pendingPop, hpops]

theorem ringProcesses_next_inv (hsize : RingSize n k) (h : s.Inv buffer) {act : RingAct k}
    (hnext : s.next act = some s') : s'.Inv buffer := by
  cases act with
  | put x =>
    simp only [RingProcesses.next] at hnext
    split at hnext
    · cases hnext
      exact ⟨h.valid, h.fifo, h.puts, h.pops, trivial, h.pop, h.outside⟩
    · cases hnext
  | producer => exact producerNext_inv hsize h hnext
  | pop out =>
    simp only [RingProcesses.next] at hnext
    split at hnext
    · rename_i hidle
      cases hnext
      have hpops := h.pops
      simp only [RingProcesses.pendingPop, hidle] at hpops
      exact ⟨h.valid, h.fifo, h.puts, hpops, h.put, trivial, h.outside⟩
    · cases hnext
  | consumer => exact consumerNext_inv hsize h hnext

def acceptedElements (returned : List (Element k × Bool)) : List (Element k) :=
  returned.filterMap fun r => if r.2 then some r.1 else none

omit [NeZero n] in
theorem fifo_order {log : List (RingEvent k)} {xs : List (Element k)}
    (h : Run (FifoStep n) [] log xs) :
    acceptedElements (log.filterMap RingEvent.putResult) =
      (log.filterMap RingEvent.popResult).filterMap id ++ xs := by
  refine h.history (fun log xs => acceptedElements (log.filterMap RingEvent.putResult) =
    (log.filterMap RingEvent.popResult).filterMap id ++ xs) rfl ?_
  intro log e xs ys _ ih hstep
  unfold acceptedElements at ih ⊢
  simp only [List.filterMap_append, ih]
  cases hstep <;> simp [RingEvent.putResult, RingEvent.popResult]

omit [NeZero n] in
theorem pendingPop_none (s : RingProcesses n k) : s.pendingPop.filterMap id = [] := by
  unfold RingProcesses.pendingPop
  split
  · split <;> rfl
  · rfl

end

/-- However the two processes interleave: the calls of each take effect in the order in which it
makes them, and all of them together as the calls on a queue of at most `element_count` elements.
So what has been popped is the first of what has been put, whole and in order. No byte after the
block is touched. -/
theorem ring_processes_linearizable [NeZero n] (hsize : RingSize n k) {buffer : Nat → UInt8}
    {acts : List (RingAct k)} {s : RingProcesses n k}
    (hr : Run (fun s act s' => RingProcesses.next s act = some s') (.start n k buffer) acts s) :
    (∃ xs, Run (FifoStep n) [] s.log xs ∧ xs.length ≤ n ∧
      acceptedElements s.putReturned = s.popReturned.filterMap id ++ xs) ∧
    s.log.filterMap RingEvent.putResult = s.putReturned ∧
    s.log.filterMap RingEvent.popResult = s.popReturned ++ s.pendingPop ∧
    ∀ a, n * k ≤ a → s.ring.buffer a = buffer a := by
  have hinv := hr.invariant (fun s => s.Inv buffer)
    (fun _ _ _ h hnext => ringProcesses_next_inv hsize h hnext)
    (RingProcesses.start_inv hsize buffer)
  have horder := fifo_order hinv.fifo
  rw [hinv.puts, hinv.pops, List.filterMap_append, pendingPop_none, List.append_nil] at horder
  refine ⟨⟨_, hinv.fifo, ?_, horder⟩, hinv.puts, hinv.pops, hinv.outside⟩
  rw [RingBuffer.contents_length]
  exact hinv.valid.size_le

def twoBytes : Element 2 := fun i => UInt8.ofNat (i.val + 1)

def overtakenPut : List (RingAct 2) :=
  [.put twoBytes, .producer, .producer, .producer, .producer, .pop fun _ => 0, .consumer,
    .producer, .producer, .consumer, .pop fun _ => 0] ++ List.replicate 6 .consumer

theorem overtakenPut_run : ∃ s, Run (fun s act s' => RingProcesses.next s act = some s')
    (.start 4 2 fun _ => 0) overtakenPut s ∧ s.popReturned = [none, some twoBytes] := by
  have h : (overtakenPut.foldlM RingProcesses.next (.start 4 2 fun _ => 0)).any
      (fun s => s.popReturned = [none, some twoBytes]) = true := by decide +kernel
  simp only [Option.any_eq_true, decide_eq_true_eq] at h
  obtain ⟨s, hs, hpop⟩ := h
  exact ⟨s, run_of_foldlM hs, hpop⟩

theorem ring_processes_linearizable_overtaken : ∃ s : RingProcesses 4 2,
    s.popReturned = [none, some twoBytes] ∧
      ∃ xs, acceptedElements s.putReturned = twoBytes :: xs := by
  obtain ⟨s, hr, hpop⟩ := overtakenPut_run
  obtain ⟨⟨xs, -, -, horder⟩, -⟩ :=
    ring_processes_linearizable ⟨⟨by decide, by decide, by decide⟩, by decide⟩ hr
  rw [hpop] at horder
  exact ⟨s, hpop, xs, horder⟩

end Umtp
