import Umtp.ModeHandling

/-! Sync mode and the mpu task agree: whether messages are handled as they come in, or wait
in a queue in batches, with their replies in another. -/

set_option autoImplicit false

namespace Umtp
open CheckedBuffer StateExcept

variable {σ : Type}

/-- A message as `recv_data` has left it: `len` bytes from `pdu` on. -/
structure Received where
  src : UmtpAddr
  pdu : Ptr
  len : UInt16

def Received.npdu (r : Received) : List UInt8 := r.pdu.bytes.take r.len.toNat

/-- A message of the right version with a known type, a complete header and, for an error, a
status. -/
structure Received.Complete (r : Received) : Prop where
  fits : r.len.toNat ≤ maxMpuData
  inside : r.pdu.off + r.len.toNat ≤ r.pdu.obj.length
  form : ∃ (h : ApduHeader) (body : List UInt8), h.WellFormed ∧
    (h.type = umtpPduError → body ≠ []) ∧
    r.npdu = fttpProtocolVersion :: (h.bytes ++ body)

def Received.handle (umtp : Ref) (r : Received) : Proc σ Unit := do
  let _ ← npduHandler umtp r.src r.pdu r.len

def Received.put (umtp : Ref) (r : Received) : Proc σ Unit := do
  let _ ← mpuPutRecv r.src umtp r.pdu r.len.toNat

def handleAll (umtp : Ref) (rs : List Received) : Proc σ Unit := rs.forM (·.handle umtp)

/-- Every batch goes to the mpu, and the inner loop of `mpu_task` is run to its end. -/
def BatchRun (umtp : Ref) : List (List Received) → World σ → World σ → Prop
  | [], w, w' => w' = w
  | batch :: batches, w, w' => ∃ w₁ w₂, (batch.forM (Received.put umtp)).run w = .ok () w₁ ∧
      FuelLoop.Ends mpuDrainStep w₁ (.ok () w₂) ∧ BatchRun umtp batches w₂ w'

def Received.message (umtp : Ref) (r : Received) : Message := ⟨r.len, r.npdu, r.src, umtp⟩

/-- The mpu task has the messages `rs` still to handle, and is otherwise where sync mode is. -/
structure Draining (umtp : Ref) (dl : UmtpDl σ) (rs : List Received) (m : Mpu) (u v : World σ) :
    Prop where
  inStep : InStep m u v
  running : m.running = true
  recvValid : (m.queue .recv).Valid
  sendValid : (m.queue .send).Valid
  waiting : (m.queue .recv).contents.map Packet.message = rs.map (Received.message umtp)
  sent : (m.queue .send).contents = []
  dl : u.dl = some dl

variable {umtp : Ref} {dl : UmtpDl σ} {r : Received} {rs : List Received} {m : Mpu} {u v : World σ}

theorem Draining.idle_iff (h : Draining umtp dl rs m u v) : mpuIdle m = true ↔ rs = [] := by
  have hwaiting := h.waiting
  rw [mpuIdle_iff]
  constructor
  · rintro ⟨-, hrecv⟩
    simpa [hrecv] using hwaiting.symm
  · rintro rfl
    exact ⟨h.sent, by simpa using hwaiting⟩

theorem Draining.start {w : World σ} (hm : w.mpu = some m) (hrunning : m.running = true)
    (hvalid : ∀ q, (m.queue q).Valid) (hempty : ∀ q, (m.queue q).contents = [])
    (hasync : w.syncMode = false) (hdl : w.dl = some dl)
    (hargs : ∀ type ∈ w.services, type.ReadsArgs) :
    Draining umtp dl [] m { w with syncMode := true } w where
  inStep := ⟨rfl, hasync, hm, rfl, rfl, rfl, rfl, rfl, rfl, hargs⟩
  running := hrunning
  recvValid := hvalid .recv
  sendValid := hvalid .send
  waiting := by simp [hempty]
  sent := hempty .send
  dl := hdl

/-- The same calls with the same arguments, the same datagrams, the same session table. -/
structure Agree (u v : World σ) : Prop where
  trace : v.trace.map Event.seen = u.trace.map Event.seen
  sessions : v.sessions = u.sessions
  app : v.app = u.app

theorem Draining.agree (h : Draining umtp dl [] m u v) : Agree u v ∧ Drained v :=
  ⟨⟨h.inStep.trace, h.inStep.sessions, h.inStep.app⟩, m, h.inStep.mpu,
    by simpa using h.waiting, h.sent⟩

theorem Received.put_run (h : Draining umtp dl rs m u v) (hr : r.Complete)
    (hroom : rs.length < maxPduCount) :
    ∃ v' m', (r.put umtp).run v = .ok () v' ∧ Draining umtp dl (rs ++ [r]) m' u v' := by
  have hdata : maxMpuData = 2000 := rfl
  have hfits := hr.fits
  have hcount := congrArg List.length h.waiting
  rw [List.length_map, List.length_map, RingBuffer.contents_length] at hcount
  obtain ⟨ring, pkt, hput, hvalid, -, hcont, hpl, hpb, hpa, hpd⟩ :=
    mpuPut_room r.src umtp h.inStep.mpu h.running h.recvValid (by omega)
      (show r.pdu.off + (r.len.toNat : Int).toNat ≤ _ by simpa using hr.inside)
      (by simpa using hfits)
  have hlen : pkt.length = r.len := by
    rw [← UInt16.toNat_inj, hpl, uint16_ofInt_toNat (by omega) (by omega)]
    simp
  have hmsg : pkt.message = r.message umtp := by
    simp only [Packet.message, Received.message, Received.npdu, hlen, hpa, hpd]
    simpa using hpb
  refine ⟨v.setQueue .recv ring, m.setQueue .recv ring, ?_, ?_, by simpa using h.running, ?_, ?_,
    ?_, ?_, h.dl⟩
  · simp [Received.put, mpuPutRecv, hput]
  · simp only [World.setQueue, h.inStep.mpu, Option.map_some]
    exact h.inStep.setMpu _
  · simpa using hvalid
  · rw [Mpu.queue_setQueue_ne m (by decide)]
    exact h.sendValid
  · rw [Mpu.queue_setQueue, hcont, List.map_append, h.waiting, List.map_append]
    simp [hmsg]
  · rw [Mpu.queue_setQueue_ne m (by decide)]
    exact h.sent

theorem putBatch_run {batch : List Received} (h : Draining umtp dl rs m u v)
    (hbatch : ∀ r ∈ batch, r.Complete) (hroom : rs.length + batch.length ≤ maxPduCount) :
    ∃ v' m', (batch.forM (Received.put umtp)).run v = .ok () v' ∧
      Draining umtp dl (rs ++ batch) m' u v' := by
  induction batch generalizing rs m v with
  | nil => exact ⟨v, m, rfl, by simpa using h⟩
  | cons r batch ih =>
    rw [List.length_cons] at hroom
    obtain ⟨t, m₁, ht, hput⟩ := Received.put_run h (hbatch r (by simp)) (by omega)
    obtain ⟨v', m', hrest, hdrain⟩ := ih hput (fun r' hr' => hbatch r' (by simp [hr']))
      (by simp; omega)
    refine ⟨v', m', ?_, by simpa using hdrain⟩
    have hcons : ((r :: batch).forM (Received.put umtp)).run v =
        (r.put umtp >>= fun _ => batch.forM (Received.put umtp)).run v := rfl
    rw [hcons, EStateM.run_bind, ht]
    exact hrest

/-- What is left after a message has been handled and popped: to send the reply, if any. -/
def Popped (umtp : Ref) (dl : UmtpDl σ) (rs : List Received) (u v : World σ) : Prop :=
  ∃ m, v.mpu = some m ∧ m.running = true ∧ (m.queue .recv).Valid ∧ (m.queue .send).Valid ∧
    (m.queue .recv).contents.map Packet.message = rs.map (Received.message umtp) ∧
    u.dl = some dl ∧
    ((m.queue .send).contents = [] ∧ InStep m u v ∨
      ∃ pkt, (m.queue .send).contents = [pkt] ∧ Owes pkt u v)

theorem Received.Complete.message (h : r.Complete) : ∃ (header : ApduHeader) (body : List UInt8),
    header.WellFormed ∧ (header.type = umtpPduError → body ≠ []) ∧
      r.npdu = fttpProtocolVersion :: (header.bytes ++ body) ∧
      r.len.toNat = 1 + header.decodeLen + body.length := by
  obtain ⟨header, body, hh, hstatus, hform⟩ := h.form
  have hinside := h.inside
  have hnpdu : r.npdu.length = r.len.toNat := by
    simp [Received.npdu, Ptr.bytes]
    omega
  have hheader : header.bytes.length = header.decodeLen := by
    rw [ApduHeader.bytes, header.reply_length, hh.decodeLen]
  have hcount := congrArg List.length hform
  rw [hnpdu, List.length_cons, List.length_append, hheader] at hcount
  exact ⟨header, body, hh, hstatus, hform, by omega⟩

theorem mpuMsgHandle_send_returns (h : Popped umtp dl rs u v) :
    Returns (fun _ t => ∃ m, Draining umtp dl rs m u t) (mpuMsgHandle .send _umtpSendMsg) v := by
  obtain ⟨m, hm, hr, hrecv, hsend, hwaiting, hdl, ⟨hnil, hs⟩ | ⟨pkt, hpkt, howes⟩⟩ := h
  · exact ⟨(), v, mpuMsgHandle_nil _ hm hnil, m, hs, hr, hrecv, hsend, hwaiting, hnil, hdl⟩
  · obtain ⟨slot, hrun⟩ := mpuMsgHandle_cons _umtpSendMsg hm hpkt
    obtain ⟨t, hsent, hs⟩ := howes slot m
    obtain ⟨-, hvalid, hrest⟩ := ringbufPop_cons hsend hpkt
    have hself : ({ v with mpu := some m } : World σ) = v := by rw [← hm]
    rw [hself] at hsent
    refine ⟨(), { t with mpu := some (m.setQueue .send (ringbufPop (m.queue .send)).2) }, ?_,
      m.setQueue .send (ringbufPop (m.queue .send)).2, hs.setMpu _, by simpa using hr, ?_, ?_, ?_,
      ?_, hdl⟩
    · simp [hrun, hsent, mpuPop, hs.mpu]
    · rw [Mpu.queue_setQueue_ne m (by decide)]
      exact hrecv
    · simpa using hvalid
    · rw [Mpu.queue_setQueue_ne m (by decide)]
      exact hwaiting
    · simpa using hrest

def Follows (umtp : Ref) (dl : UmtpDl σ) (v : World σ) : EStateM.Result Stop (World σ) Unit → Prop
  | .ok _ u' => ∃ v' m', FuelLoop.Ends mpuDrainStep v (.ok () v') ∧ Draining umtp dl [] m' u' v'
  | .error _ _ => ∃ e v', FuelLoop.Ends mpuDrainStep v (.error e v')

theorem handleAll_append (xs ys : List Received) (w : World σ) :
    (handleAll umtp (xs ++ ys)).run w =
      (handleAll umtp xs >>= fun _ => handleAll umtp ys).run w := by
  simp [handleAll]

def Batches (batches : List (List Received)) : Prop :=
  ∀ batch ∈ batches, batch.length ≤ maxPduCount ∧ ∀ r ∈ batch, r.Complete

theorem Batches.cons {batch : List Received} {batches : List (List Received)}
    (h : Batches (batch :: batches)) :
    (batch.length ≤ maxPduCount ∧ ∀ r ∈ batch, r.Complete) ∧ Batches batches :=
  ⟨h batch (by simp), fun b hb => h b (by simp [hb])⟩

def Ready (dl : UmtpDl σ) (u : World σ) : Prop :=
  ∃ m, u.mpu = some m ∧ (m.queue .send).Valid ∧ u.dl = some dl ∧ ServicesFit u.services

section

variable (hu : umtp ≠ 0) (hlink : LinkAccepts dl)

include hu hlink

theorem _umtpHandleMsg_lockstep (h : Draining umtp dl rs m u v) (hr : r.Complete) {p : Packet}
    (hp : p.message = r.message umtp) (slot : Fin maxPduCount) :
    Lockstep (fun _ s b t => b = 0 ∧ s.dl = some dl ∧ (InStep m s t ∨ Queued m s t))
      (npduHandler umtp r.src r.pdu r.len) (_umtpHandleMsg slot p) u v := by
  simp only [Packet.message, Received.message, Message.mk.injEq] at hp
  obtain ⟨hlen, hbytes, haddr, hdata⟩ := hp
  obtain ⟨header, body, hh, hstatus, hform, hcount⟩ := hr.message
  have hpre : fttpProtocolVersion :: (header.bytes ++ body) <+: r.pdu.bytes :=
    hform ▸ List.take_prefix _ _
  have hpre' : fttpProtocolVersion :: (header.bytes ++ body) <+:
      (⟨.mpuRecv slot, p.buffer.cells, 0⟩ : Ptr).bytes := by
    rw [← hform, ← hbytes]
    exact List.take_prefix _ _
  have hlock := npduHandler_lockstep hu h.inStep h.running h.sendValid h.sent h.dl hlink r.src hh
    hpre hpre' hcount hstatus
  have hsetup := npduHandler_moves (@handlerFrame_sameSetup σ)
  rw [_umtpHandleMsg, hdata, haddr, hlen]
  apply (hlock.moves (hsetup _ _ _ _) (hsetup _ _ _ _)).weaken
  rintro a s b t ⟨⟨hb, hcase⟩, ⟨-, hdl⟩, -⟩
  exact ⟨hb, hdl.trans h.dl, hcase⟩

theorem mpuMsgHandle_recv_lockstep (h : Draining umtp dl (r :: rs) m u v) (hr : r.Complete) :
    Lockstep (fun _ s _ t => Popped umtp dl rs s t) (r.handle umtp)
      (mpuMsgHandle .recv _umtpHandleMsg) u v := by
  have hwaiting := h.waiting
  cases hc : (m.queue .recv).contents with
  | nil => simp [hc] at hwaiting
  | cons p ps =>
    rw [hc, List.map_cons, List.map_cons, List.cons.injEq] at hwaiting
    obtain ⟨hmsg, hps⟩ := hwaiting
    obtain ⟨slot, hrun⟩ := mpuMsgHandle_cons _umtpHandleMsg h.inStep.mpu hc
    obtain ⟨-, hvalid, hrest⟩ := ringbufPop_cons h.recvValid hc
    refine Lockstep.congr ?_ rfl hrun
    apply (_umtpHandleMsg_lockstep hu hlink h hr hmsg slot).bind
    rintro a s _ t ⟨rfl, hdl, hcase⟩
    rw [if_neg (by simp)]
    rcases hcase with hs | ⟨ring, pkt, hm, hring, hpkt, howes⟩
    · refine lockstep_of_ok rfl rfl ⟨m.setQueue .recv (ringbufPop (m.queue .recv)).2, ?_, ?_, ?_,
        ?_, ?_, hdl, .inl ⟨?_, ?_⟩⟩
      · simp [hs.mpu]
      · simpa using h.running
      · simpa using hvalid
      · rw [Mpu.queue_setQueue_ne m (by decide)]
        exact h.sendValid
      · rw [Mpu.queue_setQueue, hrest]
        exact hps
      · rw [Mpu.queue_setQueue_ne m (by decide)]
        exact h.sent
      · simp only [hs.mpu, Option.map_some]
        exact hs.setMpu _
    · have hrecv : (m.setQueue .send ring).queue .recv = m.queue .recv :=
        Mpu.queue_setQueue_ne m (by decide) ring
      refine lockstep_of_ok rfl rfl ⟨(m.setQueue .send ring).setQueue .recv
        (ringbufPop (m.queue .recv)).2, ?_, ?_, ?_, ?_, ?_, hdl, .inr ⟨pkt, ?_, ?_⟩⟩
      · simp [hm, hrecv]
      · simpa using h.running
      · simpa using hvalid
      · rw [Mpu.queue_setQueue_ne _ (by decide), Mpu.queue_setQueue]
        exact hring
      · rw [Mpu.queue_setQueue, hrest]
        exact hps
      · rw [Mpu.queue_setQueue_ne _ (by decide), Mpu.queue_setQueue]
        exact hpkt
      · exact howes

/-- A round of the inner loop of `mpu_task` does what a call of `npdu_handler` does. -/
theorem mpuTaskRound_lockstep (h : Draining umtp dl (r :: rs) m u v) (hr : r.Complete) :
    Lockstep (fun _ s _ t => ∃ m, Draining umtp dl rs m s t) (r.handle umtp) mpuTaskRound u v :=
  (mpuMsgHandle_recv_lockstep hu hlink h hr).follow fun _ _ _ _ hh =>
    mpuMsgHandle_send_returns hh

theorem drain_follows (h : Draining umtp dl rs m u v) (hrs : ∀ r ∈ rs, r.Complete) :
    Follows umtp dl v ((handleAll umtp rs).run u) := by
  induction rs generalizing m u v with
  | nil =>
    have hidle := mpuDrainStep_idle h.inStep.mpu (h.idle_iff.mpr rfl)
    exact ⟨v, m, FuelLoop.ends_leave hidle, h⟩
  | cons r rs ih =>
    have hbusy : ¬ mpuIdle m = true := by simp [h.idle_iff]
    have hround := mpuTaskRound_lockstep hu hlink h (hrs r (by simp))
    have hcons : (handleAll umtp (r :: rs)).run u =
        (r.handle umtp >>= fun _ => handleAll umtp rs).run u := rfl
    rw [hcons, EStateM.run_bind]
    cases hrun : (r.handle umtp).run u with
    | ok a s =>
      obtain ⟨_, t, ht, m', hdrain⟩ := hround.ok a s hrun
      have hgo := mpuDrainStep_round h.inStep.mpu hbusy ht
      have hrest := ih hdrain fun r' hr' => hrs r' (by simp [hr'])
      dsimp only
      cases hres : (handleAll umtp rs).run s with
      | ok _ u' =>
        rw [hres] at hrest
        obtain ⟨v', m'', hends, hdone⟩ := hrest
        exact ⟨v', m'', FuelLoop.ends_again hgo hends, hdone⟩
      | error e u' =>
        rw [hres] at hrest
        obtain ⟨e', v', hends⟩ := hrest
        exact ⟨e', v', FuelLoop.ends_again hgo hends⟩
    | error e s =>
      obtain ⟨e', t, ht⟩ := hround.error e s hrun
      exact ⟨e', t, FuelLoop.ends_leave (mpuDrainStep_error h.inStep.mpu hbusy ht)⟩

theorem batch_follows {batch : List Received} (h : Draining umtp dl [] m u v)
    (hbatch : batch.length ≤ maxPduCount ∧ ∀ r ∈ batch, r.Complete) :
    ∃ w₁, (batch.forM (Received.put umtp)).run v = .ok () w₁ ∧
      Follows umtp dl w₁ ((handleAll umtp batch).run u) := by
  obtain ⟨w₁, m₁, hput, hdrain⟩ := putBatch_run h hbatch.2 (by simpa using hbatch.1)
  exact ⟨w₁, hput, drain_follows hu hlink hdrain hbatch.2⟩

theorem batches_of_handleAll {batches : List (List Received)} (h : Draining umtp dl [] m u v)
    (hall : Batches batches) {u' : World σ}
    (hrun : (handleAll umtp batches.flatten).run u = .ok () u') :
    ∃ v' m', BatchRun umtp batches v v' ∧ Draining umtp dl [] m' u' v' := by
  induction batches generalizing m u v with
  | nil =>
    cases hrun
    exact ⟨v, m, rfl, h⟩
  | cons batch batches ih =>
    obtain ⟨hbatch, hrest⟩ := hall.cons
    obtain ⟨w₁, hput, hfollows⟩ := batch_follows hu hlink h hbatch
    rw [List.flatten_cons, handleAll_append, EStateM.run_bind] at hrun
    cases hb : (handleAll umtp batch).run u with
    | ok _ s =>
      rw [hb] at hrun hfollows
      obtain ⟨w₂, m₂, hends, hdrain⟩ := hfollows
      obtain ⟨v', m', hbatches, hdone⟩ := ih hdrain hrest hrun
      exact ⟨v', m', ⟨w₁, w₂, hput, hends, hbatches⟩, hdone⟩
    | error e s =>
      rw [hb] at hrun
      cases hrun

theorem handleAll_of_batches {batches : List (List Received)} (h : Draining umtp dl [] m u v)
    (hall : Batches batches) {v' : World σ} (hrun : BatchRun umtp batches v v') :
    ∃ u' m', (handleAll umtp batches.flatten).run u = .ok () u' ∧
      Draining umtp dl [] m' u' v' := by
  induction batches generalizing m u v with
  | nil => exact ⟨u, m, rfl, hrun ▸ h⟩
  | cons batch batches ih =>
    obtain ⟨w₁, w₂, hput, hends, hbatches⟩ := hrun
    obtain ⟨hbatch, hrest⟩ := hall.cons
    obtain ⟨w, hput', hfollows⟩ := batch_follows hu hlink h hbatch
    rw [hput] at hput'
    cases hput'
    rw [List.flatten_cons, handleAll_append, EStateM.run_bind]
    cases hb : (handleAll umtp batch).run u with
    | ok _ s =>
      rw [hb] at hfollows
      obtain ⟨w₂', m₂, hends', hdrain⟩ := hfollows
      have hsame := FuelLoop.ends_unique hends hends'
      cases hsame
      exact ih hdrain hrest hbatches
    | error e s =>
      rw [hb] at hfollows
      obtain ⟨e', t, hends'⟩ := hfollows
      have hsame := FuelLoop.ends_unique hends hends'
      cases hsame

theorem Received.handle_returns (h : Ready dl u) (hr : r.Complete) :
    Returns (fun _ u' => Ready dl u') (r.handle umtp) u := by
  obtain ⟨m, hm, hv, hdl, hfit⟩ := h
  obtain ⟨header, body, hh, hstatus, hform, hcount⟩ := hr.message
  have hpre : fttpProtocolVersion :: (header.bytes ++ body) <+: r.pdu.bytes :=
    hform ▸ List.take_prefix _ _
  have hget : header.type = umtpPduError →
      ∃ status, (r.pdu.add 1).get header.decodeLen = some status := by
    intro herr
    obtain ⟨status, rest, rfl⟩ := List.exists_cons_of_ne_nil (hstatus herr)
    exact ⟨status, message_status hh hpre hcount rfl⟩
  have hswitch : Returns (Replied m) (npduHandler umtp r.src r.pdu r.len) u := by
    obtain ⟨ret, u', hrun, hreplied⟩ := apduSwitch_returns (w := u.received r.pdu header) hm hv
      ⟨dl, hdl, hlink⟩ hfit hu hh.decodeLen hget
    exact ⟨ret, u', (npduHandler_message hu hh hpre hcount r.src u).trans hrun, hreplied⟩
  unfold Received.handle
  apply Returns.bind (hswitch.moves (npduHandler_moves (@handlerFrame_sameSetup σ) _ _ _ _))
  rintro ret s ⟨hreplied, hservices, hdl'⟩
  have hready : ∀ m', s.mpu = some m' → (m'.queue .send).Valid → Ready dl s := fun m' hm' hv' =>
    ⟨m', hm', hv', hdl'.trans hdl, hservices ▸ hfit⟩
  apply returns_pure
  rcases hreplied with ⟨-, hm' | ⟨ring, pkt, hm', hv', -⟩⟩ | ⟨-, hm', -⟩
  · exact hready _ hm' hv
  · exact hready _ hm' (by simpa using hv')
  · exact hready _ hm' hv

theorem handleAll_returns (h : Ready dl u) (hrs : ∀ r ∈ rs, r.Complete) :
    Returns (fun _ u' => Ready dl u') (handleAll umtp rs) u := by
  induction rs generalizing u with
  | nil => exact returns_pure h
  | cons r rs ih =>
    apply Returns.bind (Received.handle_returns hu hlink h (hrs r (by simp)))
    intro _ s hs
    exact ih hs fun r' hr' => hrs r' (by simp [hr'])

end

/-- However the messages are split into batches, sync mode and the mpu task come back on the
same ones, and then agree. They do come back where the replies of the services fit. -/
theorem modes_agree (hu : umtp ≠ 0) {w : World σ} (hm : w.mpu = some m)
    (hrunning : m.running = true) (hvalid : ∀ q, (m.queue q).Valid)
    (hempty : ∀ q, (m.queue q).contents = []) (hasync : w.syncMode = false)
    (hdl : w.dl = some dl) (hlink : LinkAccepts dl)
    (hargs : ∀ type ∈ w.services, type.ReadsArgs) {batches : List (List Received)}
    (hall : Batches batches) :
    (∀ u, (handleAll umtp batches.flatten).run { w with syncMode := true } = .ok () u →
      ∃ v, BatchRun umtp batches w v ∧ Agree u v ∧ Drained v) ∧
    (∀ v, BatchRun umtp batches w v →
      ∃ u, (handleAll umtp batches.flatten).run { w with syncMode := true } = .ok () u ∧
        Agree u v ∧ Drained v) ∧
    (ServicesFit w.services →
      ∃ u, (handleAll umtp batches.flatten).run { w with syncMode := true } = .ok () u) := by
  have hstart : Draining umtp dl [] m { w with syncMode := true } w :=
    .start hm hrunning hvalid hempty hasync hdl hargs
  refine ⟨?_, ?_, ?_⟩
  · intro u hrun
    obtain ⟨v, m', hbatches, hdone⟩ := batches_of_handleAll hu hlink hstart hall hrun
    exact ⟨v, hbatches, hdone.agree⟩
  · intro v hbatches
    obtain ⟨u, m', hrun, hdone⟩ := handleAll_of_batches hu hlink hstart hall hbatches
    exact ⟨u, hrun, hdone.agree⟩
  · intro hfit
    have hcomplete : ∀ r ∈ batches.flatten, r.Complete := by
      intro r hr
      obtain ⟨batch, hbatch, hmem⟩ := List.mem_flatten.mp hr
      exact (hall batch hbatch).2 r hmem
    obtain ⟨_, u, hrun, -⟩ := handleAll_returns hu hlink
      (u := { w with syncMode := true }) ⟨m, hm, hvalid .send, hdl, hfit⟩ hcomplete
    exact ⟨u, hrun⟩

def Received.ofMessage (h : ApduHeader) (body : List UInt8) : Received :=
  ⟨.zero, ⟨.taskBuf, fttpProtocolVersion :: (h.bytes ++ body), 0⟩,
    UInt16.ofNat (1 + h.bytes.length + body.length)⟩

theorem Received.ofMessage_complete {h : ApduHeader} {body : List UInt8} (hh : h.WellFormed)
    (hstatus : h.type = umtpPduError → body ≠ [])
    (hlen : 1 + h.bytes.length + body.length ≤ maxMpuData) : (ofMessage h body).Complete := by
  have hmax : maxMpuData = 2000 := rfl
  have hl : (ofMessage h body).len.toNat = 1 + h.bytes.length + body.length := by
    rw [ofMessage, UInt16.toNat_ofNat', Nat.mod_eq_of_lt (by omega)]
  have hobj : (ofMessage h body).pdu.obj.length = 1 + h.bytes.length + body.length := by
    simp [ofMessage]
    omega
  refine ⟨by omega, by rw [hobj, hl]; simp [ofMessage], h, body, hh, hstatus, ?_⟩
  rw [Received.npdu, hl, ← hobj]
  simp [ofMessage, Ptr.bytes]

def serverBatches : List (List Received) :=
  [[.ofMessage ⟨0, 0, 5, 0, 3⟩ [9], .ofMessage ⟨1, 0, 5, 1, 4⟩ [9]],
    [.ofMessage ⟨1, 1, 5, 3, 4⟩ [9]],
    [.ofMessage ⟨1, 2, 5, 4, 4⟩ [1], .ofMessage ⟨1, 0, 5, 2, 4⟩ [9, 9]]]

theorem serverBatches_complete : Batches serverBatches := by
  have hmessage : ∀ {h : ApduHeader} {body : List UInt8}, h.WellFormed → body ≠ [] →
      1 + h.bytes.length + body.length ≤ maxMpuData → (Received.ofMessage h body).Complete :=
    fun hh hbody hlen => Received.ofMessage_complete hh (fun _ => hbody) hlen
  intro batch hbatch
  simp only [serverBatches, List.mem_cons, List.not_mem_nil, or_false] at hbatch
  rcases hbatch with rfl | rfl | rfl <;> refine ⟨by decide, ?_⟩ <;>
    simp only [List.mem_cons, List.not_mem_nil, or_false, forall_eq_or_imp, forall_eq]
  · exact ⟨hmessage ⟨rfl, by decide, fun _ => rfl⟩ (by simp) (by decide),
      hmessage ⟨rfl, by decide, by decide⟩ (by simp) (by decide)⟩
  · exact hmessage ⟨rfl, by decide, by decide⟩ (by simp) (by decide)
  · exact ⟨hmessage ⟨rfl, by decide, by decide⟩ (by simp) (by decide),
      hmessage ⟨rfl, by decide, by decide⟩ (by simp) (by decide)⟩

theorem drainServer_readsArgs : ∀ type ∈ drainServer.services, type.ReadsArgs := by
  intro type htype
  obtain rfl := List.mem_singleton.mp htype
  refine ⟨?_, by simp⟩
  intro f hf s src id data data' len _
  cases hf
  rfl

def syncServer : World Unit := { drainServer with syncMode := true }

theorem modes_agree_batches :
    ∃ u v, (handleAll 1 serverBatches.flatten).run syncServer = .ok () u ∧
      u.trace.countP (· matches .send _ _) = 3 ∧
      BatchRun 1 serverBatches drainServer v ∧ Agree u v ∧ Drained v := by
  obtain ⟨hsync, -, hreturns⟩ := modes_agree (w := drainServer)
    (m := mpuCreate (fun _ => .zero) (fun _ => .zero)) (show (1 : Ref) ≠ 0 from Nat.one_ne_zero)
    rfl rfl (mpuCreate_valid _ _) (mpuCreate_contents _ _) rfl rfl
    (fun s _ _ _ _ _ _ _ => ⟨s, rfl⟩) drainServer_readsArgs serverBatches_complete
  obtain ⟨u, hu⟩ : ∃ u, (handleAll 1 serverBatches.flatten).run syncServer = .ok () u :=
    hreturns drainServer_servicesFit
  obtain ⟨v, hv⟩ := hsync u hu
  have hsent : (match (handleAll 1 serverBatches.flatten).run syncServer with
      | .ok () u => u.trace.countP (· matches .send _ _)
      | .error _ _ => 0) = 3 := by decide +kernel
  rw [hu] at hsent
  exact ⟨u, v, hu, hsent, hv⟩

end Umtp
