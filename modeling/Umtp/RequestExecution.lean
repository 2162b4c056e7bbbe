import Umtp.MpuDrain
import Umtp.RequestRoundTrip
import Umtp.SubmitOutcome

/-! How often the request handler is called for one packet of the receive queue. A reply
that finds no room in the send queue is reported as if the packet had been turned down, so
that it stays queued and is handled again. -/

set_option autoImplicit false

namespace Umtp
open CheckedBuffer StateExcept

variable {σ : Type}

def Event.executes (slot : Fin maxPduCount) : Event → Bool
  | .req _ _ data _ => data.store = .mpuRecv slot
  | _ => false

def World.executions (w : World σ) (slot : Fin maxPduCount) : Nat :=
  w.trace.countP (Event.executes slot)

def mpuDrain : Nat → World σ → World σ
  | 0, w => w
  | n + 1, w =>
    match mpuDrainStep w with
    | .inl w' => mpuDrain n w'
    | .inr result => final result

/-- However long the loop runs, it comes to `k` calls for the packet in `slot`. -/
def ExecutedTimes (k : Nat) (slot : Fin maxPduCount) (w : World σ) : Prop :=
  ∃ rounds, ∀ n ≥ rounds, (mpuDrain n w).executions slot = w.executions slot + k

structure Packet.IsRequest (p : Packet) : Prop where
  version : p.buffer.cells[0]? = some fttpProtocolVersion
  apdu : 1 < p.length.toNat
  type : p.buffer.cells[2]? = some umtpPduRequest

/-- What `service_handler` asks for before it calls a handler: that something comes after the
header, and that the service is registered and has a request handler. -/
def Packet.callsHandler (p : Packet) (services : List (ServiceType σ)) : Bool :=
  match p.buffer.cells[1]?, p.buffer.cells[3]? with
  | some flag, some service =>
    restLen (p.length - 1) (apduHeaderLen flag) != 0 &&
      ((serviceTypeGet services service.toNat).bind ServiceType.reqHandler).isSome
  | _, _ => false

def World.RefusesReply (w : World σ) (m : Mpu) : Prop :=
  w.syncMode = false ∧ m.running = true ∧ (m.queue .send).size = maxPduCount

theorem Packet.IsRequest.accepted {p : Packet} (h : p.IsRequest) : p.Accepted :=
  ⟨h.version, .inr ⟨_, h.type, by decide⟩⟩

def SameExecutions (slot : Fin maxPduCount) (w w' : World σ) : Prop :=
  w'.executions slot = w.executions slot

instance (slot : Fin maxPduCount) : Std.Refl (@SameExecutions σ slot) := ⟨fun _ => rfl⟩

instance (slot : Fin maxPduCount) : IsTrans (World σ) (SameExecutions slot) :=
  ⟨fun _ _ _ h₁ h₂ => h₂.trans h₁⟩

section

variable {slot : Fin maxPduCount}

theorem World.executions_append {w w' : World σ} {es : List Event}
    (h : w'.trace = w.trace ++ es) :
    w'.executions slot = w.executions slot + es.countP (Event.executes slot) := by
  rw [executions, h, List.countP_append, executions]

theorem countP_executes {es : List Event} (h : ∀ e ∈ es, e.executes slot = false) :
    es.countP (Event.executes slot) = 0 := by
  rw [List.countP_eq_zero]
  intro e he
  simp [h e he]

theorem CallsOut.sameExecutions {E : Event → Prop} (hE : ∀ e, E e → e.executes slot = false)
    {w w' : World σ} (h : CallsOut E w w') : SameExecutions slot w w' := by
  obtain ⟨es, app, hes, rfl⟩ := h
  have hnone := countP_executes fun e he => hE e (hes e he)
  exact (World.executions_append rfl).trans (by rw [hnone, Nat.add_zero])

theorem Event.IsSend.not_executes {e : Event} (h : e.IsSend) : e.executes slot = false := by
  cases e with
  | send => rfl
  | _ => exact h.elim

theorem apduSwitch_elsewhere {apdu : Ptr} (hother : apdu.store ≠ .mpuRecv slot) (umtp : Ref)
    (src : UmtpAddr) (pduLen : UInt16) (h : ApduHeader) :
    Moves (@SameExecutions σ slot) (apduSwitch umtp src apdu pduLen h) := by
  have hsend : ∀ w w' : World σ, CallsOut Event.IsSend w w' → SameExecutions slot w w' :=
    fun _ _ hc => hc.sameExecutions fun _ he => he.not_executes
  have hclear : Moves (@SameExecutions σ slot) (clearReplySession h) :=
    clearReplySession_moves (fun _ _ => rfl) h
  unfold apduSwitch
  split
  · apply apduRequest_moves hsend (fun _ _ => rfl) (fun _ _ => rfl)
    intro w w' hcalls
    apply hcalls.sameExecutions
    rintro _ rfl
    exact decide_eq_false hother
  · split
    · apply moves_bind moves_get
      intro w
      apply moves_bind
      · apply (serviceRspHandler_callsOut _ _ _ _ _).weaken
        intro w w' hcalls
        apply hcalls.sameExecutions
        rintro _ rfl
        rfl
      · intro _
        exact moves_bind hclear (fun _ => moves_pure _)
    · split
      · apply moves_bind moves_get
        intro w
        apply moves_bind (readPdu_moves (R := SameExecutions slot) fun _ => rfl)
        intro status
        apply moves_bind
        · apply (serviceErrorHandler_callsOut _ _ _ _).weaken
          intro w w' hcalls
          apply hcalls.sameExecutions
          rintro _ rfl
          rfl
        · intro _
          exact moves_bind hclear (fun _ => moves_pure _)
      · exact moves_bind hclear (fun _ => moves_pure _)

theorem npduHandler_elsewhere {pdu : Ptr} (hother : pdu.store ≠ .mpuRecv slot) (umtp : Ref)
    (src : UmtpAddr) (pduLen : UInt16) :
    Moves (@SameExecutions σ slot) (npduHandler umtp src pdu pduLen) := by
  have hreads : ∀ (w : World σ) i, SameExecutions slot w (w.read i) := fun _ _ => rfl
  have hadd : ∀ k, (pdu.add k).store ≠ .mpuRecv slot := fun _ => hother
  unfold npduHandler npduDecode
  split
  · exact moves_pure _
  · apply moves_bind (readPdu_moves fun w => hreads w _)
    intro version
    split
    · exact moves_pure _
    · apply moves_bind (moves_bind (readPdu_moves fun w => hreads w _) fun _ => moves_pure _)
      intro d
      split
      split
      · unfold apduHandler
        split
        · exact moves_pure _
        · apply moves_bind (apduDecode_moves hreads _)
          intro header
          cases header with
          | none => exact moves_pure _
          | some h => exact apduSwitch_elsewhere (hadd _) umtp src _ h
      · exact moves_pure _

theorem mpuMsgHandle_send_executions :
    Moves (@SameExecutions σ slot) (mpuMsgHandle .send _umtpSendMsg) :=
  mpuMsgHandle_moves (fun _ _ => rfl) fun _ _ =>
    (npduSend_callsOut _ _ _ _).weaken fun _ _ hc =>
      hc.sameExecutions fun _ he => he.not_executes

end

def SameRoute (w w' : World σ) : Prop :=
  w'.syncMode = w.syncMode ∧ w'.mpu = w.mpu ∧ w'.dl = w.dl

instance : Std.Refl (@SameRoute σ) := ⟨fun _ => ⟨rfl, rfl, rfl⟩⟩

instance : IsTrans (World σ) SameRoute :=
  ⟨fun _ _ _ h₁ h₂ => ⟨h₂.1.trans h₁.1, h₂.2.1.trans h₁.2.1, h₂.2.2.trans h₁.2.2⟩⟩

theorem CallsOut.sameRoute {E : Event → Prop} {w w' : World σ} (h : CallsOut E w w') :
    SameRoute w w' := by
  obtain ⟨es, app, -, rfl⟩ := h
  exact ⟨rfl, rfl, rfl⟩

section

variable {w : World σ} {m : Mpu} (hup : w.mpu = some m) (hv : (m.queue .send).Valid)
  (hlink : ∃ dl, w.dl = some dl ∧ LinkAccepts dl) {umtp : Ref} (hu : umtp ≠ 0)

include hup hv hlink hu

theorem _umtpApduSubmit_refuses_iff {apdu : Ptr} {len : UInt16} (h1 : 1 ≤ len.toNat)
    (hlen : len.toNat ≤ maxApdu) (hread : apdu.off + len.toNat ≤ apdu.obj.length)
    (dst : UmtpAddr) :
    Returns (fun r _ => r ≠ 0 ↔ w.RefusesReply m) (_umtpApduSubmit umtp dst apdu len.toNat) w := by
  cases hsync : w.syncMode with
  | true =>
    obtain ⟨dl, hdl, hacc⟩ := hlink
    obtain ⟨r, w', hrun, rfl⟩ := npduSend_returns hu hdl hacc
      (show 0 < (len.toNat : Int) by omega) (by omega) (by simpa using hread) dst
    refine ⟨0, w', ?_, by simp [World.RefusesReply, hsync]⟩
    simpa [_umtpApduSubmit, hu, hsync] using hrun
  | false =>
    have hput : (_umtpApduSubmit umtp dst apdu len.toNat).run w =
        (mpuPut .send dst umtp apdu len.toNat).run w := by
      simp [_umtpApduSubmit, hu, hsync, mpuPutSend]
    cases hrunning : m.running with
    | false =>
      refine ⟨0, w, ?_, by simp [World.RefusesReply, hrunning]⟩
      rw [hput]
      simp [mpuPut, hup, hrunning]
    | true =>
      by_cases hfull : (m.queue .send).size = maxPduCount
      · refine ⟨-enomem, w, hput.trans (mpuPut_full dst umtp hup hrunning hv hfull), ?_⟩
        exact iff_of_true (by decide) ⟨hsync, hrunning, hfull⟩
      · obtain ⟨r, w', hrun, hreplied⟩ :=
          _umtpApduSubmit_returns hup hv hlink hu h1 hlen hread dst
        refine ⟨r, w', hrun, ?_⟩
        rcases hreplied with ⟨rfl, -⟩ | ⟨-, -, hfull'⟩
        · simp [World.RefusesReply, hfull]
        · exact absurd hfull' hfull

theorem apduRequest_refuses_iff (hfit : ServicesFit w.services) {h : ApduHeader}
    (hl : h.decodeLen = apduHeaderLen h.flag) (src : UmtpAddr) (apdu : Ptr) (pduLen : UInt16) :
    Returns (fun r _ => r ≠ 0 ↔ w.RefusesReply m) (apduRequest umtp src apdu pduLen h) w := by
  have hroute : Moves (@SameRoute σ) (apduReply src apdu pduLen h) :=
    apduReply_moves (fun _ _ => ⟨rfl, rfl, rfl⟩) _ _ _ _ fun _ _ hc => hc.sameRoute
  apply Returns.bind ((apduReply_returns src apdu pduLen hl hfit).moves hroute)
  rintro n t ⟨⟨h1, hmax⟩, hsync, hmpu, hdl⟩
  apply Returns.bind (returns_get (Q := fun v u => v = t ∧ u = t) ⟨rfl, rfl⟩)
  rintro _ _ ⟨rfl, rfl⟩
  apply (_umtpApduSubmit_refuses_iff (hmpu.trans hup) hv (hdl ▸ hlink) hu h1 hmax
    (by simpa using hmax) src).weaken
  intro r _ hr
  rw [hr, World.RefusesReply, World.RefusesReply, hsync]

end

theorem apduRequest_executions {slot : Fin maxPduCount} {apdu : Ptr}
    (hstore : apdu.store = .mpuRecv slot) (umtp : Ref) (src : UmtpAddr) (pduLen : UInt16)
    (h : ApduHeader) (w : World σ) :
    (final ((apduRequest umtp src apdu pduLen h).run w)).executions slot =
      w.executions slot + (restLen pduLen h.decodeLen != 0 &&
        ((serviceTypeGet w.services h.service.toNat).bind ServiceType.reqHandler).isSome).toNat := by
  have hsends : ∀ es : List Event, (∀ e ∈ es, e.IsSend) → es.countP (Event.executes slot) = 0 :=
    fun es hes => countP_executes fun e he => (hes e he).not_executes
  have huncalled : ∀ r, (serviceHandler src ⟨h.service.toNat, 0, .block h.decodeLen⟩
      (apdu.add h.decodeLen) (restLen pduLen h.decodeLen)).run w = .ok r w →
      (final ((apduRequest umtp src apdu pduLen h).run w)).executions slot =
        w.executions slot := by
    intro r hservice
    obtain ⟨es, htrace, hes⟩ := apduRequest_uncalled hservice umtp
    rw [World.executions_append htrace, hsends es hes, Nat.add_zero]
  by_cases hrest : restLen pduLen h.decodeLen = 0
  · rw [huncalled _ (serviceHandler_empty hrest)]
    simp [hrest]
  · cases hget : serviceTypeGet w.services (h.service.toNat : Int) with
    | none =>
      rw [huncalled _ (serviceHandler_absent hrest hget)]
      simp
    | some type =>
      cases hf : type.reqHandler with
      | none =>
        rw [huncalled _ (serviceHandler_noHandler hrest hget hf)]
        simp [hf]
      | some f =>
        obtain ⟨es, htrace, hes⟩ := apduRequest_calls src apdu hget hf hrest umtp
        have hcall : (Event.req h.service.toNat src (apdu.add h.decodeLen)
            (handlerLen (restLen pduLen h.decodeLen))).executes slot = true :=
          decide_eq_true hstore
        have hne : (restLen pduLen h.decodeLen != 0) = true := bne_iff_ne.mpr hrest
        rw [World.executions_append htrace, List.countP_cons_of_pos hcall, hsends es hes]
        simp [hne, hf]

/-- A request is refused if its reply is, and its handler is called either way. -/
theorem _umtpHandleMsg_request {w : World σ} {m : Mpu} (h : DrainInv w m) (slot : Fin maxPduCount)
    {p : Packet} (hp : p.data ≠ 0) (hreq : p.IsRequest) :
    Returns (fun r w' => (r ≠ 0 ↔ w.RefusesReply m) ∧
        w'.executions slot = w.executions slot + (p.callsHandler w.services).toNat)
      (_umtpHandleMsg slot p) w := by
  obtain ⟨header, htype, hl, hflag, hservice, hhandle⟩ :=
    Packet.known_header (σ := σ) hreq.version hreq.apdu hreq.type (by decide) slot
  obtain ⟨u, hu⟩ : ∃ u : World σ, u = ((w.read 0).read 0).readFirst
    ⟨.mpuRecv slot, p.buffer.cells, 1⟩ header.decodeLen := ⟨_, rfl⟩
  have hrun := hhandle w hp
  rw [← hu, apduSwitch, if_pos htype] at hrun
  have hup : u.mpu = some m := hu ▸ h.up
  obtain ⟨r, w', hret, hrefuses⟩ := apduRequest_refuses_iff hup h.sendValid (hu ▸ h.link) hp
    (hu ▸ h.services) hl p.addr ⟨.mpuRecv slot, p.buffer.cells, 1⟩ (p.length - 1)
  have hstore : (⟨.mpuRecv slot, p.buffer.cells, 1⟩ : Ptr).store = .mpuRecv slot := rfl
  have hcount := apduRequest_executions hstore p.data p.addr (p.length - 1) header u
  rw [hret] at hcount
  refine ⟨r, w', hrun.trans hret, ?_, ?_⟩
  · rw [hrefuses, hu]
    rfl
  · rw [final_ok] at hcount
    rw [hcount, hu, Packet.callsHandler, hflag, hservice, hl]
    rfl

theorem mpuTaskRound_sameSetup : Moves (@SameSetup σ) mpuTaskRound := by
  apply moves_bind
  · exact mpuMsgHandle_moves (fun _ _ => ⟨rfl, rfl⟩) fun _ _ =>
      npduHandler_moves handlerFrame_sameSetup _ _ _ _
  · intro _
    exact mpuMsgHandle_moves (fun _ _ => ⟨rfl, rfl⟩) fun _ _ =>
      (npduSend_callsOut _ _ _ _).weaken fun _ _ hc => hc.sameSetup

/-- A round handles the oldest packet. It goes, or it has been turned down or refused its
reply; and after the round there is room for a reply. -/
theorem mpuDrainStep_handled {w : World σ} {m : Mpu} (h : DrainInv w m) {s : Fin maxPduCount}
    {ss : List (Fin maxPduCount)} (hslots : (m.queue .recv).slots = s :: ss) :
    ∃ r w₁ w' m', (_umtpHandleMsg s ((m.queue .recv).buffer s)).run w = .ok r w₁ ∧
      mpuDrainStep w = .inl w' ∧ DrainInv w' m' ∧ w'.services = w.services ∧
      (∀ slot, w'.executions slot = w₁.executions slot) ∧
      (m'.queue .recv).buffer = (m.queue .recv).buffer ∧
      (m'.queue .send).size < maxPduCount ∧
      (r = 0 ∧ ((m.queue .recv).buffer s).Accepted ∧ (m'.queue .recv).slots = ss ∨
        r ≠ 0 ∧ (m'.queue .recv).slots = s :: ss ∧
          (¬ ((m.queue .recv).buffer s).Accepted ∨ (m.queue .send).size = maxPduCount)) := by
  obtain ⟨r, w₁, w₂, m₂, hhandle, hrun, hinv, htrace, hcase⟩ :=
    mpuMsgHandle_handled h (ringbufPeek_slots hslots)
  obtain ⟨w', m', hrun', hinv', hrecv, hsend⟩ := mpuMsgHandle_send hinv
  have hround : mpuTaskRound.run w = .ok () w' := by simp [mpuTaskRound, hrun, hrun']
  have hbusy : ¬ mpuIdle m = true := by
    rw [mpuIdle_iff]
    rintro ⟨-, hnil⟩
    rw [← (m.queue .recv).slots_map, hslots] at hnil
    simp at hnil
  have hroom : (m'.queue .send).size < maxPduCount := by
    have hlen := congrArg List.length hsend
    have hle := hinv.sendValid.size_le
    have hmax : maxPduCount = 16 := rfl
    simp only [List.length_tail, RingBuffer.contents_length] at hlen
    omega
  refine ⟨r, w₁, w', m', hhandle, mpuDrainStep_round h.up hbusy hround, hinv',
    (mpuTaskRound_sameSetup.of_ok hround).1, fun slot => ?_, ?_, hroom, ?_⟩
  · have hsame : SameExecutions slot w₂ w' := mpuMsgHandle_send_executions.of_ok hrun'
    rw [hsame, World.executions, htrace, World.executions]
  · rw [hrecv]
    rcases hcase with ⟨-, -, hpop, -⟩ | ⟨-, rfl, -⟩
    · rw [hpop, ringbufPop_buffer]
    · rfl
  · rw [hrecv]
    rcases hcase with ⟨hr, hacc, hpop, -⟩ | ⟨hr, rfl, hwhy⟩
    · exact .inl ⟨hr, hacc, hpop ▸ ringbufPop_slots h.recvValid hslots⟩
    · exact .inr ⟨hr, hslots, hwhy⟩

theorem mpuDrain_again {w w' : World σ} (h : mpuDrainStep w = .inl w') (n : Nat) :
    mpuDrain (n + 1) w = mpuDrain n w' := by simp [mpuDrain, h]

theorem mpuDrain_idle_self {w : World σ} {m : Mpu} (hup : w.mpu = some m)
    (hidle : mpuIdle m = true) (n : Nat) : mpuDrain n w = w := by
  cases n with
  | zero => rfl
  | succ n => simp [mpuDrain, mpuDrainStep_idle hup hidle]

theorem mpuDrain_of_ends {w : World σ} {result : EStateM.Result Stop (World σ) Unit}
    (h : FuelLoop.Ends mpuDrainStep w result) :
    ∃ rounds, ∀ n ≥ rounds, mpuDrain n w = final result := by
  obtain ⟨k, hk⟩ := h
  refine ⟨k, fun n hn => ?_⟩
  have hrun := FuelLoop.run_mono hn hk
  clear hk hn
  induction n generalizing w with
  | zero => simp [FuelLoop.run] at hrun
  | succ n ih =>
    cases hstep : mpuDrainStep w with
    | inl w' =>
      rw [mpuDrain_again hstep]
      exact ih ((FuelLoop.run_again hstep n).symm.trans hrun)
    | inr result' =>
      obtain rfl := Option.some.inj ((FuelLoop.run_leave hstep n).symm.trans hrun)
      simp [mpuDrain, hstep]

theorem ExecutedTimes.ends {k : Nat} {slot : Fin maxPduCount} {w w' : World σ}
    (h : ExecutedTimes k slot w) (hends : FuelLoop.Ends mpuDrainStep w (.ok () w')) :
    w'.executions slot = w.executions slot + k := by
  obtain ⟨a, ha⟩ := h
  obtain ⟨b, hb⟩ := mpuDrain_of_ends hends
  have hk := ha (max a b) (Nat.le_max_left a b)
  rwa [hb (max a b) (Nat.le_max_right a b)] at hk

theorem ExecutedTimes.unique {k k' : Nat} {slot : Fin maxPduCount} {w : World σ}
    (h : ExecutedTimes k slot w) (h' : ExecutedTimes k' slot w) : k = k' := by
  obtain ⟨a, ha⟩ := h
  obtain ⟨b, hb⟩ := h'
  have hk := ha (max a b) (Nat.le_max_left a b)
  have hk' := hb (max a b) (Nat.le_max_right a b)
  omega

theorem ExecutedTimes.round {j k : Nat} {slot : Fin maxPduCount} {w w' : World σ}
    (hstep : mpuDrainStep w = .inl w') (hj : w'.executions slot = w.executions slot + j)
    (h : ExecutedTimes k slot w') : ExecutedTimes (j + k) slot w := by
  obtain ⟨a, ha⟩ := h
  refine ⟨a + 1, fun n hn => ?_⟩
  obtain ⟨n, rfl⟩ : ∃ l, n = l + 1 := ⟨n - 1, by omega⟩
  rw [mpuDrain_again hstep, ha n (by omega), hj, Nat.add_assoc]

section

variable {w : World σ} {m : Mpu} (h : DrainInv w m) {slot : Fin maxPduCount}

include h

theorem DrainInv.slot_data {s : Fin maxPduCount} (hs : s ∈ (m.queue .recv).slots) :
    ((m.queue .recv).buffer s).data ≠ 0 := by
  apply h.recvData
  rw [← (m.queue .recv).slots_map]
  exact List.mem_map_of_mem hs

theorem mpuDrainStep_sending (hslots : (m.queue .recv).slots = []) :
    (∀ n, mpuDrain n w = w) ∨
      ∃ w' m', mpuDrainStep w = .inl w' ∧ DrainInv w' m' ∧
        w'.executions slot = w.executions slot ∧ (m'.queue .recv).slots = [] := by
  by_cases hidle : mpuIdle m = true
  · exact .inl (mpuDrain_idle_self h.up hidle)
  · have hc : (m.queue .recv).contents = [] := by
      rw [← RingBuffer.slots_map, hslots, List.map_nil]
    obtain ⟨w', m', hrun, hinv, hrecv, -⟩ := mpuMsgHandle_send h
    have hround : mpuTaskRound.run w = .ok () w' := by
      simp [mpuTaskRound, mpuMsgHandle_nil _ h.up hc, hrun]
    exact .inr ⟨w', m', mpuDrainStep_round h.up hidle hround, hinv,
      mpuMsgHandle_send_executions.of_ok hrun, hrecv ▸ hslots⟩

theorem mpuDrainStep_ahead {s : Fin maxPduCount} {ss : List (Fin maxPduCount)}
    (hslots : (m.queue .recv).slots = s :: ss) (hne : s ≠ slot) :
    ∃ w' m', mpuDrainStep w = .inl w' ∧ DrainInv w' m' ∧ w'.services = w.services ∧
      w'.executions slot = w.executions slot ∧
      (m'.queue .recv).buffer = (m.queue .recv).buffer ∧
      (m'.queue .send).size < maxPduCount ∧
      (((m.queue .recv).buffer s).Accepted ∧ (m'.queue .recv).slots = ss ∨
        (m'.queue .recv).slots = s :: ss ∧
          (¬ ((m.queue .recv).buffer s).Accepted ∨ (m.queue .send).size = maxPduCount)) := by
  obtain ⟨r, w₁, w', m', hhandle, hstep, hinv, hservices, hcount, hbuffer, hroom, hcase⟩ :=
    mpuDrainStep_handled h hslots
  have hstore : Store.mpuRecv s ≠ .mpuRecv slot := fun he => hne (Store.mpuRecv.inj he)
  have hsame : SameExecutions slot w w₁ :=
    Moves.of_ok (npduHandler_elsewhere hstore _ _ _) hhandle
  refine ⟨w', m', hstep, hinv, hservices, (hcount slot).trans hsame, hbuffer, hroom, ?_⟩
  rcases hcase with ⟨-, hacc, hrest⟩ | ⟨-, hkeep, hwhy⟩
  · exact .inl ⟨hacc, hrest⟩
  · exact .inr ⟨hkeep, hwhy⟩

/-- A round that handles the packet itself: the count goes up, and the packet is popped
unless its reply is refused. -/
theorem mpuDrainStep_request {after : List (Fin maxPduCount)}
    (hslots : (m.queue .recv).slots = slot :: after)
    (hreq : ((m.queue .recv).buffer slot).IsRequest) :
    ∃ w' m', mpuDrainStep w = .inl w' ∧ DrainInv w' m' ∧ w'.services = w.services ∧
      w'.executions slot = w.executions slot +
        (((m.queue .recv).buffer slot).callsHandler w.services).toNat ∧
      (m'.queue .recv).buffer = (m.queue .recv).buffer ∧
      (m'.queue .send).size < maxPduCount ∧
      (¬ w.RefusesReply m ∧ (m'.queue .recv).slots = after ∨
        w.RefusesReply m ∧ (m'.queue .recv).slots = slot :: after) := by
  obtain ⟨r, w₁, w', m', hhandle, hstep, hinv, hservices, hcount, hbuffer, hroom, hcase⟩ :=
    mpuDrainStep_handled h hslots
  obtain ⟨r', w₁', hhandle', hrefuses, hexec⟩ :=
    _umtpHandleMsg_request h slot (h.slot_data (by simp [hslots])) hreq
  cases hhandle.symm.trans hhandle'
  refine ⟨w', m', hstep, hinv, hservices, (hcount slot).trans hexec, hbuffer, hroom, ?_⟩
  rcases hcase with ⟨hr, -, hrest⟩ | ⟨hr, hkeep, -⟩
  · exact .inl ⟨fun href => hrefuses.mpr href hr, hrest⟩
  · exact .inr ⟨hrefuses.mp hr, hkeep⟩

end

def Unreached (slot : Fin maxPduCount) (ring : RingBuffer Packet maxPduCount) : Prop :=
  ∀ before after, ring.slots = before ++ slot :: after → ∃ s ∈ before, ¬ (ring.buffer s).Accepted

theorem executedTimes_unreached {w : World σ} {m : Mpu} (h : DrainInv w m)
    {slot : Fin maxPduCount} (hun : Unreached slot (m.queue .recv)) : ExecutedTimes 0 slot w := by
  suffices hsame : ∀ n, (mpuDrain n w).executions slot = w.executions slot from
    ⟨0, fun n _ => hsame n⟩
  intro n
  induction n generalizing w m with
  | zero => rfl
  | succ n ih =>
    cases hslots : (m.queue .recv).slots with
    | nil =>
      rcases mpuDrainStep_sending h hslots with hidle | ⟨w', m', hstep, hinv, hsame, hnil⟩
      · rw [hidle]
      · rw [mpuDrain_again hstep, ih hinv, hsame]
        intro before after hslots'
        simp [hnil] at hslots'
    | cons s ss =>
      have hne : s ≠ slot := by
        rintro rfl
        obtain ⟨t, ht, -⟩ := hun [] ss hslots
        simp at ht
      obtain ⟨w', m', hstep, hinv, -, hsame, hbuffer, -, hcase⟩ := mpuDrainStep_ahead h hslots hne
      rw [mpuDrain_again hstep, ih hinv, hsame]
      intro before after hslots'
      rw [hbuffer]
      rcases hcase with ⟨hacc, hrest⟩ | ⟨hkeep, -⟩
      · obtain ⟨t, ht, hrej⟩ := hun (s :: before) after (by rw [hslots, ← hrest, hslots']; rfl)
        cases ht with
        | head => exact absurd hacc hrej
        | tail _ ht => exact ⟨t, ht, hrej⟩
      · exact hun before after (by rw [hslots, ← hkeep, hslots'])

section

variable {w : World σ} {m : Mpu} {slot : Fin maxPduCount}
  {before after : List (Fin maxPduCount)}

theorem unreached_after {ring ring' : RingBuffer Packet maxPduCount} (hv : ring.Valid)
    (hslots : ring.slots = slot :: after) (hrest : ring'.slots = after) :
    Unreached slot ring' := by
  intro pre post hpre
  have hnodup := ring.slots_nodup hv
  rw [hslots, ← hrest, hpre] at hnodup
  simp at hnodup

theorem executedTimes_reached (h : DrainInv w m)
    (hslots : (m.queue .recv).slots = before ++ slot :: after)
    (hroom : (m.queue .send).size < maxPduCount)
    (hreq : ((m.queue .recv).buffer slot).IsRequest)
    (hacc : ∀ s ∈ before, ((m.queue .recv).buffer s).Accepted) :
    ExecutedTimes (((m.queue .recv).buffer slot).callsHandler w.services).toNat slot w := by
  induction before generalizing w m with
  | nil =>
    obtain ⟨w', m', hstep, hinv, -, hexec, -, -, hcase⟩ := mpuDrainStep_request h hslots hreq
    rcases hcase with ⟨-, hrest⟩ | ⟨⟨-, -, hfull⟩, -⟩
    · have hgone := unreached_after h.recvValid hslots hrest
      exact (executedTimes_unreached hinv hgone).round hstep hexec
    · omega
  | cons s before ih =>
    have hnodup := (m.queue .recv).slots_nodup h.recvValid
    have hne : s ≠ slot := by
      rintro rfl
      simp [hslots] at hnodup
    obtain ⟨w', m', hstep, hinv, hservices, hsame, hbuffer, hroom', hcase⟩ :=
      mpuDrainStep_ahead h hslots hne
    rcases hcase with ⟨-, hrest⟩ | ⟨-, hrej | hfull⟩
    · have hlater := ih hinv hrest hroom' (hbuffer ▸ hreq)
        (by rw [hbuffer]; exact fun t ht => hacc t (List.mem_cons_of_mem s ht))
      rw [hbuffer, hservices] at hlater
      have hround := hlater.round (j := 0) hstep hsame
      rwa [Nat.zero_add] at hround
    · exact absurd (hacc s List.mem_cons_self) hrej
    · omega

theorem executedTimes_request (h : DrainInv w m)
    (hslots : (m.queue .recv).slots = before ++ slot :: after)
    (hreq : ((m.queue .recv).buffer slot).IsRequest)
    (hacc : ∀ s ∈ before, ((m.queue .recv).buffer s).Accepted) :
    (¬ (before = [] ∧ w.RefusesReply m) →
        ExecutedTimes (((m.queue .recv).buffer slot).callsHandler w.services).toNat slot w) ∧
      (before = [] ∧ w.RefusesReply m →
        ExecutedTimes (2 * (((m.queue .recv).buffer slot).callsHandler w.services).toNat) slot
          w) := by
  cases before with
  | nil =>
    obtain ⟨w', m', hstep, hinv, hservices, hexec, hbuffer, hroom, hcase⟩ :=
      mpuDrainStep_request h hslots hreq
    rcases hcase with ⟨hroom', hrest⟩ | ⟨hrefuses, hkeep⟩
    · have hgone := unreached_after h.recvValid hslots hrest
      exact ⟨fun _ => (executedTimes_unreached hinv hgone).round hstep hexec,
        fun hfull => absurd hfull.2 hroom'⟩
    · have hfirst : (m'.queue .recv).slots = [] ++ slot :: after := hkeep
      have hagain := executedTimes_reached hinv hfirst hroom (hbuffer ▸ hreq) (by simp)
      rw [hbuffer, hservices] at hagain
      refine ⟨fun hfull => absurd ⟨rfl, hrefuses⟩ hfull, fun _ => ?_⟩
      rw [Nat.two_mul]
      exact hagain.round hstep hexec
  | cons s before =>
    have hnodup := (m.queue .recv).slots_nodup h.recvValid
    have hne : s ≠ slot := by
      rintro rfl
      simp [hslots] at hnodup
    obtain ⟨w', m', hstep, hinv, hservices, hsame, hbuffer, hroom, hcase⟩ :=
      mpuDrainStep_ahead h hslots hne
    have hreached : ∀ pre, (m'.queue .recv).slots = pre ++ slot :: after →
        (∀ t ∈ pre, t ∈ s :: before) →
        ExecutedTimes (((m.queue .recv).buffer slot).callsHandler w.services).toNat slot w := by
      intro pre hpre hsub
      have hlater := executedTimes_reached hinv hpre hroom (hbuffer ▸ hreq)
        (by rw [hbuffer]; exact fun t ht => hacc t (hsub t ht))
      rw [hbuffer, hservices] at hlater
      have hround := hlater.round (j := 0) hstep hsame
      rwa [Nat.zero_add] at hround
    refine ⟨fun _ => ?_, by simp⟩
    rcases hcase with ⟨-, hrest⟩ | ⟨hkeep, -⟩
    · exact hreached before hrest fun t ht => List.mem_cons_of_mem s ht
    · exact hreached (s :: before) hkeep fun t ht => ht

/-- Turned down packets ahead keep the packet from being handled at all. -/
theorem executedTimes_blocked (h : DrainInv w m)
    (hslots : (m.queue .recv).slots = before ++ slot :: after)
    (hrej : ∃ s ∈ before, ¬ ((m.queue .recv).buffer s).Accepted) : ExecutedTimes 0 slot w := by
  apply executedTimes_unreached h
  intro pre post hpre
  have hnodup := (m.queue .recv).slots_nodup h.recvValid
  rw [hslots] at hnodup hpre
  simp only [List.nodup_append, List.nodup_cons] at hnodup
  obtain ⟨-, ⟨hafter, -⟩, hbefore⟩ := hnodup
  have hnot : slot ∉ before := fun hs => hbefore slot hs slot List.mem_cons_self rfl
  obtain ⟨rfl, -, -⟩ := (List.append_cons_inj_of_notMem hnot hafter).mp hpre
  exact hrej

theorem request_executed_once_iff (h : DrainInv w m)
    (hslots : (m.queue .recv).slots = before ++ slot :: after)
    (hreq : ((m.queue .recv).buffer slot).IsRequest) :
    ExecutedTimes 1 slot w ↔
      (∀ s ∈ before, ((m.queue .recv).buffer s).Accepted) ∧
        ((m.queue .recv).buffer slot).callsHandler w.services = true ∧
        ¬ (before = [] ∧ w.RefusesReply m) := by
  by_cases hacc : ∀ s ∈ before, ((m.queue .recv).buffer s).Accepted
  · obtain ⟨honce, htwice⟩ := executedTimes_request h hslots hreq hacc
    by_cases hfull : before = [] ∧ w.RefusesReply m
    · refine iff_of_false (fun hone => ?_) (fun hcond => hcond.2.2 hfull)
      have := hone.unique (htwice hfull)
      omega
    · cases hcalls : ((m.queue .recv).buffer slot).callsHandler w.services with
      | false =>
        refine iff_of_false (fun hone => ?_) (by simp)
        have hzero := hone.unique (honce hfull)
        simp [hcalls] at hzero
      | true =>
        have hone := honce hfull
        rw [hcalls] at hone
        exact iff_of_true hone ⟨hacc, rfl, hfull⟩
  · refine iff_of_false (fun hone => ?_) (fun hcond => hacc hcond.1)
    push Not at hacc
    have := hone.unique (executedTimes_blocked h hslots hacc)
    omega

end

def requestPacket : Packet where
  length := 5
  buffer := ⟨[fttpProtocolVersion, 0, umtpPduRequest, 5, 7] ++ List.replicate 1995 0, by
    rw [List.length_append, List.length_replicate]
    rfl⟩
  addr := .zero
  data := 1

theorem requestPacket_isRequest : requestPacket.IsRequest := ⟨rfl, by decide, rfl⟩

def requestRing : RingBuffer Packet maxPduCount := ⟨fun _ => requestPacket, 1, 0⟩

theorem requestRing_slots : requestRing.slots = [] ++ 0 :: [] := rfl

theorem requestRing_contents : requestRing.contents = [requestPacket] := rfl

/-- A server of service 5 that has received the request, with packets still to be sent. -/
def requestServer (sendQueue : RingBuffer Packet maxPduCount) : World Unit :=
  { silentServer with
    dl := some ⟨fun _ _ _ => pure 0⟩
    mpu := some ⟨requestRing, sendQueue, true⟩ }

theorem requestServer_inv {sendQueue : RingBuffer Packet maxPduCount} (hv : sendQueue.Valid)
    (hsend : ∀ p ∈ sendQueue.contents, p.Sendable) :
    DrainInv (requestServer sendQueue) ⟨requestRing, sendQueue, true⟩ where
  up := rfl
  recvValid := show requestRing.Valid from ⟨by decide, by decide, by decide⟩
  sendValid := hv
  link := ⟨_, rfl, fun s _ _ _ _ _ _ _ => ⟨s, rfl⟩⟩
  services := by
    intro type htype f hf s src id data len
    obtain rfl := List.mem_singleton.mp htype
    cases hf
    exact ⟨show 4 + 0 ≤ maxApdu by decide, fun _ => ⟨show 4 + 0 ≤ maxApdu by decide, by simp [silentHandler]⟩⟩
  recvData p hp := by
    obtain rfl := List.mem_singleton.mp (requestRing_contents ▸ hp)
    decide
  sendable := hsend

theorem request_executed_once :
    ExecutedTimes 1 0 (requestServer (ringbufInit fun _ => .zero)) := by
  have hv : (ringbufInit fun _ : Fin maxPduCount => Packet.zero).Valid :=
    ringbufInit_valid _ (by decide) (by decide)
  apply (request_executed_once_iff (requestServer_inv hv (by simp)) requestRing_slots
    requestPacket_isRequest).mpr
  refine ⟨by simp, rfl, ?_⟩
  rintro ⟨-, -, -, hfull⟩
  exact absurd hfull (by decide)

theorem fullRing_sendable : ∀ p ∈ fullRing.contents, p.Sendable := by
  intro p hp
  obtain ⟨i, -, rfl⟩ := List.mem_map.mp hp
  exact show queuedPacket.Sendable from ⟨by decide, by decide, by decide⟩

/-- The reply finds the queue full, one packet is sent, and the request is handled again. -/
theorem request_executed_twice :
    ¬ ExecutedTimes 1 0 (requestServer fullRing) ∧
      ∃ w, FuelLoop.Ends mpuDrainStep (requestServer fullRing) (.ok () w) ∧
        w.executions 0 = 2 := by
  have hinv := requestServer_inv fullRing_valid fullRing_sendable
  have htwice : ExecutedTimes 2 0 (requestServer fullRing) :=
    (executedTimes_request hinv requestRing_slots requestPacket_isRequest (by simp)).2
      ⟨rfl, rfl, rfl, fullRing_size⟩
  refine ⟨fun hone => absurd (hone.unique htwice) (by decide), ?_⟩
  have haccepted : ∀ p ∈ requestRing.contents, p.Accepted := by
    intro p hp
    obtain rfl := List.mem_singleton.mp (requestRing_contents ▸ hp)
    exact requestPacket_isRequest.accepted
  obtain ⟨w, hends, -⟩ := mpu_drain_ends hinv haccepted
  exact ⟨w, hends, htwice.ends hends⟩

end Umtp
