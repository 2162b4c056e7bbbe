import Mathlib.Algebra.Order.BigOperators.Group.Finset
import Umtp.MpuDrain
import Umtp.OpenNetwork
import Umtp.SessionMap

/-! How much a node sends: no more than what it has been asked for, and what it has received. -/

set_option autoImplicit false

namespace Umtp
open CheckedBuffer StateExcept FiniteRun

variable {ι σ : Type}

instance : DecidablePred Event.IsSend
  | .send _ _ => isTrue trivial
  | .req _ _ _ _ | .rsp _ _ _ _ _ | .error _ _ _ _ | .timeout _ _ _ _ _ => isFalse id

def World.sent (w : World σ) : Nat := w.trace.countP (fun e => e.IsSend)

def Mpu.queued (m : Mpu) : Nat := (m.queue .recv).size + (m.queue .send).size

def World.queued (w : World σ) : Nat := w.mpu.elim 0 Mpu.queued

def Session.retriesLeft (apduRetry : UInt8) (x : Session) : Nat :=
  if x.waiting then apduRetry.toNat - x.retry.toNat else 0

def SessionState.retriesLeft (apduRetry : UInt8) (s : SessionState) : Nat :=
  ∑ i, (s.session i).retriesLeft apduRetry

/-- What has been sent, and what may be without anything new coming. -/
def World.load (w : World σ) : Nat :=
  w.sent + w.queued + w.sessions.retriesLeft w.apduRetry

structure Spends (k : Nat) (w w' : World σ) : Prop where
  apduRetry : w'.apduRetry = w.apduRetry
  dl : w'.dl = w.dl
  load : w'.load ≤ w.load + k

theorem Spends.refl (w : World σ) : Spends 0 w w := ⟨rfl, rfl, Nat.le_add_right _ _⟩

theorem Spends.trans {j k : Nat} {u v w : World σ} (h : Spends j u v) (h' : Spends k v w) :
    Spends (j + k) u w := by
  refine ⟨h'.apduRetry.trans h.apduRetry, h'.dl.trans h.dl, ?_⟩
  have h₁ := h.load
  have h₂ := h'.load
  omega

theorem Spends.weaken {j k : Nat} {u v : World σ} (h : Spends j u v) (hjk : j ≤ k) :
    Spends k u v := ⟨h.apduRetry, h.dl, Nat.le_trans h.load (Nat.add_le_add_left hjk _)⟩

structure Quiet (w w' : World σ) : Prop where
  apduRetry : w'.apduRetry = w.apduRetry
  dl : w'.dl = w.dl
  mpu : w'.mpu = w.mpu
  sent : w'.sent = w.sent
  retriesLeft : ∀ i r, (w'.sessions.session i).retriesLeft r ≤ (w.sessions.session i).retriesLeft r

theorem quiet_of_eq {w w' : World σ} (hr : w'.apduRetry = w.apduRetry) (hdl : w'.dl = w.dl)
    (hm : w'.mpu = w.mpu) (ht : w'.trace = w.trace) (hs : w'.sessions = w.sessions) :
    Quiet w w' :=
  ⟨hr, hdl, hm, by rw [World.sent, World.sent, ht], fun i r => by rw [hs]⟩

instance : Std.Refl (@Quiet σ) := ⟨fun _ => quiet_of_eq rfl rfl rfl rfl rfl⟩

instance : IsTrans (World σ) Quiet where
  trans _ _ _ h h' := ⟨h'.apduRetry.trans h.apduRetry, h'.dl.trans h.dl, h'.mpu.trans h.mpu,
    h'.sent.trans h.sent, fun i r => Nat.le_trans (h'.retriesLeft i r) (h.retriesLeft i r)⟩

theorem Quiet.spends {w w' : World σ} (h : Quiet w w') : Spends 0 w w' := by
  refine ⟨h.apduRetry, h.dl, ?_⟩
  have hleft : w'.sessions.retriesLeft w'.apduRetry ≤ w.sessions.retriesLeft w.apduRetry := by
    rw [h.apduRetry]
    exact Finset.sum_le_sum fun i _ => h.retriesLeft i _
  have hqueued : w'.queued = w.queued := by rw [World.queued, World.queued, h.mpu]
  rw [World.load, World.load, h.sent, hqueued]
  omega

theorem Quiet.before {k : Nat} {u v w : World σ} (h : Quiet u v) (h' : Spends k v w) :
    Spends k u w := by
  have hall := h.spends.trans h'
  rwa [Nat.zero_add] at hall

theorem CallsOut.quiet {E : Event → Prop} (hE : ∀ e, E e → ¬ e.IsSend) {w w' : World σ}
    (h : CallsOut E w w') : Quiet w w' := by
  obtain ⟨es, app, hes, rfl⟩ := h
  refine ⟨rfl, rfl, rfl, ?_, fun _ _ => Nat.le_refl _⟩
  have hnone : es.countP (fun e => e.IsSend) = 0 := by
    rw [List.countP_eq_zero]
    intro e he
    simpa using hE e (hes e he)
  rw [World.sent, World.sent, List.countP_append, hnone, Nat.add_zero]

theorem umtpSessionClear_quiet (w : World σ) (id : UInt8) :
    Quiet w { w with sessions := umtpSessionClear id w.sessions } := by
  refine ⟨rfl, rfl, rfl, rfl, fun i r => ?_⟩
  unfold umtpSessionClear
  split
  · rename_i k hk
    dsimp only
    by_cases hik : i = k
    · subst hik
      rw [SessionState.modifySlot_same]
      exact Nat.zero_le _
    · rw [SessionState.modifySlot_other _ hik]
  · exact Nat.le_refl _

theorem memcpy_ok {τ : Type} {store : Store} {n : Nat} {dst dst' : Buf UInt8 n} {off len : Nat}
    {src : Ptr} {s t : τ} (hrun : (memcpy store dst off src len).run s = .ok dst' t) :
    s = t ∧ off + len ≤ n := by
  have hsame : Moves (fun s t : τ => s = t) (memcpy store dst off src len) :=
    @memcpy_moves τ n _ ⟨fun _ => rfl⟩ store dst off src len
  refine ⟨hsame.of_ok hrun, ?_⟩
  by_cases hread : src.off + len ≤ src.obj.length
  · by_contra hover
    rw [memcpy_overrun hread (by omega)] at hrun
    cases hrun
  · simp [memcpy, hread] at hrun

theorem npduSend_ok {umtp : Ref} {dst : UmtpAddr} {data : Ptr} {len r : Int} {w w' : World σ}
    (hrun : (npduSend umtp dst data len).run w = .ok r w') :
    (r ≠ 0 ∧ w' = w) ∨ ∃ (dl : UmtpDl σ) (tmp : Buf UInt8 maxNpdu) (app : σ), w.dl = some dl ∧
      0 < len ∧ 1 + sizeT len ≤ maxNpdu ∧
      (dl.sendData dst ⟨.npduTmp, tmp.cells, 0⟩ (1 + len)).run w.app = .ok r app ∧
      ∃ npdu, w' = { w with app, trace := w.trace ++ [.send dst npdu] } := by
  unfold npduSend at hrun
  split at hrun
  · cases hrun
    exact .inl ⟨by decide, rfl⟩
  · rename_i hpos
    obtain ⟨⟨tmp, off⟩, u, hhead, hrun⟩ := of_bind_ok hrun
    have hu : w = u ∧ off = 1 := by
      obtain ⟨tmp₁, v, hpoke, hret⟩ := of_bind_ok hhead
      unfold poke at hpoke
      split at hpoke <;> cases hpoke
      cases hret
      exact ⟨rfl, rfl⟩
    obtain ⟨rfl, rfl⟩ := hu
    obtain ⟨tmp', v, hcopy, hrun⟩ := of_bind_ok hrun
    obtain ⟨rfl, hfit⟩ := memcpy_ok hcopy
    by_cases hnull : umtp = 0
    · rw [if_pos hnull] at hrun
      obtain ⟨_, v, hthrow, -⟩ := of_bind_ok hrun
      cases hthrow
    · rw [if_neg hnull] at hrun
      obtain ⟨v, _, hget, hrun⟩ := of_bind_ok hrun
      cases hget
      rcases Option.eq_none_or_eq_some w.dl with hdl | ⟨dl, hdl⟩
      · rw [hdl] at hrun
        cases hrun
        exact .inl ⟨by decide, rfl⟩
      · rw [hdl] at hrun
        dsimp only at hrun
        rw [sendData_run] at hrun
        split at hrun
        · rename_i r' app hsend
          cases hrun
          exact .inr ⟨dl, tmp', app, hdl, by omega, hfit, hsend, _, rfl⟩
        · cases hrun

def World.Accepted (w : World σ) : Prop := ∀ dl, w.dl = some dl → LinkAccepts dl

theorem World.sent_send (w : World σ) (app : σ) (dst : UmtpAddr) (npdu : List UInt8) :
    World.sent { w with app, trace := w.trace ++ [.send dst npdu] } = w.sent + 1 := by
  have hsend : (Event.send dst npdu).IsSend := trivial
  simp [World.sent, hsend]

theorem npduSend_spends {umtp : Ref} {dst : UmtpAddr} {data : Ptr} {len r : Int} {w w' : World σ}
    (hlink : w.Accepted) (hlen : len < 2 ^ 64)
    (hrun : (npduSend umtp dst data len).run w = .ok r w') :
    Spends (if r = 0 then 1 else 0) w w' ∧ w'.sessions = w.sessions ∧ w'.mpu = w.mpu := by
  rcases npduSend_ok hrun with ⟨hr, rfl⟩ | ⟨dl, tmp, app, hdl, hpos, hfit, hsend, npdu, rfl⟩
  · rw [if_neg hr]
    exact ⟨.refl _, rfl, rfl⟩
  · have hmax : (maxNpdu : Int) = 1025 := rfl
    have hmax' : maxNpdu = 1025 := rfl
    rw [sizeT_of_nonneg (Int.le_of_lt hpos) hlen] at hfit
    obtain ⟨app', htakes⟩ := hlink dl hdl w.app dst ⟨.npduTmp, tmp.cells, 0⟩ (1 + len) (by omega)
      (by omega) rfl (Buf.length_cells _)
    rw [htakes] at hsend
    cases hsend
    rw [if_pos rfl]
    refine ⟨⟨rfl, rfl, ?_⟩, rfl, rfl⟩
    rw [World.load, World.load, w.sent_send]
    show w.sent + 1 + w.queued + w.sessions.retriesLeft w.apduRetry ≤ _
    omega

theorem Mpu.queued_setQueue (m : Mpu) (q : QueueName) (ring : RingBuffer Packet maxPduCount) :
    (m.setQueue q ring).queued + (m.queue q).size = m.queued + ring.size := by
  cases q <;> simp [queued, queue, setQueue] <;> omega

theorem World.load_setQueue {w : World σ} {m : Mpu} (hm : w.mpu = some m) (q : QueueName)
    (ring : RingBuffer Packet maxPduCount) :
    (w.setQueue q ring).load + (m.queue q).size = w.load + ring.size := by
  have hqueued := m.queued_setQueue q ring
  have hafter : (w.setQueue q ring).queued = (m.setQueue q ring).queued := by
    simp [World.queued, World.setQueue, hm]
  have hbefore : w.queued = m.queued := by simp [World.queued, hm]
  have hsent : (w.setQueue q ring).sent = w.sent := rfl
  have hleft : (w.setQueue q ring).sessions.retriesLeft (w.setQueue q ring).apduRetry =
      w.sessions.retriesLeft w.apduRetry := rfl
  rw [World.load, World.load, hafter, hbefore, hsent, hleft]
  omega

def World.QueuesValid (w : World σ) : Prop := ∀ m, w.mpu = some m → ∀ q, (m.queue q).Valid

theorem mpuPut_spends {q : QueueName} {addr : UmtpAddr} {data : Ref} {msg : Ptr} {len r : Int}
    {w w' : World σ} (hv : w.QueuesValid)
    (hrun : (mpuPut q addr data msg len).run w = .ok r w') :
    Spends (if r = 0 then 1 else 0) w w' := by
  cases hm : w.mpu with
  | none =>
    simp only [mpuPut, EStateM.run_bind, EStateM.run_get, hm] at hrun
    cases hrun
    exact (Spends.refl w).weaken (Nat.zero_le _)
  | some m =>
    rcases mpuPut_packet hm (hv m hm q) hrun with rfl | ⟨rfl, ring, pkt, rfl, -, hcont, -⟩
    · exact (Spends.refl _).weaken (Nat.zero_le _)
    · have hsize : ring.size = (m.queue q).size + 1 := by
        rw [← ring.contents_length, hcont]
        simp
      have hload := w.load_setQueue hm q ring
      exact ⟨rfl, rfl, by rw [if_pos rfl]; omega⟩

theorem _umtpApduSubmit_spends {umtp : Ref} {dst : UmtpAddr} {apdu : Ptr} {len r : Int}
    {w w' : World σ} (hlink : w.Accepted) (hv : w.QueuesValid) (hlen : len < 2 ^ 64)
    (hrun : (_umtpApduSubmit umtp dst apdu len).run w = .ok r w') :
    Spends (if r = 0 then 1 else 0) w w' := by
  unfold _umtpApduSubmit at hrun
  split at hrun
  · obtain ⟨_, u, hthrow, -⟩ := of_bind_ok hrun
    cases hthrow
  · obtain ⟨u, _, hget, hrun⟩ := of_bind_ok hrun
    cases hget
    split at hrun
    · exact mpuPut_spends hv hrun
    · exact (npduSend_spends hlink hlen hrun).1

theorem Quiet.accepted {w w' : World σ} (h : Quiet w w') (hlink : w.Accepted) : w'.Accepted := by
  intro dl hdl
  rw [h.dl] at hdl
  exact hlink dl hdl

theorem Quiet.queuesValid {w w' : World σ} (h : Quiet w w') (hv : w.QueuesValid) :
    w'.QueuesValid := by
  intro m hm
  rw [h.mpu] at hm
  exact hv m hm

theorem clearReplySession_quiet (h : ApduHeader) : Moves (@Quiet σ) (clearReplySession h) :=
  clearReplySession_moves umtpSessionClear_quiet h

theorem readPdu_quiet (pdu : Ptr) (i : Nat) : Moves (@Quiet σ) (readPdu pdu i) :=
  readPdu_moves fun _ => quiet_of_eq rfl rfl rfl rfl rfl

theorem apduReply_quiet (src : UmtpAddr) (apdu : Ptr) (pduLen : UInt16) (h : ApduHeader) :
    Moves (@Quiet σ) (apduReply src apdu pduLen h) := by
  apply apduReply_moves (fun _ _ => quiet_of_eq rfl rfl rfl rfl rfl)
  intro w w' hcalls
  exact hcalls.quiet (by rintro _ rfl; exact id)

theorem apduResponse_quiet (src : UmtpAddr) (apdu : Ptr) (pduLen : UInt16) (h : ApduHeader) :
    Moves (@Quiet σ) (apduResponse src apdu pduLen h) := by
  apply moves_bind moves_get
  intro w
  apply moves_bind
  · exact (serviceRspHandler_callsOut _ _ _ _ _).weaken fun _ _ hcalls =>
      hcalls.quiet (by rintro _ rfl; exact id)
  · intro _
    exact moves_bind (clearReplySession_quiet h) (fun _ => moves_pure _)

theorem apduError_quiet (src : UmtpAddr) (apdu : Ptr) (h : ApduHeader) :
    Moves (@Quiet σ) (apduError src apdu h) := by
  apply moves_bind moves_get
  intro w
  apply moves_bind (readPdu_quiet _ _)
  intro status
  apply moves_bind
  · exact (serviceErrorHandler_callsOut _ _ _ _).weaken fun _ _ hcalls =>
      hcalls.quiet (by rintro _ rfl; exact id)
  · intro _
    exact moves_bind (clearReplySession_quiet h) (fun _ => moves_pure _)

section

variable {umtp : Ref} {src : UmtpAddr} {pduLen : UInt16} {r : Int} {w w' : World σ}
  (hlink : w.Accepted) (hv : w.QueuesValid)

include hlink hv

theorem apduSwitch_spends {apdu : Ptr} {h : ApduHeader}
    (hrun : (apduSwitch umtp src apdu pduLen h).run w = .ok r w') :
    Spends (if r = 0 then 1 else 0) w w' := by
  have hquiet : ∀ {x : Proc σ Int}, Moves (@Quiet σ) x → x.run w = .ok r w' →
      Spends (if r = 0 then 1 else 0) w w' := fun hx hx' =>
    (hx.of_ok hx').spends.weaken (Nat.zero_le _)
  unfold apduSwitch at hrun
  split at hrun
  · obtain ⟨n, u, hreply, hsubmit⟩ := of_bind_ok hrun
    obtain ⟨v, _, hget, hsubmit⟩ := of_bind_ok hsubmit
    cases hget
    have hu := (apduReply_quiet src apdu pduLen h).of_ok hreply
    have hn := n.toNat_lt
    exact hu.before (_umtpApduSubmit_spends (hu.accepted hlink) (hu.queuesValid hv) (by omega) hsubmit)
  · split at hrun
    · exact hquiet (apduResponse_quiet _ _ _ _) hrun
    · split at hrun
      · exact hquiet (apduError_quiet _ _ _) hrun
      · exact hquiet (moves_bind (clearReplySession_quiet h) (fun _ => moves_pure _)) hrun

theorem apduHandler_spends {apdu : Ptr}
    (hrun : (apduHandler umtp src apdu pduLen).run w = .ok r w') :
    Spends (if r = 0 then 1 else 0) w w' := by
  unfold apduHandler at hrun
  split at hrun
  · cases hrun
    exact (Spends.refl _).weaken (Nat.zero_le _)
  · obtain ⟨header, u, hdecode, hrun⟩ := of_bind_ok hrun
    have hu := (apduDecode_moves (fun _ _ => quiet_of_eq rfl rfl rfl rfl rfl) apdu).of_ok hdecode
    apply hu.before
    cases header with
    | none =>
      cases hrun
      exact (Spends.refl _).weaken (Nat.zero_le _)
    | some h => exact apduSwitch_spends (hu.accepted hlink) (hu.queuesValid hv) hrun

theorem npduHandler_spends {pdu : Ptr}
    (hrun : (npduHandler umtp src pdu pduLen).run w = .ok r w') :
    Spends (if r = 0 then 1 else 0) w w' := by
  unfold npduHandler at hrun
  split at hrun
  · cases hrun
    exact (Spends.refl _).weaken (Nat.zero_le _)
  · obtain ⟨version, u, hread, hrun⟩ := of_bind_ok hrun
    have hu := (readPdu_quiet _ _).of_ok hread
    apply hu.before
    split at hrun
    · cases hrun
      exact (Spends.refl _).weaken (Nat.zero_le _)
    · obtain ⟨⟨version', n⟩, v, hdecode, hrun⟩ := of_bind_ok hrun
      have hv' : Quiet u v := (moves_bind (readPdu_quiet _ _) (fun _ => moves_pure _)).of_ok hdecode
      apply hv'.before
      dsimp only at hrun
      split at hrun
      · exact apduHandler_spends (hv'.accepted (hu.accepted hlink))
          (hv'.queuesValid (hu.queuesValid hv)) hrun
      · cases hrun
        exact (Spends.refl _).weaken (Nat.zero_le _)

end

theorem mpuPop_run {u : World σ} {m : Mpu} (hm : u.mpu = some m) (q : QueueName) :
    (mpuPop q).run u = .ok () (u.setQueue q (ringbufPop (m.queue q)).2) := by
  simp [mpuPop, World.setQueue, hm]

/-- What a handler gives up is not counted, and what it has dealt with is popped. -/
theorem mpuMsgHandle_spends {q : QueueName} {handler : Fin maxPduCount → Packet → Proc σ Int}
    {w w' : World σ} (hv : w.QueuesValid)
    (hhandler : ∀ slot p r u, (handler slot p).run w = .ok r u →
      Spends (if r = 0 then 1 else 0) w u ∧ LeavesQueue q w u)
    (hrun : (mpuMsgHandle q handler).run w = .ok () w') : Spends 0 w w' := by
  cases hm : w.mpu with
  | none =>
    obtain ⟨m, u, hmpu, -⟩ := of_bind_ok hrun
    simp [umtpMpu, hm] at hmpu
  | some m =>
    cases hc : (m.queue q).contents with
    | nil =>
      rw [mpuMsgHandle_nil handler hm hc] at hrun
      cases hrun
      exact .refl _
    | cons p ps =>
      obtain ⟨slot, hcall⟩ := mpuMsgHandle_cons handler hm hc
      rw [hcall] at hrun
      obtain ⟨r, u, hhandle, hrun⟩ := of_bind_ok hrun
      obtain ⟨hspends, hleaves⟩ := hhandler slot p r u hhandle
      by_cases hr : r = 0
      · subst hr
        rw [if_pos rfl] at hspends
        obtain ⟨m', hm', hqueue, -⟩ := hleaves.some hm
        have hpop : (mpuPop q).run u = .ok () w' := hrun
        rw [mpuPop_run hm' q] at hpop
        cases hpop
        obtain ⟨-, -, hcont⟩ := ringbufPop_cons (hv m hm q) hc
        have hsize : (ringbufPop (m'.queue q)).2.size + 1 = (m'.queue q).size := by
          rw [hqueue, ← (ringbufPop (m.queue q)).2.contents_length, ← (m.queue q).contents_length,
            hcont, hc]
          rfl
        have hload := World.load_setQueue hm' q (ringbufPop (m'.queue q)).2
        have hle := hspends.load
        exact ⟨hspends.apduRetry, hspends.dl, by omega⟩
      · rw [if_neg hr] at hspends
        rw [if_pos hr] at hrun
        cases hrun
        exact hspends

theorem recvQueued_spends {w w' : World σ} (hlink : w.Accepted) (hv : w.QueuesValid)
    (hrun : (mpuMsgHandle .recv _umtpHandleMsg).run w = .ok () w') : Spends 0 w w' :=
  mpuMsgHandle_spends hv (fun slot p _ _ h =>
    ⟨npduHandler_spends hlink hv h, (_umtpHandleMsg_leavesQueue slot p).of_ok h⟩) hrun

theorem sendQueued_spends {w w' : World σ} (hlink : w.Accepted) (hv : w.QueuesValid)
    (hrun : (mpuMsgHandle .send _umtpSendMsg).run w = .ok () w') : Spends 0 w w' := by
  apply mpuMsgHandle_spends hv _ hrun
  intro slot p r u h
  have hlen := p.length.toNat_lt
  exact ⟨(npduSend_spends hlink (by omega) h).1, (_umtpSendMsg_leavesQueue slot p).of_ok h⟩

/-! The timers: every message that is sent again is one retry less. -/

theorem SessionState.retriesLeft_modifySlot (r : UInt8) (s : SessionState) (i : Fin maxUmtpSession)
    (f : Session → Session) :
    (s.modifySlot i f).retriesLeft r + (s.session i).retriesLeft r =
      s.retriesLeft r + (f (s.session i)).retriesLeft r := by
  have hothers : ∑ j ∈ Finset.univ.erase i, ((s.modifySlot i f).session j).retriesLeft r =
      ∑ j ∈ Finset.univ.erase i, (s.session j).retriesLeft r := by
    apply Finset.sum_congr rfl
    intro j hj
    rw [s.modifySlot_other (Finset.ne_of_mem_erase hj)]
  unfold retriesLeft
  rw [← Finset.add_sum_erase _ _ (Finset.mem_univ i), hothers,
    ← Finset.add_sum_erase _ (fun j => (s.session j).retriesLeft r) (Finset.mem_univ i),
    s.modifySlot_same]
  omega

theorem World.load_modifySlot (w : World σ) (i : Fin maxUmtpSession) (f : Session → Session) :
    (w.modifySlot i f).load + (w.sessions.session i).retriesLeft w.apduRetry =
      w.load + (f (w.sessions.session i)).retriesLeft w.apduRetry := by
  have hleft := w.sessions.retriesLeft_modifySlot w.apduRetry i f
  have hsent : (w.modifySlot i f).sent = w.sent := rfl
  have hqueued : (w.modifySlot i f).queued = w.queued := rfl
  rw [World.load, World.load, hsent, hqueued, World.modifySlot_sessions,
    World.modifySlot_apduRetry]
  omega

theorem World.modifySlot_spends (w : World σ) (i : Fin maxUmtpSession) {f : Session → Session}
    (hf : ∀ r, (f (w.sessions.session i)).retriesLeft r ≤ (w.sessions.session i).retriesLeft r) :
    Spends 0 w (w.modifySlot i f) := by
  have hload := w.load_modifySlot i f
  have hle := hf w.apduRetry
  exact ⟨rfl, rfl, by omega⟩

theorem processSlot_spends {ms : UInt16} {i : Fin maxUmtpSession} {w w' : World σ}
    (hlink : w.Accepted) (hrun : (processSlot ms i).run w = .ok () w') : Spends 0 w w' := by
  cases hwait : (w.sessions.session i).waiting with
  | false =>
    rw [processSlot_idle hwait] at hrun
    cases hrun
    exact .refl _
  | true =>
    have hleft : (w.sessions.session i).retriesLeft w.apduRetry =
        w.apduRetry.toNat - (w.sessions.session i).retry.toNat := if_pos hwait
    by_cases ht : ((w.sessions.session i).ticked ms).timer = 0
    · by_cases hr : (w.sessions.session i).retry < w.apduRetry
      · rw [processSlot_retry hwait ht hr] at hrun
        obtain ⟨r, u, hsend, hret⟩ := of_bind_ok hrun
        cases hret
        have hlen := (w.sessions.session i).pduLen.toNat_lt
        have hsent := (npduSend_spends (w := w.modifySlot i
          fun x => (x.ticked ms).retried w.apduTimeout) hlink (by omega) hsend).1.weaken
          (show (if r = 0 then 1 else 0) ≤ 1 by split <;> omega)
        have hload := w.load_modifySlot i fun x => (x.ticked ms).retried w.apduTimeout
        have hlt := UInt8.lt_iff_toNat_lt.mp hr
        have hmax := w.apduRetry.toNat_lt
        have hretry : (((w.sessions.session i).ticked ms).retried w.apduTimeout).retriesLeft
            w.apduRetry = w.apduRetry.toNat - ((w.sessions.session i).retry.toNat + 1) := by
          have hnext : ((w.sessions.session i).retry + 1).toNat =
              (w.sessions.session i).retry.toNat + 1 := by
            rw [UInt8.toNat_add, UInt8.toNat_one]
            omega
          rw [← hnext]
          exact if_pos hwait
        rw [hleft, hretry] at hload
        have hle := hsent.load
        exact ⟨hsent.apduRetry, hsent.dl, by omega⟩
      · rw [processSlot_expired hwait ht hr] at hrun
        obtain ⟨_, u, hcall, hret⟩ := of_bind_ok hrun
        cases hret
        have htick : Spends 0 w (w.modifySlot i (Session.ticked ms)) :=
          w.modifySlot_spends i fun _ => Nat.le_refl _
        have hquiet : Quiet (w.modifySlot i (Session.ticked ms)) u :=
          ((callTimeout_callsOut _ _ _ _).of_ok hcall).quiet fun e he hsend => by
            cases e with
            | send dst npdu => cases he
            | _ => cases hsend
        have hfree : Spends 0 u (u.modifySlot i Session.released) :=
          u.modifySlot_spends i fun _ => Nat.zero_le _
        exact htick.trans (hquiet.before hfree)
    · rw [processSlot_ticking hwait ht] at hrun
      cases hrun
      exact w.modifySlot_spends i fun _ => Nat.le_refl _

theorem Spends.accepted {k : Nat} {w w' : World σ} (h : Spends k w w') (hlink : w.Accepted) :
    w'.Accepted := by
  intro dl hdl
  rw [h.dl] at hdl
  exact hlink dl hdl

theorem umtpSessionProcess_spends {ms : UInt16} {w w' : World σ} (hlink : w.Accepted)
    (hrun : (umtpSessionProcess ms).run w = .ok () w') : Spends 0 w w' := by
  have hall : Ensures (fun _ u => Spends 0 w u) (umtpSessionProcess ms) w := by
    apply safely_forM _ _ (.refl w)
    intro i u hu
    apply Ensures.of_ok
    intro _ v hslot
    exact hu.trans (processSlot_spends (hu.accepted hlink) hslot)
  exact hall.post _ _ hrun

def Arrival.isDatagram : Arrival → Bool
  | .datagram _ _ => true
  | _ => false

def NodeAct.cost (apduRetry : UInt8) : NodeAct → Nat
  | .submit _ d => if d.confirmed then 1 + apduRetry.toNat else 1
  | .receive _ _ arrival => if arrival.isDatagram then 1 else 0
  | .handleQueued | .sendQueued => 0

theorem umtpApduSubmit_spends {umtp : Ref} {dst : UmtpAddr} {d : ApduData} (hd : d.InRange)
    {r : Int} {w w' : World σ} (hlink : w.Accepted) (hv : w.QueuesValid)
    (hrun : (umtpApduSubmit umtp dst (some d)).run w = .ok r w') :
    Spends (if d.confirmed then 1 + w.apduRetry.toNat else 1) w w' := by
  by_cases hu : umtp = 0
  · subst hu
    cases hrun
    exact (Spends.refl _).weaken (Nat.zero_le _)
  · obtain ⟨hg, hfits⟩ := umtpApduSubmit_ok hu hd hrun
    have hlen : ∀ id, ((d.apdu id).length : Int) < 2 ^ 64 := by
      intro id
      have hfit : (d.headerLen : Int) + d.dataLen ≤ maxApdu := hfits
      have hmax : (maxApdu : Int) = 1024 := rfl
      have h0 := hd.1
      rw [d.apdu_length hd]
      omega
    have hone : ∀ k, (if k = (0 : Int) then 1 else 0) ≤ 1 := fun k => by split <;> omega
    cases hc : d.confirmed with
    | false =>
      obtain ⟨tmp, -, hsubmit⟩ := umtpApduSubmit_unconfirmed hu dst hg hd hfits hc
      rw [hsubmit] at hrun
      exact (_umtpApduSubmit_spends hlink hv (hlen 0) hrun).weaken (hone r)
    | true =>
      obtain ⟨i, x, c, tmp, hfree, -, -, hx, -, hsubmit⟩ :=
        umtpApduSubmit_confirmed hu dst hg hd hfits hc
      rw [hsubmit] at hrun
      have hsend := (_umtpApduSubmit_spends
        (w := { w with sessions := { w.sessions.modifySlot i (fun _ => x) with sessionId := c } })
        hlink hv (hlen _) hrun).weaken (hone r)
      have hstore : Spends w.apduRetry.toNat w
          { w with sessions := { w.sessions.modifySlot i (fun _ => x) with sessionId := c } } := by
        refine ⟨rfl, rfl, ?_⟩
        have hload := w.load_modifySlot i fun _ => x
        have hnew : x.retriesLeft w.apduRetry ≤ w.apduRetry.toNat := by
          unfold Session.retriesLeft
          split <;> omega
        show (w.modifySlot i fun _ => x).load ≤ _
        omega
      rw [if_pos rfl, Nat.add_comm]
      exact hstore.trans hsend

theorem umtpTaskRound_spends {umtp : Ref} {host : Endian} {link : Dludp} {now : Int}
    {arrival : Arrival} {t : TaskLocals} {r : Option TaskLocals} {w w' : World σ}
    (hlink : w.Accepted) (hv : w.QueuesValid)
    (hrun : (umtpTaskRound umtp host link now arrival t).run w = .ok r w') :
    Spends (if arrival.isDatagram then 1 else 0) w w' := by
  rw [umtpTaskRound_run] at hrun
  obtain ⟨received, u, hreceive, hrun⟩ := of_bind_ok hrun
  have hu : Spends (if arrival.isDatagram then 1 else 0) w u := by
    obtain ⟨⟨len, src, buf⟩, v, hrecv, hrest⟩ := of_bind_ok hreceive
    have hsame : w = v := (@dludpRecvData_moves _ (fun w v : World σ => w = v) ⟨fun _ => rfl⟩
      ⟨fun _ _ _ h h' => h.trans h'⟩ host link t.src t.buf arrival).of_ok hrecv
    subst hsame
    have hnone : (∀ bytes sin, arrival ≠ .datagram bytes sin) → len ≤ 0 := by
      intro hquiet
      obtain ⟨len', hrun', hle⟩ := dludpRecvData_quiet host link hquiet t.src t.buf w
      rw [hrun'] at hrecv
      cases hrecv
      exact hle
    dsimp only at hrest
    split at hrest
    · cases hrest
      exact (Spends.refl _).weaken (Nat.zero_le _)
    · split at hrest
      · rename_i hpos
        cases arrival with
        | datagram bytes sin =>
          obtain ⟨k, v, hmessage, hret⟩ := of_bind_ok hrest
          cases hret
          obtain ⟨_, _, hget, hmessage⟩ := of_bind_ok hmessage
          cases hget
          have hone : (if k = 0 then 1 else 0) ≤ 1 := by split <;> omega
          split at hmessage
          · exact (mpuPut_spends hv hmessage).weaken hone
          · exact (npduHandler_spends hlink hv hmessage).weaken hone
        | timeout => exact absurd hpos (Int.not_lt.mpr (hnone (by simp)))
        | failed => exact absurd hpos (Int.not_lt.mpr (hnone (by simp)))
      · cases hrest
        exact (Spends.refl _).weaken (Nat.zero_le _)
  have hrest : Spends 0 u w' := by
    cases received with
    | none =>
      cases hrun
      exact .refl _
    | some p =>
      obtain ⟨src, buf⟩ := p
      dsimp only at hrun
      unfold umtpTaskTimers at hrun
      split at hrun
      · obtain ⟨_, v, hprocess, hret⟩ := of_bind_ok hrun
        cases hret
        exact umtpSessionProcess_spends (hu.accepted hlink) hprocess
      · cases hrun
        exact .refl _
  exact hu.trans hrest

theorem NodeAct.exec_spends {site : Site} {t t' : TaskLocals} {act : NodeAct} (hact : act.Valid)
    {w w' : World σ} (hlink : w.Accepted) (hv : w.QueuesValid)
    (hrun : (act.exec site t).run w = .ok (some t') w') : Spends (act.cost w.apduRetry) w w' := by
  cases act with
  | submit dst d =>
    obtain ⟨r, u, hsubmit, hret⟩ := of_bind_ok hrun
    cases hret
    exact umtpApduSubmit_spends hact hlink hv hsubmit
  | receive now link arrival => exact umtpTaskRound_spends hlink hv hrun
  | handleQueued =>
    obtain ⟨r, u, hhandle, hret⟩ := of_bind_ok hrun
    cases hret
    exact recvQueued_spends hlink hv hhandle
  | sendQueued =>
    obtain ⟨r, u, hsend, hret⟩ := of_bind_ok hrun
    cases hret
    exact sendQueued_spends hlink hv hsend

section

variable [DecidableEq ι] {site : ι → Site} {types : ι → List (ServiceType σ)}

def received (acts : List (ι × NodeAct)) (i : ι) : Nat :=
  acts.countP fun a => decide (a.1 = i) && match a.2 with
    | .receive _ _ arrival => arrival.isDatagram
    | _ => false

def Net.requests (n : Net ι σ) (i : ι) : Nat := n.submitted.countP fun s => s.node = i

def Net.confirmed (n : Net ι σ) (i : ι) : Nat :=
  n.submitted.countP fun s => s.node = i ∧ s.data.confirmed = true

def Net.allowance (n : Net ι σ) (acts : List (ι × NodeAct)) (apduRetry : UInt8) (i : ι) : Nat :=
  n.requests i + apduRetry.toNat * n.confirmed i + received acts i

theorem Net.next_allowance (n : Net ι σ) (acts : List (ι × NodeAct)) (apduRetry : UInt8) (i : ι)
    (act : NodeAct) (t : TaskLocals) (w : World σ) :
    n.allowance acts apduRetry i + act.cost apduRetry =
      (n.next i act t w).allowance (acts ++ [(i, act)]) apduRetry i := by
  cases act with
  | submit dst d =>
    cases hc : d.confirmed <;>
      simp [allowance, requests, confirmed, received, next, NodeAct.submission, NodeAct.cost, hc,
        Nat.mul_add] <;> omega
  | receive now link arrival =>
    cases harr : arrival.isDatagram <;>
      simp [allowance, requests, confirmed, received, next, NodeAct.submission, NodeAct.cost,
        harr]
    omega
  | handleQueued =>
    simp [allowance, requests, confirmed, received, next, NodeAct.submission, NodeAct.cost]
  | sendQueued =>
    simp [allowance, requests, confirmed, received, next, NodeAct.submission, NodeAct.cost]

theorem Net.next_allowance_other (n : Net ι σ) (acts : List (ι × NodeAct)) (apduRetry : UInt8)
    {i k : ι} (hk : k ≠ i) (act : NodeAct) (t : TaskLocals) (w : World σ) :
    (n.next k act t w).allowance (acts ++ [(k, act)]) apduRetry i = n.allowance acts apduRetry i := by
  cases act with
  | submit dst d =>
    simp [allowance, requests, confirmed, received, next, NodeAct.submission, hk]
  | _ => simp [allowance, requests, confirmed, received, next, NodeAct.submission, hk]

structure WithinAllowance (n₀ n : Net ι σ) (acts : List (ι × NodeAct)) (i : ι) : Prop where
  apduRetry : (n.world i).apduRetry = (n₀.world i).apduRetry
  dl : (n.world i).dl = (n₀.world i).dl
  load : (n.world i).load ≤ n.allowance acts (n₀.world i).apduRetry i

theorem mpuCreate_queued (recvBuffer sendBuffer : Fin maxPduCount → Packet) :
    (mpuCreate recvBuffer sendBuffer).queued = 0 := by
  have hempty : ∀ q, ((mpuCreate recvBuffer sendBuffer).queue q).size = 0 := by
    intro q
    rw [← RingBuffer.contents_length, mpuCreate_contents, List.length_nil]
  rw [Mpu.queued, hempty, hempty]

theorem SessionState.init_retriesLeft (r : UInt8) : SessionState.init.retriesLeft r = 0 := by
  apply Finset.sum_eq_zero
  intro j _
  exact if_neg Bool.false_ne_true

theorem Net.Started.withinAllowance {n₀ : Net ι σ} (h₀ : n₀.Started types) (i : ι) :
    WithinAllowance n₀ n₀ [] i := by
  have hsent : (n₀.world i).sent = 0 := by simp [World.sent, h₀.trace i]
  have hqueued : (n₀.world i).queued = 0 := by
    rcases h₀.mpu i with hnone | ⟨recvBuffer, sendBuffer, hmpu⟩
    · rw [World.queued, hnone, Option.elim_none]
    · rw [World.queued, hmpu, Option.elim_some, mpuCreate_queued]
  have hload : (n₀.world i).load = 0 := by
    rw [World.load, hsent, hqueued, h₀.sessions i, SessionState.init_retriesLeft]
  exact ⟨rfl, rfl, hload.trans_le (Nat.zero_le _)⟩

theorem openStep_withinAllowance {n₀ n n' : Net ι σ} {acts : List (ι × NodeAct)}
    {a : ι × NodeAct} {i : ι}
    (hlink : (n₀.world i).Accepted)
    (htraced : ∀ k, Umtp.Traced (n.openInputs k) (types k) (n.world k))
    (h : WithinAllowance n₀ n acts i) (hstep : NetStep site Anything n a n') :
    WithinAllowance n₀ n' (acts ++ [a]) i := by
  obtain ⟨k, act⟩ := a
  obtain ⟨hact, -, t, w, hrun, rfl⟩ := hstep
  dsimp only at hact hrun ⊢
  by_cases hk : k = i
  · subst hk
    have hlink' : (n.world k).Accepted := by
      intro dl hdl
      rw [h.dl] at hdl
      exact hlink dl hdl
    have hspends := NodeAct.exec_spends hact hlink' (fun m hm q => ((htraced k).queue m hm q).1) hrun
    have hallowance := n.next_allowance acts (n₀.world k).apduRetry k act t w
    have hload := h.load
    have hmore := hspends.load
    rw [h.apduRetry] at hmore
    have hworld : (n.next k act t w).world k = w := Function.update_self ..
    refine ⟨?_, ?_, ?_⟩
    · rw [hworld]
      exact hspends.apduRetry.trans h.apduRetry
    · rw [hworld]
      exact hspends.dl.trans h.dl
    · rw [hworld]
      omega
  · have hworld : (n.next k act t w).world i = n.world i :=
      Function.update_of_ne (fun hik => hk hik.symm) ..
    refine ⟨?_, ?_, ?_⟩
    · rw [hworld]
      exact h.apduRetry
    · rw [hworld]
      exact h.dl
    · rw [hworld, n.next_allowance_other acts _ hk]
      exact h.load

/-- Whatever comes in, a node hands its link no more messages than one for each datagram it has
been brought, one for each request of its application, and the retries of those confirmed. -/
theorem no_amplification {n₀ n : Net ι σ} (h₀ : n₀.Started types)
    (hlink : ∀ i, (n₀.world i).Accepted) {acts : List (ι × NodeAct)}
    (hr : Run (NetStep site Anything) n₀ acts n) (i : ι) :
    (n.world i).sent ≤
      n.requests i + (n₀.world i).apduRetry.toNat * n.confirmed i + received acts i := by
  have hall := hr.history
    (fun acts n => (∀ k, Umtp.Traced (n.openInputs k) (types k) (n.world k)) ∧
      WithinAllowance n₀ n acts i)
    ⟨fun k => h₀.traced _ k, h₀.withinAllowance i⟩
    (fun _ _ _ _ _ h hstep =>
      ⟨openStep_traced h.1 hstep, openStep_withinAllowance (hlink i) h.1 h.2 hstep⟩)
  have hload := hall.2.load
  rw [World.load] at hload
  exact Nat.le_trans (Nat.le_trans (Nat.le_add_right _ _) (Nat.le_add_right _ _)) hload

end

theorem localLink_accepts : LinkAccepts (localLink.link .little wireSendto) := by
  intro wire dst pdu len hpos hlen hoff hobj
  have hmax : (maxNpdu : Int) = 1025 := rfl
  have hpdu : (maxPdu : Int) = 2049 := rfl
  have hread : pdu.off + len.toNat ≤ pdu.obj.length := by omega
  have hbytes : ((umtpSignature :: pdu.bytes.take len.toNat).length : Int) = len + 1 := by
    simp [Ptr.bytes]
    omega
  refine ⟨wire ++ [(dludpDest .little localLink dst, umtpSignature :: pdu.bytes.take len.toNat)], ?_⟩
  show (dludpSendData .little localLink wireSendto dst pdu len).run wire = _
  rw [dludpSendData_run (by decide) rfl (Int.le_of_lt hpos) (by omega) hread rfl,
    if_neg (not_not.mpr hbytes)]

def pairRetry : Bool × NodeAct := (false, .receive 4 (pairSite false).link .timeout)

theorem retry_steps : ∃ n₁ n₂ n₃, pairNet.step pairSite forgedServe = some n₁ ∧
    n₁.step pairSite pairSubmit = some n₂ ∧ n₂.step pairSite pairRetry = some n₃ ∧
    (∀ i, n₃.requests i = (if i then 0 else 1) ∧ n₃.confirmed i = if i then 0 else 1) ∧
    (n₃.world true).sent = 1 ∧ (n₃.world false).sent = 2 := by
  have h : (pairNet.step pairSite forgedServe).any (fun n₁ =>
      (n₁.step pairSite pairSubmit).any fun n₂ => (n₂.step pairSite pairRetry).any fun n₃ =>
      decide ((∀ i, n₃.requests i = (if i then 0 else 1) ∧ n₃.confirmed i = if i then 0 else 1) ∧
        (n₃.world true).sent = 1 ∧ (n₃.world false).sent = 2)) = true := by decide +kernel
  simp only [Option.any_eq_true, decide_eq_true_eq] at h
  obtain ⟨n₁, h₁, n₂, h₂, n₃, h₃, hcounts⟩ := h
  exact ⟨n₁, n₂, n₃, h₁, h₂, h₃, hcounts⟩

/-- One datagram from a stranger and one answer; a confirmed request and one of its retries. -/
theorem no_amplification_retry : ∃ n,
    Run (NetStep pairSite Anything) pairNet [forgedServe, pairSubmit, pairRetry] n ∧
    (n.world true).sent = 1 ∧ (n.world true).sent ≤ 1 ∧
    (n.world false).sent = 2 ∧ (n.world false).sent ≤ 1 + (pairNet.world false).apduRetry.toNat := by
  obtain ⟨n₁, n₂, n₃, h₁, h₂, h₃, hcounts, hserver, hclient⟩ := retry_steps
  have hserve : NetStep pairSite Anything pairNet forgedServe n₁ := by
    refine netStep_of_step (show forgedServe.2.Valid from trivial) ?_ h₁
    rintro _ _ _ ⟨⟩ _ _ ⟨⟩
  have hsubmit : NetStep pairSite Anything n₁ pairSubmit n₂ :=
    netStep_of_step ⟨by decide, by decide⟩ (fun _ _ _ h => by cases h) h₂
  have hretry : NetStep pairSite Anything n₂ pairRetry n₃ := by
    refine netStep_of_step (show pairRetry.2.Valid from trivial) ?_ h₃
    rintro _ _ _ ⟨⟩ _ _ ⟨⟩
  have hr := ((Run.nil.snoc hserve).snoc hsubmit).snoc hretry
  have hbound := no_amplification pairNet_started
    (fun _ dl hdl => by cases hdl; exact localLink_accepts) hr
  refine ⟨n₃, hr, hserver, ?_, hclient, ?_⟩
  · have hsent := hbound true
    rw [(hcounts true).1, (hcounts true).2] at hsent
    exact hsent
  · have hsent := hbound false
    rw [(hcounts false).1, (hcounts false).2] at hsent
    exact hsent

end Umtp
