import Umtp.Kit.FiniteRun
import Umtp.Node

/-! The arrays on the way of a request to the network: `tmp` of `umtp_apdu_submit`, the
session's `pdu`, the packet's `buffer`, `tmp` of `npdu_send` and `buf` of the link. -/

set_option autoImplicit false

namespace Umtp
open CheckedBuffer StateExcept FiniteRun

variable {σ τ : Type}

def Store.OnSendPath : Store → Prop
  | .submitTmp | .sessionPdu _ | .mpuSend _ | .npduTmp | .dludpBuf => True
  | _ => False

/-- A store outside one of these arrays. -/
def Stop.SendOverrun (e : Stop) : Prop := ∃ store i, e = .overrun store i ∧ store.OnSendPath

def LinkTakes (dl : UmtpDl σ) : Prop :=
  ∀ s dst pdu (len : Int), 0 ≤ len → len ≤ maxNpdu → pdu.off + len.toNat ≤ pdu.obj.length →
    Returns (fun _ _ => True) (dl.sendData dst pdu len) s

structure SendBounded (w : World σ) : Prop where
  link : ∀ dl, w.dl = some dl → LinkTakes dl
  sessions : ∀ i, (w.sessions.session i).pduLen.toNat ≤ maxApdu
  queue : ∀ m, w.mpu = some m →
    (m.queue .send).Valid ∧ ∀ p ∈ (m.queue .send).contents, p.length.toNat ≤ maxApdu

theorem dludp_linkTakes {link : Dludp} (henc : link.encrypt = none) (host : Endian)
    (sendto : SendTo σ) : LinkTakes (link.link host sendto) := by
  intro s dst pdu len h0 hlen hread
  have hpdu : (maxPdu : Int) = 2049 := rfl
  have hnpdu : (maxNpdu : Int) = 1025 := rfl
  by_cases hup : 0 ≤ link.socket
  · exact ⟨_, _, dludpSendData_run hup henc h0 (by omega) hread rfl, trivial⟩
  · have hdown : link.socket < 0 := by omega
    exact ⟨-ebadf, s, by simp [Dludp.link, dludpSendData, hdown], trivial⟩

theorem stop_sendOverrun {store : Store} {i : Nat} :
    (Stop.overrun store i).SendOverrun ↔ store.OnSendPath := by
  constructor
  · rintro ⟨store', i', he, h⟩
    cases he
    exact h
  · exact fun h => ⟨store, i, rfl, h⟩

theorem overread_not_sendOverrun (store : Store) (i : Nat) :
    ¬ (Stop.overread store i).SendOverrun := by
  rintro ⟨store', i', he, -⟩
  cases he

theorem null_not_sendOverrun : ¬ Stop.null.SendOverrun := by
  rintro ⟨store, i, he, -⟩
  cases he

theorem poke_safely {store : Store} {n : Nat} (dst : Buf UInt8 n) {off : Nat} (x : UInt8) {s : τ}
    (h : off < n ∨ ¬ store.OnSendPath) :
    Safely Stop.SendOverrun (fun _ t => t = s) (poke store dst off x) s := by
  unfold poke
  split
  · exact safely_pure rfl
  · rename_i hnone
    have hover : n < off + 1 := Buf.write_eq_none.mp hnone
    exact safely_throw fun hbad => h.elim (by omega) (absurd (stop_sendOverrun.mp hbad))

theorem memcpy_safely {store : Store} {n : Nat} (dst : Buf UInt8 n) {off len : Nat} (src : Ptr)
    {s : τ} (h : off + len ≤ n ∨ ¬ store.OnSendPath) :
    Safely Stop.SendOverrun (fun _ t => t = s ∧ off + len ≤ n) (memcpy store dst off src len)
      s := by
  unfold memcpy
  split
  · rename_i hread
    have hlen : (src.bytes.take len).length = len := by
      simp [Ptr.bytes]
      omega
    split
    · rename_i hw
      have hfit := (Buf.write_some hw).1
      exact safely_pure ⟨rfl, by omega⟩
    · rename_i hnone
      have hover := Buf.write_eq_none.mp hnone
      exact safely_throw fun hbad => h.elim (by omega) (absurd (stop_sendOverrun.mp hbad))
  · exact safely_throw (overread_not_sendOverrun _ _)

theorem CallsOut.sendBounded {E : Event → Prop} {w w' : World σ} (h : CallsOut E w w')
    (hb : SendBounded w) : SendBounded w' := by
  obtain ⟨es, app, -, rfl⟩ := h
  exact ⟨hb.link, hb.sessions, hb.queue⟩

theorem SendBounded.modifySlot {w : World σ} (hb : SendBounded w) (i : Fin maxUmtpSession)
    {f : Session → Session} (hf : (f (w.sessions.session i)).pduLen.toNat ≤ maxApdu) :
    SendBounded (w.modifySlot i f) := by
  refine ⟨hb.link, fun j => ?_, hb.queue⟩
  by_cases hj : j = i
  · subst hj
    simpa using hf
  · rw [World.modifySlot_sessions, SessionState.modifySlot_other _ hj]
    exact hb.sessions j

theorem SendBounded.clear {w : World σ} (hb : SendBounded w) (id : UInt8) :
    SendBounded { w with sessions := umtpSessionClear id w.sessions } := by
  unfold umtpSessionClear
  split
  · rename_i i hi
    exact hb.modifySlot i (hb.sessions i)
  · exact hb

section

variable {w : World σ} (hb : SendBounded w) {umtp : Ref} {data : Ptr} {len : Int}

include hb

theorem sendData_safely {dl : UmtpDl σ} (hdl : w.dl = some dl) (h0 : 0 ≤ len)
    (hlen : len ≤ maxNpdu) {pdu : Ptr} (hread : pdu.off + len.toNat ≤ pdu.obj.length)
    (dst : UmtpAddr) :
    Safely Stop.SendOverrun (fun _ => SendBounded) (sendData dl dst pdu len) w := by
  obtain ⟨r, app, hr, -⟩ := hb.link dl hdl w.app dst pdu len h0 hlen hread
  have hrun := sendData_run dl dst pdu len w
  rw [hr] at hrun
  exact safely_of_ok hrun (((sendData_callsOut dl dst pdu len).of_ok hrun).sendBounded hb)

theorem npduSend_safely (hlen : len ≤ maxApdu) (dst : UmtpAddr) :
    Safely Stop.SendOverrun (fun _ => SendBounded) (npduSend umtp dst data len) w := by
  have hapdu : (maxApdu : Int) = 1024 := rfl
  have hnpdu : maxNpdu = 1025 := rfl
  have hnpdu' : (maxNpdu : Int) = 1025 := rfl
  by_cases hneg : len ≤ 0
  · exact safely_of_ok (by simp [npduSend, hneg]; rfl) hb
  · have hsize : sizeT len = len.toNat := sizeT_of_nonneg (by omega) (by omega)
    unfold npduSend encodeNpdu
    rw [if_neg hneg]
    apply Safely.bind (P := fun r t => t = w ∧ r.2 = 1)
    · apply (poke_safely (Buf.fill maxNpdu 0) fttpProtocolVersion (.inl (by omega))).bind
      rintro tmp _ rfl
      exact safely_pure ⟨rfl, rfl⟩
    · rintro ⟨tmp, n⟩ t ⟨rfl, rfl⟩
      apply (memcpy_safely tmp data (.inl (by rw [hsize]; omega))).bind
      rintro tmp' u ⟨rfl, -⟩
      split
      · exact (safely_throw null_not_sendOverrun).bind (P := fun _ _ => False) fun _ _ h => h.elim
      · apply (safely_get (Q := fun v t => v = u ∧ t = u) ⟨rfl, rfl⟩).bind
        rintro v t ⟨rfl, rfl⟩
        cases hdl : t.dl with
        | none => exact safely_pure hb
        | some dl => exact sendData_safely hb hdl (by omega) (by omega) (by simp; omega) dst

theorem mpuPutSend_safely (h0 : 0 ≤ len) (hlen : len ≤ maxApdu)
    (hread : data.off + len.toNat ≤ data.obj.length) (dst : UmtpAddr) :
    Safely Stop.SendOverrun (fun _ => SendBounded) (mpuPutSend dst umtp data len) w := by
  have hapdu : (maxApdu : Int) = 1024 := rfl
  have hdata : maxMpuData = 2000 := rfl
  cases hm : w.mpu with
  | none => exact safely_of_ok (by simp [mpuPutSend, mpuPut, hm]; rfl) hb
  | some m =>
    cases hrun : m.running with
    | false => exact safely_of_ok (by simp [mpuPutSend, mpuPut, hm, hrun]; rfl) hb
    | true =>
      obtain ⟨hv, hp⟩ := hb.queue m hm
      by_cases hfull : (m.queue .send).size = maxPduCount
      · exact safely_of_ok (mpuPut_full dst umtp hm hrun hv hfull) hb
      · have hle := hv.size_le
        obtain ⟨ring, pkt, hput, hvalid, -, hcont, hpl, -⟩ :=
          mpuPut_room dst umtp hm hrun hv (by omega) hread (by omega)
        refine safely_of_ok hput ⟨hb.link, hb.sessions, ?_⟩
        intro m' hm'
        simp only [World.setQueue, hm, Option.map_some, Option.some.injEq] at hm'
        subst hm'
        rw [Mpu.queue_setQueue, hcont]
        refine ⟨hvalid, fun p hmem => ?_⟩
        rcases List.mem_append.mp hmem with hmem | hmem
        · exact hp p hmem
        · rw [List.mem_singleton.mp hmem, hpl, uint16_ofInt_toNat h0 (by omega)]
          omega

theorem _umtpApduSubmit_safely (h0 : 0 ≤ len) (hlen : len ≤ maxApdu)
    (hread : data.off + len.toNat ≤ data.obj.length) (dst : UmtpAddr) :
    Safely Stop.SendOverrun (fun _ => SendBounded) (_umtpApduSubmit umtp dst data len) w := by
  have hmode : Safely Stop.SendOverrun (fun _ => SendBounded) (do
      if !(← get).syncMode then
        mpuPutSend dst umtp data len
      else
        npduSend umtp dst data len) w := by
    apply (safely_get (Q := fun _ u => u = w) rfl).bind
    rintro v _ rfl
    split
    · exact mpuPutSend_safely hb h0 hlen hread dst
    · exact npduSend_safely hb hlen dst
  unfold _umtpApduSubmit
  split
  · exact (safely_throw null_not_sendOverrun).bind (P := fun _ _ => False) fun _ _ h => h.elim
  · exact hmode

theorem readPdu_safely (pdu : Ptr) (i : Nat) :
    Safely Stop.SendOverrun (fun _ => SendBounded) (readPdu pdu i) w := by
  have hread : SendBounded (w.read (pdu.off + i)) := ⟨hb.link, hb.sessions, hb.queue⟩
  apply (safely_modify (Q := fun _ => SendBounded) hread).bind
  intro _ t ht
  split
  · exact safely_pure ht
  · exact safely_throw (overread_not_sendOverrun _ _)

theorem apduDecode_safely (apdu : Ptr) :
    Safely Stop.SendOverrun (fun _ => SendBounded) (apduDecode apdu) w := by
  apply (readPdu_safely hb apdu 0).bind
  intro flag _ hb
  apply (readPdu_safely hb apdu 1).bind
  intro type _ hb
  split
  · exact safely_pure hb
  · apply (readPdu_safely hb apdu 2).bind
    intro service _ hb
    split
    · exact (readPdu_safely hb apdu 3).bind fun _ _ hb => safely_pure hb
    · exact safely_pure hb

theorem sendBounded_transBlk (blk : Buf UInt8 maxApdu) :
    SendBounded { w with apduTransBlk := blk } := ⟨hb.link, hb.sessions, hb.queue⟩

theorem storeReply_safely (sd : ServiceData) (reply : ReqReply) :
    Safely Stop.SendOverrun (fun _ => SendBounded) (storeReply sd reply) w := by
  unfold storeReply
  split
  · exact (safely_pure hb).bind fun _ _ hb => safely_pure hb
  · apply (safely_get (Q := fun _ => SendBounded) hb).bind
    intro v t hb
    apply (memcpy_safely v.apduTransBlk _ (.inr id)).bind
    rintro stored _ ⟨rfl, -⟩
    apply (safely_modify (Q := fun _ => SendBounded) (sendBounded_transBlk hb stored)).bind
    intro _ t hb
    exact safely_pure hb

theorem serviceHandler_safely (src : UmtpAddr) (sd : ServiceData) (data : Ptr) (dataLen : UInt32) :
    Safely Stop.SendOverrun (fun _ => SendBounded) (serviceHandler src sd data dataLen) w := by
  unfold serviceHandler
  split
  · exact safely_pure hb
  · apply (safely_get (Q := fun _ => SendBounded) hb).bind
    intro v t hb
    split
    · exact safely_pure hb
    · split
      · exact safely_pure hb
      · apply (safely_modify (Q := fun _ => SendBounded) ⟨hb.link, hb.sessions, hb.queue⟩).bind
        intro _ t hb
        have happ : ∀ f : σ → ReqReply × σ,
            Safely Stop.SendOverrun (fun _ => SendBounded) (onApp (modifyGet f)) t :=
          fun f => safely_of_ok rfl ⟨hb.link, hb.sessions, hb.queue⟩
        apply (happ _).bind
        intro reply t hb
        exact (storeReply_safely hb sd reply).bind fun _ _ hb => safely_pure hb

theorem encodeReplyHeader_safely (h : ApduHeader) (type : UInt8) :
    Safely Stop.SendOverrun (fun n w' => SendBounded w' ∧ n ≤ 4) (encodeReplyHeader h type) w := by
  have hpoke : ∀ (blk : Buf UInt8 maxApdu) (off : Nat) (x : UInt8) (t : World σ),
      Safely Stop.SendOverrun (fun _ u => u = t) (poke .apduTransBlk blk off x) t :=
    fun blk off x t => poke_safely blk x (.inr id)
  apply (safely_get (Q := fun _ => SendBounded) hb).bind
  intro v t hb
  apply (hpoke _ _ _ t).bind
  rintro blk _ rfl
  apply (hpoke _ _ _ _).bind
  rintro blk _ rfl
  apply (hpoke _ _ _ _).bind
  rintro blk t rfl
  apply (safely_modify (Q := fun _ => SendBounded) (sendBounded_transBlk hb blk)).bind
  intro _ t hb
  split
  · apply (hpoke _ _ _ t).bind
    rintro blk _ rfl
    exact (safely_modify (Q := fun _ => SendBounded) (sendBounded_transBlk hb blk)).bind
      fun _ _ hb => safely_pure ⟨hb, Nat.le_refl 4⟩
  · exact safely_pure ⟨hb, by omega⟩

theorem encodeReplyBody_safely (ret : Int) (sd : ServiceData) {encodeLen : Nat}
    (hl : encodeLen ≤ 4) :
    Safely Stop.SendOverrun (fun n w' => SendBounded w' ∧ n.toNat ≤ maxApdu)
      (encodeReplyBody ret sd encodeLen) w := by
  have hmax : maxApdu = 1024 := rfl
  have hlen : ∀ k, k ≤ maxApdu → (UInt16.ofNat k).toNat ≤ maxApdu := by
    intro k hk
    rw [UInt16.toNat_ofNat', Nat.mod_eq_of_lt (by omega)]
    exact hk
  apply (safely_get (Q := fun _ => SendBounded) hb).bind
  intro v t hb
  split
  · apply (poke_safely _ _ (.inr id)).bind
    rintro blk _ rfl
    exact (safely_modify (Q := fun _ => SendBounded) (sendBounded_transBlk hb blk)).bind
      fun _ _ hb => safely_pure ⟨hb, hlen _ (by omega)⟩
  · apply (memcpy_safely _ _ (.inr id)).bind
    rintro blk _ ⟨rfl, hfit⟩
    exact (safely_modify (Q := fun _ => SendBounded) (sendBounded_transBlk hb blk)).bind
      fun _ _ hb => safely_pure ⟨hb, hlen _ hfit⟩

theorem apduRequest_safely (src : UmtpAddr) (apdu : Ptr) (pduLen : UInt16) (h : ApduHeader) :
    Safely Stop.SendOverrun (fun _ => SendBounded) (apduRequest umtp src apdu pduLen h) w := by
  unfold apduRequest apduReply
  apply Safely.bind (P := fun n t => SendBounded t ∧ n.toNat ≤ maxApdu)
  · apply (serviceHandler_safely hb _ _ _ _).bind
    rintro ⟨ret, sd⟩ t hb
    apply (encodeReplyHeader_safely hb h _).bind
    rintro n t ⟨hb, hn⟩
    exact encodeReplyBody_safely hb ret sd hn
  · rintro n t ⟨hb, hn⟩
    apply (safely_get (Q := fun _ => SendBounded) hb).bind
    intro v t hb
    exact _umtpApduSubmit_safely hb (by omega) (by omega) (by simpa using hn) src

theorem clearReplySession_safely (h : ApduHeader) :
    Safely Stop.SendOverrun (fun _ => SendBounded) (clearReplySession h) w := by
  unfold clearReplySession
  split
  · exact safely_modify (hb.clear _)
  · exact safely_pure hb

theorem apduSwitch_safely (src : UmtpAddr) (apdu : Ptr) (pduLen : UInt16) (h : ApduHeader) :
    Safely Stop.SendOverrun (fun _ => SendBounded) (apduSwitch umtp src apdu pduLen h) w := by
  unfold apduSwitch
  split
  · exact apduRequest_safely hb src apdu pduLen h
  · split
    · apply (safely_get (Q := fun _ => SendBounded) hb).bind
      intro v t hb
      apply ((serviceRspHandler_total _ _ _ _ _).returns
        (serviceRspHandler_callsOut _ _ _ _ _) t).safely.bind
      intro _ u hcalls
      exact (clearReplySession_safely (hcalls.sendBounded hb) h).bind fun _ _ hb => safely_pure hb
    · split
      · apply (safely_get (Q := fun _ => SendBounded) hb).bind
        intro v t hb
        apply (readPdu_safely hb apdu h.decodeLen).bind
        intro status t hb
        apply ((serviceErrorHandler_total _ _ _ _).returns
          (serviceErrorHandler_callsOut _ _ _ _) t).safely.bind
        intro _ u hcalls
        exact (clearReplySession_safely (hcalls.sendBounded hb) h).bind fun _ _ hb => safely_pure hb
      · exact (clearReplySession_safely hb h).bind fun _ _ hb => safely_pure hb

theorem npduHandler_safely (src : UmtpAddr) (pdu : Ptr) (pduLen : UInt16) :
    Safely Stop.SendOverrun (fun _ => SendBounded) (npduHandler umtp src pdu pduLen) w := by
  unfold npduHandler npduDecode
  split
  · exact safely_pure hb
  · apply (readPdu_safely hb pdu 0).bind
    intro version t hb
    split
    · exact safely_pure hb
    · apply ((readPdu_safely hb pdu 0).bind fun _ _ hb => safely_pure (P := fun _ => SendBounded)
        hb).bind
      intro d t hb
      split
      split
      · unfold apduHandler
        split
        · exact safely_pure hb
        · apply (apduDecode_safely hb _).bind
          intro header t hb
          split
          · exact safely_pure hb
          · exact apduSwitch_safely hb _ _ _ _
      · exact safely_pure hb

theorem callTimeout_safely (timeout : Option TimeoutFn) (dest : UmtpAddr) (pdu : Ptr)
    (pduLen : Int) :
    Safely Stop.SendOverrun (fun _ => SendBounded) (callTimeout timeout dest pdu pduLen) w := by
  refine ((?_ : Safely Stop.SendOverrun (fun _ _ => True) _ w).moves
    (callTimeout_callsOut timeout dest pdu pduLen)).weaken fun _ _ h => h.2.sendBounded hb
  unfold callTimeout
  split
  · unfold apduTimeoutHandler
    split
    · exact safely_throw (overread_not_sendOverrun _ _)
    · exact ((serviceTimeoutHandler_total _ _ _ _).returns
        (serviceTimeoutHandler_callsOut _ _ _ _) w).safely.weaken fun _ _ _ => trivial
  · exact safely_pure trivial

theorem processSlot_safely (ms : UInt16) (i : Fin maxUmtpSession) :
    Safely Stop.SendOverrun (fun _ => SendBounded) (processSlot ms i) w := by
  apply (safely_get (Q := fun v t => v = t ∧ SendBounded t) ⟨rfl, hb⟩).bind
  rintro v t ⟨rfl, hb⟩
  split
  · exact safely_pure hb
  · apply (safely_modify (Q := fun _ => SendBounded) (hb.modifySlot i (hb.sessions i))).bind
    intro _ t hb
    apply (safely_get (Q := fun v u => v = u ∧ SendBounded u) ⟨rfl, hb⟩).bind
    rintro u _ ⟨rfl, hb⟩
    have hlen := hb.sessions i
    dsimp only
    split
    · exact safely_pure hb
    · split
      · apply (safely_modify (Q := fun _ => SendBounded) (hb.modifySlot i hlen)).bind
        intro _ v hb
        apply (npduSend_safely hb (by omega) _).bind
        intro _ v hb
        exact safely_pure hb
      · apply (callTimeout_safely hb _ _ _ _).bind
        intro _ v hb
        exact safely_modify (hb.modifySlot i (hb.sessions i))

theorem umtpSessionProcess_safely (ms : UInt16) :
    Safely Stop.SendOverrun (fun _ => SendBounded) (umtpSessionProcess ms) w :=
  safely_forM _ (fun i _ hb => processSlot_safely hb ms i) hb

theorem sendQueued_safely :
    Safely Stop.SendOverrun (fun _ => SendBounded) (mpuMsgHandle .send _umtpSendMsg) w := by
  cases hm : w.mpu with
  | none =>
    exact safely_of_error (by simp [mpuMsgHandle, umtpMpu, hm]; rfl) null_not_sendOverrun
  | some m =>
    obtain ⟨hv, hp⟩ := hb.queue m hm
    cases hc : (m.queue .send).contents with
    | nil => exact safely_of_ok (mpuMsgHandle_nil _ hm hc) hb
    | cons p ps =>
      obtain ⟨slot, hrun⟩ := mpuMsgHandle_cons _umtpSendMsg hm hc
      have hlen := hp p (by simp [hc])
      have hsend : Safely Stop.SendOverrun (fun _ w' => SendBounded w' ∧ CallsOut Event.IsSend w w')
          (_umtpSendMsg slot p) w :=
        (npduSend_safely hb (by omega) p.addr).moves (npduSend_callsOut _ _ _ _)
      apply Safely.congr _ hrun
      apply hsend.bind
      rintro r t ⟨hb, hcalls⟩
      split
      · exact safely_pure hb
      · refine safely_modify ⟨hb.link, hb.sessions, fun m' hm' => ?_⟩
        obtain ⟨-, hpop, hrest⟩ := ringbufPop_cons hv hc
        simp only [hcalls.mpu, hm, Option.map_some, Option.some.injEq] at hm'
        subst hm'
        rw [Mpu.queue_setQueue, hrest]
        exact ⟨hpop, fun p' hp' => hp p' (hc ▸ List.mem_cons_of_mem p hp')⟩

theorem umtpApduSubmit_safely {d : ApduData} (hd : d.InRange) (hfits : d.Fits) (dst : UmtpAddr) :
    Safely Stop.SendOverrun (fun _ => SendBounded) (umtpApduSubmit umtp dst (some d)) w := by
  by_cases hu : umtp = 0
  · exact safely_of_ok (by simp [umtpApduSubmit, hu]; rfl) hb
  · by_cases hg : w.Grants d
    · have hlen : ∀ id, (d.apdu id).length ≤ maxApdu := by
        intro id
        have h0 := hd.1
        rw [d.apdu_length hd]
        unfold ApduData.Fits at hfits
        omega
      cases hc : d.confirmed with
      | false =>
        obtain ⟨tmp, -, hrun⟩ := umtpApduSubmit_unconfirmed hu dst hg hd hfits hc
        have hle := hlen 0
        exact (_umtpApduSubmit_safely hb (by omega) (by omega) (by simpa using hle) dst).congr hrun
      | true =>
        obtain ⟨i, x, c, tmp, -, -, -, hx, -, hrun⟩ :=
          umtpApduSubmit_confirmed hu dst hg hd hfits hc
        have hle := hlen (w.grantedId d)
        have hb' : SendBounded (w.modifySlot i (fun _ => x)) :=
          hb.modifySlot i (show x.pduLen.toNat ≤ maxApdu by rw [hx.pduLen]; exact hle)
        have hb'' : SendBounded { w with sessions :=
            { w.sessions.modifySlot i (fun _ => x) with sessionId := c } } :=
          ⟨hb'.link, hb'.sessions, hb'.queue⟩
        exact (_umtpApduSubmit_safely hb'' (by omega) (by omega) (by simpa using hle) dst).congr
          hrun
    · refine safely_of_error (umtpApduSubmit_asleep hu dst hg) ?_
      rintro ⟨store, i, he, -⟩
      cases he

end

def NodeCall.Fits : NodeCall → Prop
  | .submit _ d => d.Fits
  | _ => True

theorem NodeCall.exec_safely {w : World σ} (hb : SendBounded w) (umtp : Ref) {c : NodeCall}
    (hv : c.Valid) (hfits : c.Fits) :
    Safely Stop.SendOverrun (fun _ => SendBounded) (c.exec umtp) w := by
  cases c with
  | submit dst d =>
    exact (umtpApduSubmit_safely hb hv hfits dst).bind fun _ _ hb => safely_pure hb
  | process ms => exact umtpSessionProcess_safely hb ms
  | handle src npdu len =>
    exact (npduHandler_safely hb src npdu len).bind fun _ _ hb => safely_pure hb
  | sendQueued => exact sendQueued_safely hb

/-- A request that is too long never comes back from `umtp_apdu_submit`. -/
theorem umtpApduSubmit_stops {umtp : Ref} (hu : umtp ≠ 0) {d : ApduData} (hd : d.InRange)
    (hfits : ¬ d.Fits) (dst : UmtpAddr) (w : World σ) :
    ∃ e w', (umtpApduSubmit umtp dst (some d)).run w = .error e w' := by
  by_cases hg : w.Grants d
  · exact ⟨_, _, umtpApduSubmit_overrun hu dst hg hd hfits⟩
  · exact ⟨_, _, umtpApduSubmit_asleep hu dst hg⟩

theorem nodeStep_sendBounded {umtp : Ref} {w w' : World σ} {c : NodeCall} (hb : SendBounded w)
    (h : NodeStep umtp w c w') : SendBounded w' := by
  obtain ⟨hv, hrun⟩ := h
  by_cases hfits : c.Fits
  · exact (NodeCall.exec_safely hb umtp hv hfits).post _ _ hrun
  · cases c with
    | submit dst d =>
      by_cases hu : umtp = 0
      · simp [NodeCall.exec, umtpApduSubmit, hu] at hrun
        exact hrun ▸ hb
      · obtain ⟨e, u, hstop⟩ := umtpApduSubmit_stops hu hv hfits dst w
        rw [NodeCall.exec, EStateM.run_bind, hstop] at hrun
        cases hrun
    | process ms => exact absurd trivial hfits
    | handle src npdu len => exact absurd trivial hfits
    | sendQueued => exact absurd trivial hfits

theorem World.Started.sendBounded {w : World σ} {host : Endian} {link : Dludp}
    {sendto : SendTo σ} (h : w.Started host link sendto) : SendBounded w := by
  refine ⟨?_, ?_, ?_⟩
  · intro dl hdl
    rw [h.dl] at hdl
    cases hdl
    exact dludp_linkTakes h.encrypt host sendto
  · intro i
    rw [h.sessions]
    exact Nat.zero_le _
  · intro m hm
    rcases h.mpu with hnone | ⟨recvBuffer, sendBuffer, hmpu⟩
    · rw [hnone] at hm
      contradiction
    · rw [hmpu] at hm
      cases hm
      refine ⟨mpuCreate_valid _ _ _, fun p hp => ?_⟩
      rw [mpuCreate_contents] at hp
      contradiction

theorem node_sendBounded {umtp : Ref} {w₀ w : World σ} {cs : List NodeCall}
    (hr : Run (NodeStep umtp) w₀ cs w) (h₀ : SendBounded w₀) : SendBounded w :=
  hr.invariant SendBounded (fun _ _ _ hb h => nodeStep_sendBounded hb h) h₀

def NodeCall.Inside (umtp : Ref) (c : NodeCall) (w : World σ) : Prop :=
  ∀ e w', (c.exec umtp).run w = .error e w' → ¬ e.SendOverrun

/-- Neither the submission makes such a store, nor anything that comes after it: the timers,
the mpu task, replies, other requests as long as they fit. -/
def SubmitInside (umtp : Ref) (dst : UmtpAddr) (d : ApduData) (w : World σ) : Prop :=
  NodeCall.Inside umtp (.submit dst d) w ∧
    ∀ w₁, NodeStep umtp w (.submit dst d) w₁ →
      ∀ cs w₂, Run (NodeStep umtp) w₁ cs w₂ →
        ∀ c : NodeCall, c.Valid → c.Fits → c.Inside umtp w₂

def SubmitRefused (umtp : Ref) (dst : UmtpAddr) (d : ApduData) (w : World σ) : Prop :=
  ∃ r w', (umtpApduSubmit umtp dst (some d)).run w = .ok r w' ∧ r < 0

/-- The submission stores inside `tmp`, or does not come to store the data there: in the
last case it sleeps until a slot is free. -/
def SubmitFits (umtp : Ref) (d : ApduData) (w : World σ) : Prop :=
  umtp = 0 ∨ (d.headerLen : Int) + d.dataLen ≤ maxApdu ∨
    (d.confirmed = true ∧ ∀ i, (w.sessions.session i).sessionId ≠ 0)

section

variable {umtp : Ref} {d : ApduData} (hd : d.InRange) {w : World σ} (dst : UmtpAddr)

include hd

theorem umtpApduSubmit_overruns (hfits : ¬ SubmitFits umtp d w) :
    (umtpApduSubmit umtp dst (some d)).run w =
      .error (.overrun .submitTmp maxApdu) (w.granted d) := by
  simp only [SubmitFits, not_or, not_and, not_forall, not_not] at hfits
  obtain ⟨hu, hlong, hfree⟩ := hfits
  have hg : w.Grants d := by
    rw [w.grants_iff]
    cases hc : d.confirmed with
    | false => exact .inl rfl
    | true => exact .inr (hfree hc)
  exact umtpApduSubmit_overrun hu dst hg hd hlong

theorem submit_overruns (hfits : ¬ SubmitFits umtp d w) :
    ¬ (SubmitRefused umtp dst d w ∨ SubmitInside umtp dst d w) := by
  have hover := umtpApduSubmit_overruns hd dst hfits
  rintro (⟨r, w', hrun, -⟩ | h)
  · rw [hover] at hrun
    cases hrun
  · refine h.1 (.overrun .submitTmp maxApdu) (w.granted d) ?_ ⟨_, _, rfl, trivial⟩
    rw [NodeCall.exec, EStateM.run_bind, hover]

theorem submit_inside (hb : SendBounded w) (hfits : SubmitFits umtp d w) :
    SubmitInside umtp dst d w := by
  have hnow : NodeCall.Inside umtp (.submit dst d) w := by
    intro e w' hrun
    rcases hfits with hu | hfits | ⟨hc, hfull⟩
    · simp [NodeCall.exec, umtpApduSubmit, hu] at hrun
    · exact (NodeCall.exec_safely hb umtp (c := .submit dst d) hd hfits).fine e w' hrun
    · have hg : ¬ w.Grants d := by
        rw [w.grants_iff, hc]
        simpa using hfull
      by_cases hu : umtp = 0
      · simp [NodeCall.exec, umtpApduSubmit, hu] at hrun
      · rw [NodeCall.exec, EStateM.run_bind, umtpApduSubmit_asleep hu dst hg] at hrun
        cases hrun
        rintro ⟨store, i, he, -⟩
        cases he
  refine ⟨hnow, fun w₁ h₁ cs' w₂ hr' c hv hfits => ?_⟩
  have hb₂ := node_sendBounded hr' (nodeStep_sendBounded hb h₁)
  exact (NodeCall.exec_safely hb₂ umtp hv hfits).fine

end

end Umtp
