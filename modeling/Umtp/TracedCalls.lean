import Umtp.Provenance
import Umtp.ReplyHandling

/-! The calls of a node keep it traced: what they send, queue, store and report goes back to
what has come in. -/

set_option autoImplicit false

namespace Umtp
open CheckedBuffer StateExcept RingWindow

variable {σ α : Type}

theorem Ensures.of_ok {P : α → World σ → Prop} {x : Proc σ α} {w : World σ}
    (h : ∀ a w', x.run w = .ok a w' → P a w') : Ensures P x w := ⟨h, fun _ _ _ => id⟩

theorem mpuPut_packet {q : QueueName} {addr : UmtpAddr} {data : Ref} {msg : Ptr} {len ret : Int}
    {w w' : World σ} {m : Mpu} (hm : w.mpu = some m) (hv : (m.queue q).Valid)
    (hrun : (mpuPut q addr data msg len).run w = .ok ret w') :
    w' = w ∨ ret = 0 ∧ ∃ ring pkt, w' = w.setQueue q ring ∧ ring.Valid ∧
      ring.contents = (m.queue q).contents ++ [pkt] ∧ len.toNat ≤ maxMpuData ∧
      msg.off + len.toNat ≤ msg.obj.length ∧ pkt.length = UInt16.ofInt len ∧
      pkt.buffer.cells.take len.toNat = msg.bytes.take len.toNat ∧ pkt.addr = addr := by
  cases hrunning : m.running with
  | false =>
    simp only [mpuPut, EStateM.run_bind, EStateM.run_get, hm, hrunning, Bool.not_false, if_true] at hrun
    cases hrun
    exact .inl rfl
  | true =>
    by_cases hfull : (m.queue q).size = maxPduCount
    · rw [mpuPut_full addr data hm hrunning hv hfull] at hrun
      cases hrun
      exact .inl rfl
    · have hroom : (m.queue q).size < maxPduCount := by
        have := hv.size_le
        omega
      by_cases hread : msg.off + len.toNat ≤ msg.obj.length
      · by_cases hlen : len.toNat ≤ maxMpuData
        · obtain ⟨ring, pkt, hput, hvalid, -, hcont, hpl, hpb, hpa, -⟩ :=
            mpuPut_room addr data hm hrunning hv hroom hread hlen
          rw [hput] at hrun
          cases hrun
          exact .inr ⟨rfl, ring, pkt, rfl, hvalid, hcont, hlen, hread, hpl, hpb, hpa⟩
        · obtain ⟨slot, hover⟩ := mpuPut_overrun addr data hm hrunning hv hroom hread (by omega)
          rw [hover] at hrun
          cases hrun
      · cases hpeek : ringbufDataPeek (m.queue q) with
        | none => exact absurd ((ringbufDataPeek_none hv).mp hpeek) hfull
        | some slot => simp [mpuPut, hm, hrunning, hpeek, memcpy, hread] at hrun

section

variable {I : Inputs} {types : List (ServiceType σ)} {w : World σ} (h : Traced I types w)

include h

theorem npduSend_traced (umtp : Ref) {dst : UmtpAddr} {data : Ptr} {apdu : List UInt8}
    (ho : Outgoing I types w.trace dst apdu) (hp : apdu <+: data.bytes) :
    Ensures (fun _ => Traced I types) (npduSend umtp dst data apdu.length) w := by
  obtain ⟨hpos, hlen⟩ := ho.length
  have htake : data.bytes.take (apdu.length : Int).toNat = apdu :=
    (List.prefix_iff_eq_take.mp hp).symm
  have hread : data.off + (apdu.length : Int).toNat ≤ data.obj.length := by
    have := hp.length_le
    simp [Ptr.bytes] at this ⊢
    omega
  have hevent : ∀ e, e = Event.send dst (fttpProtocolVersion :: apdu) →
      Justified I types w.trace e := by
    rintro _ rfl
    exact ⟨apdu, rfl, ho⟩
  apply Ensures.of_ok
  intro r w' hrun
  by_cases hu : umtp = 0
  · subst hu
    have hneg : ¬ (apdu.length : Int) ≤ 0 := by omega
    unfold npduSend at hrun
    rw [if_neg hneg] at hrun
    obtain ⟨enc, u, -, hrun⟩ := of_bind_ok hrun
    obtain ⟨tmp, u, -, hrun⟩ := of_bind_ok hrun
    obtain ⟨a, u, hthrow, -⟩ := of_bind_ok hrun
    cases hthrow
  · rw [npduSend_framed hu (by omega) hread (by omega) dst, htake] at hrun
    cases hdl : w.dl with
    | none =>
      rw [hdl] at hrun
      cases hrun
      exact h
    | some dl =>
      rw [hdl] at hrun
      dsimp only at hrun
      rw [sendData_run, npduFrame_sent] at hrun
      have hcalls : CallsOut (· = Event.send dst (fttpProtocolVersion :: apdu)) w w' := by
        cases happ : (dl.sendData dst ⟨.npduTmp, npduFrame apdu, 0⟩ (1 + (apdu.length : Int))).run
          w.app with
        | ok r app =>
          rw [happ] at hrun
          cases hrun
          exact ⟨_, app, by simp, rfl⟩
        | error e app =>
          rw [happ] at hrun
          cases hrun
      exact h.callsOut hevent hcalls

theorem mpuPut_traced {q : QueueName} {addr : UmtpAddr} {data : Ref} {msg : Ptr} {len : Int}
    (h0 : 0 ≤ len)
    (hp : ∀ p : Packet, p.addr = addr → p.message.bytes = msg.bytes.take len.toNat →
      PacketFrom I types w.trace p q) :
    Ensures (fun _ => Traced I types) (mpuPut q addr data msg len) w := by
  apply Ensures.of_ok
  intro r w' hrun
  cases hm : w.mpu with
  | none =>
    simp only [mpuPut, EStateM.run_bind, EStateM.run_get, hm] at hrun
    cases hrun
    exact h
  | some m =>
    obtain ⟨hv, hold⟩ := h.queue m hm q
    rcases mpuPut_packet hm hv hrun with rfl |
      ⟨-, ring, pkt, rfl, hvalid, hcont, hlen, hread, hpl, hpb, hpa⟩
    · exact h
    · have hdata : maxMpuData = 2000 := rfl
      have hshort := uint16_ofInt_toNat h0 (by omega)
      apply h.setQueue hm hvalid
      intro p hmem
      rw [hcont, List.mem_append, List.mem_singleton] at hmem
      rcases hmem with hmem | rfl
      · exact hold p hmem
      · refine ⟨by rw [hpl, hshort]; exact hlen, hp p hpa ?_⟩
        rw [Packet.message, hpl, hshort]
        exact hpb

theorem _umtpApduSubmit_traced {umtp : Ref} {dst : UmtpAddr} {data : Ptr} {apdu : List UInt8}
    (ho : Outgoing I types w.trace dst apdu) (hp : apdu <+: data.bytes) :
    Ensures (fun _ => Traced I types) (_umtpApduSubmit umtp dst data apdu.length) w := by
  have hmode : Ensures (fun _ => Traced I types) (do
      if !(← get).syncMode then
        mpuPutSend dst umtp data apdu.length
      else
        npduSend umtp dst data apdu.length) w := by
    apply (safely_get (Q := fun v u => w = v ∧ w = u) ⟨rfl, rfl⟩).bind
    rintro _ _ ⟨rfl, rfl⟩
    split
    · apply mpuPut_traced h (by omega)
      rintro p rfl hbytes
      have htake : p.message.bytes = apdu := by
        rw [hbytes, Int.toNat_natCast]
        exact (List.prefix_iff_eq_take.mp hp).symm
      show Outgoing I types _ p.addr p.message.bytes
      rwa [htake]
    · exact npduSend_traced h umtp ho hp
  unfold _umtpApduSubmit
  split
  · exact (safely_throw id).bind (P := fun _ _ => False) fun _ _ h => h.elim
  · exact hmode

variable {umtp : Ref} {src : UmtpAddr} {apdu : Ptr} {len : UInt16} {header : ApduHeader}

section

variable (hd : Decoded apdu header) (hheard : I.heard src header apdu len)

include hd hheard

theorem apduRequest_traced (ht : header.type = umtpPduRequest) :
    Ensures (fun _ => Traced I types) (apduRequest umtp src apdu len header) w := by
  apply Ensures.of_ok
  intro r w' hrun
  obtain ⟨n, u, hreply, hsubmit⟩ := of_bind_ok hrun
  obtain ⟨es, app, blk, type, body, rfl, hes, hans, hn, hfit, hcells⟩ :=
    apduReply_answered hd.wellFormed.decodeLen hreply
  have hu : Traced I types
      { w with app, apduTransBlk := blk, trace := w.trace ++ es } := by
    apply h.emit _ app blk w.reads
    intro e he
    rw [hes e he]
    exact ⟨header, apdu, len, hheard, ht, rfl, rfl, rfl⟩
  rw [h.services] at hans
  have ho : Outgoing I types (w.trace ++ es) src (header.reply type ++ body) :=
    .reply hd.wellFormed hheard ht hans (hn ▸ hfit)
  rw [EStateM.run_bind, EStateM.run_get] at hsubmit
  dsimp only at hsubmit
  rw [hn] at hsubmit
  have hp : header.reply type ++ body <+: (⟨.apduTransBlk, blk.cells, 0⟩ : Ptr).bytes := by
    simpa [Ptr.bytes] using hcells
  exact (_umtpApduSubmit_traced hu ho hp).post _ _ hsubmit

omit hd hheard in
theorem clearReplySession_traced :
    Ensures (fun _ => Traced I types) (clearReplySession header) w := by
  unfold clearReplySession
  split
  · exact safely_modify (h.clear _)
  · exact safely_pure h

omit hd hheard in
theorem replySession_stored : I.Names header (replySession header w.sessions) := by
  intro i x hx
  obtain ⟨⟨hflag, hid, hheld⟩, rfl⟩ := replySession_names hx
  exact ⟨hflag, hheld, h.sessions i (.inr (hheld.symm ▸ hid))⟩

omit hd in
theorem apduResponse_traced (ht : header.type = umtpPduResponse) :
    Ensures (fun _ => Traced I types) (apduResponse src apdu len header) w := by
  apply (safely_get (Q := fun v u => w = v ∧ w = u) ⟨rfl, rfl⟩).bind
  rintro _ _ ⟨rfl, rfl⟩
  apply ((serviceRspHandler_total _ _ _ _ _).returns
    (serviceRspHandler_callsOut _ _ _ _ _) _).safely.bind
  intro _ u hcalls
  have hu : Traced I types u := by
    apply h.callsOut _ hcalls
    rintro _ rfl
    exact ⟨header, apdu, len, hheard, ht, replySession_stored h, rfl, rfl, rfl⟩
  exact (clearReplySession_traced hu).bind fun _ _ hu => safely_pure hu

omit hd in
theorem apduError_traced (ht : header.type = umtpPduError) :
    Ensures (fun _ => Traced I types) (apduError src apdu header) w := by
  apply (safely_get (Q := fun v u => w = v ∧ w = u) ⟨rfl, rfl⟩).bind
  rintro _ _ ⟨rfl, rfl⟩
  have hread : Ensures (fun b u => apdu.get header.decodeLen = some b ∧ ∃ i, u = w.read i)
      (readPdu apdu header.decodeLen) w := by
    apply Ensures.of_ok
    intro b u hrun
    obtain ⟨hget, rfl⟩ := readPdu_final hrun
    exact ⟨hget, _, rfl⟩
  apply hread.bind
  rintro b _ ⟨hget, i, rfl⟩
  have hr : Traced I types (w.read i) := h.quiet _
  apply ((serviceErrorHandler_total _ _ _ _).returns
    (serviceErrorHandler_callsOut _ _ _ _) _).safely.bind
  intro _ u hcalls
  have hu : Traced I types u := by
    apply hr.callsOut _ hcalls
    rintro _ rfl
    exact ⟨header, apdu, len, b, hheard, ht, replySession_stored h, rfl, hget, rfl⟩
  exact (clearReplySession_traced hu).bind fun _ _ hu => safely_pure hu

theorem apduSwitch_traced :
    Ensures (fun _ => Traced I types) (apduSwitch umtp src apdu len header) w := by
  unfold apduSwitch
  split
  · rename_i ht
    exact apduRequest_traced h hd hheard ht
  · split
    · rename_i ht
      exact apduResponse_traced h hheard ht
    · split
      · rename_i ht
        exact apduError_traced h hheard ht
      · exact (clearReplySession_traced h).bind fun _ _ hu => safely_pure hu

end

theorem apduHandler_traced (hheard : ∀ header, Decoded apdu header → I.heard src header apdu len) :
    Ensures (fun _ => Traced I types) (apduHandler umtp src apdu len) w := by
  unfold apduHandler
  split
  · exact safely_pure h
  · apply Safely.bind (P := fun r u => Traced I types u ∧ ∀ header, r = some header →
      Decoded apdu header)
    · apply Ensures.of_ok
      intro r u hrun
      obtain ⟨⟨reads, rfl⟩, hd⟩ := apduDecode_final hrun
      exact ⟨h.quiet reads, hd⟩
    · rintro r u ⟨hu, hd⟩
      cases r with
      | none => exact safely_pure hu
      | some header => exact apduSwitch_traced hu (hd header rfl) (hheard header (hd header rfl))

theorem npduHandler_traced {p : Ptr} {npdu : List UInt8} (hnpdu : I.Accepts src npdu)
    (hp : npdu <+: p.bytes) (hlen : len.toNat = npdu.length) :
    Ensures (fun _ => Traced I types) (npduHandler umtp src p len) w := by
  have hread : ∀ {u : World σ} {i}, Traced I types u →
      Ensures (fun _ => Traced I types) (readPdu p i) u := by
    intro u i hu
    apply Ensures.of_ok
    intro b v hrun
    obtain ⟨-, rfl⟩ := readPdu_final hrun
    exact hu.quiet _
  unfold npduHandler npduDecode
  split
  · exact safely_pure h
  · apply (hread h).bind
    intro version u hu
    split
    · exact safely_pure hu
    · apply Safely.bind (P := fun d u => Traced I types u ∧ d.2 = 1)
      · exact (hread hu).bind fun _ _ hu => safely_pure ⟨hu, rfl⟩
      · rintro ⟨v, n⟩ u ⟨hu, rfl⟩
        dsimp only
        split
        · exact apduHandler_traced hu fun header hd => hnpdu p len header hp hlen hd
        · exact safely_pure hu

omit h in
theorem Inputs.Stored.of_eq {x y : Session} (hx : I.Stored x) (hid : y.sessionId = x.sessionId)
    (htimeout : y.timeout = x.timeout) (hdest : y.dest = x.dest) (hlen : y.pduLen = x.pduLen)
    (hpdu : y.pdu = x.pdu) : I.Stored y := by
  obtain ⟨d, id, ha, hk⟩ := hx
  exact ⟨d, id, hdest ▸ ha, hk.confirmed, hid.trans hk.sessionId, htimeout.trans hk.timeout,
    hlen ▸ hk.pduLen, hpdu ▸ hk.pdu⟩

theorem callTimeout_traced {x : Session} (hx : I.Stored x) (i : Fin maxUmtpSession) :
    Ensures (fun _ => Traced I types) (callTimeout x.timeout x.dest (x.pduPtr i) x.pduLen.toNat)
      w := by
  obtain ⟨d, id, ha, hk⟩ := hx
  obtain ⟨hservice, hdrop, hcount⟩ := d.apdu_confirmed ha.inRange hk.confirmed id
  have hp : d.apdu id <+: (x.pduPtr i).bytes := hk.pdu
  have hget : (x.pduPtr i).get 2 = some d.serviceByte := Ptr.get_of_prefix hp hservice
  have hdata : d.payload <+: ((x.pduPtr i).add 4).bytes := by
    rw [Ptr.add_bytes, ← hdrop]
    exact hp.drop 4
  have hlen : ((x.pduLen.toNat : Nat) : Int) - 4 = d.payload.length := by
    rw [hk.pduLen, hcount]
    omega
  rw [hk.timeout]
  apply Ensures.of_ok
  intro r w' hrun
  simp only [callTimeout, apduTimeoutHandler, hget] at hrun
  have hcalls := (serviceTimeoutHandler_callsOut x.dest d.serviceByte.toNat ((x.pduPtr i).add 4)
    ((x.pduLen.toNat : Nat) - 4)).of_ok hrun
  apply h.callsOut _ hcalls
  rintro _ rfl
  exact ⟨d, id, ha, hk.confirmed, rfl, rfl, hdata, hlen⟩

theorem processSlot_traced (ms : UInt16) (i : Fin maxUmtpSession) :
    Ensures (fun _ => Traced I types) (processSlot ms i) w := by
  cases hwait : (w.sessions.session i).waiting with
  | false => exact safely_of_ok (processSlot_idle hwait) h
  | true =>
    have hx := h.sessions i (.inl hwait)
    by_cases ht : ((w.sessions.session i).ticked ms).timer = 0
    · by_cases hr : (w.sessions.session i).retry < w.apduRetry
      · apply Safely.congr _ (processSlot_retry hwait ht hr)
        have hu : Traced I types
            (w.modifySlot i (fun x => (x.ticked ms).retried w.apduTimeout)) :=
          h.modifySlot i fun _ => hx.of_eq rfl rfl rfl rfl rfl
        obtain ⟨d, id, ha, hk⟩ := hx
        have hsend := npduSend_traced hu (w.sessions.session i).data (.request ha)
          (show d.apdu id <+: ((w.sessions.session i).pduPtr i).bytes from hk.pdu)
        rw [← hk.pduLen] at hsend
        exact hsend.bind fun _ _ hu => safely_pure hu
      · apply Safely.congr _ (processSlot_expired hwait ht hr)
        have hu : Traced I types (w.modifySlot i (Session.ticked ms)) :=
          h.modifySlot i fun _ => hx.of_eq rfl rfl rfl rfl rfl
        apply (callTimeout_traced hu hx i).bind
        intro _ v hv
        exact safely_modify (hv.modifySlot i (by simp [Session.released]))
    · exact safely_of_ok (processSlot_ticking hwait ht)
        (h.modifySlot i fun _ => hx.of_eq rfl rfl rfl rfl rfl)

theorem umtpSessionProcess_traced (ms : UInt16) :
    Ensures (fun _ => Traced I types) (umtpSessionProcess ms) w :=
  safely_forM _ (fun i _ h => processSlot_traced h ms i) h

theorem umtpApduSubmit_traced {dst : UmtpAddr} {d : ApduData} (hd : d.InRange)
    (ha : I.asked dst d (w.grantedId d)) :
    Ensures (fun _ => Traced I types) (umtpApduSubmit umtp dst (some d)) w := by
  apply Ensures.of_ok
  intro r w' hrun
  by_cases hu : umtp = 0
  · subst hu
    cases hrun
    exact h
  · obtain ⟨hg, hfits⟩ := umtpApduSubmit_ok hu hd hrun
    have hasked : I.Asked dst d (w.grantedId d) := ⟨ha, hd, hfits⟩
    obtain ⟨s, hstores, tmp, htmp, hsubmit⟩ := umtpApduSubmit_stored hu dst hg hd hfits
    have hs : Traced I types { w with sessions := s } := by
      cases hc : d.confirmed with
      | false =>
        rw [StoresRequest, hc] at hstores
        exact h.setSessions fun i hi => by
          rw [show s = w.sessions from hstores] at hi ⊢
          exact h.sessions i hi
      | true =>
        rw [StoresRequest, if_pos hc] at hstores
        obtain ⟨-, i, -, hx, hother⟩ := hstores
        apply h.setSessions
        intro j hj
        by_cases hji : j = i
        · subst hji
          exact ⟨d, _, hx.dest.symm ▸ hasked, hc, hx.sessionId, hx.timeout, hx.pduLen,
            hx.pdu ▸ List.take_prefix _ _⟩
        · have hsame : s.session j = w.sessions.session j := hother j hji
          rw [hsame] at hj ⊢
          exact h.sessions j hj
    rw [hsubmit] at hrun
    have hp : d.apdu (w.grantedId d) <+: (⟨.submitTmp, tmp.cells, 0⟩ : Ptr).bytes := by
      simpa [Ptr.bytes] using htmp
    exact (_umtpApduSubmit_traced hs (.request hasked) hp).post _ _ hrun

theorem mpuPop_traced (q : QueueName) : Ensures (fun _ => Traced I types) (mpuPop q) w := by
  apply safely_modify
  cases hm : w.mpu with
  | none => exact ⟨h.services, h.trace, h.sessions, by simp⟩
  | some m =>
    obtain ⟨hv, hp⟩ := h.queue m hm q
    have hpopped : (ringbufPop (m.queue q)).2.Valid ∧
        ∀ p ∈ (ringbufPop (m.queue q)).2.contents, p ∈ (m.queue q).contents := by
      cases hc : (m.queue q).contents with
      | nil =>
        have hempty := (ringbufEmpty_iff _).mpr hc
        simp only [ringbufPop, hempty, if_true]
        exact ⟨hv, fun p hmem => by rwa [hc] at hmem⟩
      | cons p ps =>
        obtain ⟨-, hvalid, hcont⟩ := ringbufPop_cons hv hc
        exact ⟨hvalid, fun p' hmem => List.mem_cons_of_mem p (hcont ▸ hmem)⟩
    have hset := h.setQueue hm hpopped.1 fun p hmem => hp p (hpopped.2 p hmem)
    simpa [World.setQueue, hm] using hset

theorem mpuMsgHandle_traced {q : QueueName} {handler : Fin maxPduCount → Packet → Proc σ Int}
    (hhandler : ∀ slot p, p.length.toNat ≤ maxMpuData → PacketFrom I types w.trace p q →
      Ensures (fun _ => Traced I types) (handler slot p) w) :
    Ensures (fun _ => Traced I types) (mpuMsgHandle q handler) w := by
  cases hm : w.mpu with
  | none =>
    apply Ensures.of_ok
    intro r w' hrun
    obtain ⟨m, u, hmpu, -⟩ := of_bind_ok hrun
    simp [umtpMpu, hm] at hmpu
  | some m =>
    obtain ⟨-, hp⟩ := h.queue m hm q
    cases hc : (m.queue q).contents with
    | nil => exact safely_of_ok (mpuMsgHandle_nil handler hm hc) h
    | cons p ps =>
      obtain ⟨slot, hrun⟩ := mpuMsgHandle_cons handler hm hc
      obtain ⟨hlen, hfrom⟩ := hp p (by simp [hc])
      apply Safely.congr _ hrun
      apply (hhandler slot p hlen hfrom).bind
      intro r u hu
      split
      · exact safely_pure hu
      · exact mpuPop_traced hu q

omit h in
theorem Packet.message_length {p : Packet} (h : p.length.toNat ≤ maxMpuData) :
    p.message.bytes.length = p.length.toNat := by
  simp only [Packet.message, List.length_take, Buf.length_cells]
  omega

theorem recvQueued_traced :
    Ensures (fun _ => Traced I types) (mpuMsgHandle .recv _umtpHandleMsg) w := by
  apply mpuMsgHandle_traced h
  intro slot p hlen hfrom
  exact npduHandler_traced h hfrom (List.take_prefix _ _) (Packet.message_length hlen).symm

theorem sendQueued_traced :
    Ensures (fun _ => Traced I types) (mpuMsgHandle .send _umtpSendMsg) w := by
  apply mpuMsgHandle_traced h
  intro slot p hlen hfrom
  have hsend := npduSend_traced h p.data hfrom
    (show p.message.bytes <+: (⟨.mpuSend slot, p.buffer.cells, 0⟩ : Ptr).bytes from
      List.take_prefix _ _)
  rw [Packet.message_length hlen] at hsend
  exact hsend

theorem umtpTaskMessage_traced {buf : Buf UInt8 maxPdu} {n : Int} (h0 : 0 ≤ n) (hn : n ≤ maxPdu)
    (hnpdu : I.Accepts src (buf.cells.take n.toNat)) :
    Ensures (fun _ => Traced I types) (umtpTaskMessage umtp src buf n) w := by
  have hmax : (maxPdu : Int) = 2049 := rfl
  apply (safely_get (Q := fun v u => w = v ∧ w = u) ⟨rfl, rfl⟩).bind
  rintro _ _ ⟨rfl, rfl⟩
  split
  · apply mpuPut_traced h h0
    rintro p rfl hbytes
    show I.Accepts p.addr p.message.bytes
    rw [hbytes]
    exact hnpdu
  · have hcount := uint16_ofInt_toNat h0 (by omega)
    apply npduHandler_traced h hnpdu (List.take_prefix _ _)
    rw [hcount, List.length_take, Buf.length_cells]
    omega

theorem umtpTaskRound_traced {host : Endian} {dl : Dludp} {now : Int} {arrival : Arrival}
    {t : TaskLocals}
    (hrecv : Ensures (fun r u => w = u ∧ (0 < r.1 → r.1 ≤ (maxPdu : Int) ∧
      I.Accepts r.2.1 (r.2.2.cells.take r.1.toNat)))
      (dludpRecvData host dl t.src t.buf maxPdu arrival) w) :
    Ensures (fun _ => Traced I types) (umtpTaskRound umtp host dl now arrival t) w := by
  apply Safely.congr _ (umtpTaskRound_run umtp host dl now arrival t w)
  apply Safely.bind (P := fun _ => Traced I types)
  · apply hrecv.bind
    rintro ⟨n, src, buf⟩ u ⟨rfl, hmsg⟩
    dsimp only
    split
    · exact safely_pure h
    · split
      · rename_i hpos
        obtain ⟨hn, hnpdu⟩ := hmsg hpos
        exact (umtpTaskMessage_traced h (Int.le_of_lt hpos) hn hnpdu).bind fun _ _ hu =>
          safely_pure hu
      · exact safely_pure h
  · intro r u hu
    split
    · unfold umtpTaskTimers
      split
      · exact (umtpSessionProcess_traced hu _).bind fun _ _ hu => safely_pure hu
      · exact safely_pure hu
    · exact safely_pure hu

end

end Umtp
