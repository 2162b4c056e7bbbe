import Umtp.MpuTask
import Umtp.PacketQueue
import Umtp.Reply

/-! When the inner loop of `mpu_task` empties both queues. A packet the handler rejects is
not popped, and then the loop never ends. -/

set_option autoImplicit false

namespace Umtp
open CheckedBuffer StateExcept

variable {σ : Type}

/-- A reply that a block with a header of `off` bytes has room for. -/
def ReqReply.Fits (r : ReqReply) (off : Nat) : Prop :=
  off + r.stored.length ≤ maxApdu ∧
    (r.status = 0 → off + r.dataLen.toNat ≤ maxApdu ∧
      ∀ own, r.own = some own → r.dataLen.toNat ≤ own.length)

def ServicesFit (services : List (ServiceType σ)) : Prop :=
  ∀ type ∈ services, ∀ f, type.reqHandler = some f →
    ∀ s src id data len, (f s src id data len).2.Fits 4

def LinkAccepts (dl : UmtpDl σ) : Prop :=
  ∀ s dst pdu (len : Int), 0 < len → len ≤ maxNpdu → pdu.off = 0 → pdu.obj.length = maxNpdu →
    ∃ s', (dl.sendData dst pdu len).run s = .ok 0 s'

/-- The packets `npdu_handler` does not turn down: the right version, and no APDU or one of
a known type. The bytes after the packet's end count, as they are looked at too. -/
def Packet.Accepted (p : Packet) : Prop :=
  p.buffer.cells[0]? = some fttpProtocolVersion ∧
    (p.length.toNat ≤ 1 ∨ ∃ type, p.buffer.cells[2]? = some type ∧ type < umtpPduTypeMax)

def Packet.Sendable (p : Packet) : Prop :=
  p.data ≠ 0 ∧ 1 ≤ p.length.toNat ∧ p.length.toNat ≤ maxApdu

theorem apduReply_returns (src : UmtpAddr) (apdu : Ptr) (pduLen : UInt16) {h : ApduHeader}
    {w : World σ} (hl : h.decodeLen = apduHeaderLen h.flag) (hfit : ServicesFit w.services) :
    Returns (fun n _ => 1 ≤ n.toNat ∧ n.toNat ≤ maxApdu) (apduReply src apdu pduLen h) w := by
  have hge := apduHeaderLen_ge h.flag
  have hle := apduHeaderLen_le h.flag
  have hmax : maxApdu = 1024 := rfl
  have hn : ∀ k, 1 ≤ k → k ≤ maxApdu →
      1 ≤ (UInt16.ofNat k).toNat ∧ (UInt16.ofNat k).toNat ≤ maxApdu := by
    intro k h1 h2
    rw [UInt16.toNat_ofNat', Nat.mod_eq_of_lt (by omega)]
    exact ⟨h1, h2⟩
  have herror : ∀ {ret : Int} {sd : ServiceData} {w' : World σ}, ret ≠ 0 →
      (serviceHandler src ⟨h.service.toNat, 0, .block h.decodeLen⟩ (apdu.add h.decodeLen)
        (restLen pduLen h.decodeLen)).run w = .ok (ret, sd) w' →
      Returns (fun n _ => 1 ≤ n.toNat ∧ n.toNat ≤ maxApdu) (apduReply src apdu pduLen h) w := by
    intro ret sd w' hret hservice
    obtain ⟨blk, hrun, -⟩ := apduReply_error hl hret hservice
    exact ⟨_, _, hrun, hn _ (by omega) (by omega)⟩
  have hresponse : ∀ {sd : ServiceData} {w' : World σ},
      (serviceHandler src ⟨h.service.toNat, 0, .block h.decodeLen⟩ (apdu.add h.decodeLen)
        (restLen pduLen h.decodeLen)).run w = .ok (0, sd) w' →
      h.decodeLen + sd.dataLen.toNat ≤ maxApdu →
      (sd.data = .block h.decodeLen ∨
        ∃ own, sd.data = .own own ∧ sd.dataLen.toNat ≤ own.length) →
      Returns (fun n _ => 1 ≤ n.toNat ∧ n.toNat ≤ maxApdu) (apduReply src apdu pduLen h) w := by
    intro sd w' hservice hroom hd
    obtain ⟨blk, hrun, -⟩ := apduReply_response hl hservice
      (by rcases hd with hd | ⟨own, hd, -⟩ <;> simp [hd])
      (by rcases hd with hd | ⟨own, hd, hown⟩ <;> simpa [hd, ReplyData.ptr]) hroom
    exact ⟨_, _, hrun, hn _ (by omega) hroom⟩
  by_cases hlen : restLen pduLen h.decodeLen = 0
  · exact herror (by decide) (serviceHandler_empty hlen)
  · cases hget : serviceTypeGet w.services (h.service.toNat : Int) with
    | none => exact herror (by decide) (serviceHandler_absent hlen hget)
    | some type =>
      cases hf : type.reqHandler with
      | none =>
        exact hresponse (serviceHandler_noHandler hlen hget hf) (by simp; omega) (.inl rfl)
      | some f =>
        have hreply := hfit type (serviceTypeGet_mem hget) f hf w.app src h.service.toNat
          (apdu.add h.decodeLen) (handlerLen (restLen pduLen h.decodeLen))
        rcases hcall : f w.app src h.service.toNat (apdu.add h.decodeLen)
          (handlerLen (restLen pduLen h.decodeLen)) with ⟨app, reply⟩
        rw [hcall] at hreply
        obtain ⟨hstored, hroom⟩ := hreply
        obtain ⟨blk, hblk⟩ : ∃ blk, w.apduTransBlk.write h.decodeLen reply.stored = some blk :=
          Buf.exists_write (by simp only at hstored; omega)
        have hrun := serviceHandler_run ⟨h.service.toNat, 0, .block h.decodeLen⟩ hlen hget hf
          hcall rfl hblk
        by_cases hstatus : reply.status = 0
        · obtain ⟨hfits, hown⟩ := hroom hstatus
          rw [hstatus] at hrun
          apply hresponse hrun
          · simp only at hfits ⊢
            omega
          · cases ho : reply.own with
            | none => exact .inl rfl
            | some own => exact .inr ⟨own, rfl, hown own ho⟩
        · exact herror hstatus hrun

theorem npduSend_returns {umtp : Ref} (hu : umtp ≠ 0) {w : World σ} {dl : UmtpDl σ}
    (hdl : w.dl = some dl) (hlink : LinkAccepts dl) {data : Ptr} {len : Int} (h0 : 0 < len)
    (hlen : len ≤ maxApdu) (hread : data.off + len.toNat ≤ data.obj.length) (dst : UmtpAddr) :
    Returns (fun r _ => r = 0) (npduSend umtp dst data len) w := by
  have hmaxApdu : (maxApdu : Int) = 1024 := rfl
  have hmaxNpdu : (maxNpdu : Int) = 1025 := rfl
  have hcopy : (data.bytes.take len.toNat).length ≤ maxApdu := by
    simp
    omega
  obtain ⟨s', hs'⟩ := hlink w.app dst
    ⟨.npduTmp, npduFrame (data.bytes.take len.toNat), 0⟩ (1 + len) (by omega) (by omega) rfl
    (npduFrame_length hcopy)
  have hsend := sendData_run dl dst ⟨.npduTmp, npduFrame (data.bytes.take len.toNat), 0⟩
    (1 + len) w
  rw [hs'] at hsend
  exact ⟨0, _, (npduSend_run hu hdl h0 hread hlen dst).trans hsend, rfl⟩

def Replied (m : Mpu) (r : Int) (w : World σ) : Prop :=
  r = 0 ∧ (w.mpu = some m ∨ ∃ ring pkt, w.mpu = some (m.setQueue .send ring) ∧ ring.Valid ∧
      ring.contents = (m.queue .send).contents ++ [pkt] ∧ pkt.Sendable) ∨
    r ≠ 0 ∧ w.mpu = some m ∧ (m.queue .send).size = maxPduCount

structure DrainInv (w : World σ) (m : Mpu) : Prop where
  up : w.mpu = some m
  recvValid : (m.queue .recv).Valid
  sendValid : (m.queue .send).Valid
  link : ∃ dl, w.dl = some dl ∧ LinkAccepts dl
  services : ServicesFit w.services
  recvData : ∀ p ∈ (m.queue .recv).contents, p.data ≠ 0
  sendable : ∀ p ∈ (m.queue .send).contents, p.Sendable

theorem _umtpApduSubmit_returns {w : World σ} {m : Mpu} (hup : w.mpu = some m)
    (hv : (m.queue .send).Valid) (hlink : ∃ dl, w.dl = some dl ∧ LinkAccepts dl) {umtp : Ref}
    (hu : umtp ≠ 0) {apdu : Ptr} {len : UInt16} (h1 : 1 ≤ len.toNat) (hlen : len.toNat ≤ maxApdu)
    (hread : apdu.off + len.toNat ≤ apdu.obj.length) (dst : UmtpAddr) :
    Returns (Replied m) (_umtpApduSubmit umtp dst apdu len.toNat) w := by
  have hmax : maxApdu = 1024 := rfl
  have hdata : maxMpuData = 2000 := rfl
  by_cases hsync : w.syncMode = true
  · obtain ⟨dl, hdl, hacc⟩ := hlink
    have hsend := (npduSend_returns hu hdl hacc (show 0 < (len.toNat : Int) by omega)
      (by omega) (by simpa using hread) dst).moves (npduSend_callsOut _ _ _ _)
    obtain ⟨r, w', hr, rfl, hcalls⟩ := hsend
    refine ⟨0, w', ?_, .inl ⟨rfl, .inl (hcalls.mpu.trans hup)⟩⟩
    simpa [_umtpApduSubmit, hu, hsync] using hr
  · have hasync : (_umtpApduSubmit umtp dst apdu len.toNat).run w =
        (mpuPut .send dst umtp apdu len.toNat).run w := by
      simp [_umtpApduSubmit, hu, hsync, mpuPutSend]
    by_cases hrun : m.running = true
    · by_cases hfull : (m.queue .send).size = maxPduCount
      · exact ⟨_, w, hasync.trans (mpuPut_full _ _ hup hrun hv hfull),
          .inr ⟨by decide, hup, hfull⟩⟩
      · have hroom : (m.queue .send).size < maxPduCount := by
          have := hv.size_le
          omega
        obtain ⟨ring, pkt, hput, hvalid, -, hcont, hpl, -, -, hpd⟩ :=
          mpuPut_room dst umtp hup hrun hv hroom
            (show apdu.off + (len.toNat : Int).toNat ≤ _ by simpa using hread) (by simp; omega)
        have hl := uint16_ofInt_toNat (show 0 ≤ (len.toNat : Int) by omega) (by omega)
        refine ⟨0, _, hasync.trans hput, .inl ⟨rfl, .inr ⟨ring, pkt, ?_, hvalid, hcont, ?_⟩⟩⟩
        · simp [World.setQueue, hup]
        · rw [Packet.Sendable, hpl, hl, hpd]
          exact ⟨hu, by simpa using h1, by simpa using hlen⟩
    · refine ⟨0, w, ?_, .inl ⟨rfl, .inl hup⟩⟩
      rw [hasync]
      simp [mpuPut, hup, hrun]

def SameSetup (w w' : World σ) : Prop := w'.services = w.services ∧ w'.dl = w.dl

instance : Std.Refl (@SameSetup σ) := ⟨fun _ => ⟨rfl, rfl⟩⟩

instance : IsTrans (World σ) SameSetup :=
  ⟨fun _ _ _ h₁ h₂ => ⟨h₂.1.trans h₁.1, h₂.2.trans h₁.2⟩⟩

theorem CallsOut.sameSetup {E : Event → Prop} {w w' : World σ} (h : CallsOut E w w') :
    SameSetup w w' := by
  obtain ⟨es, app, -, rfl⟩ := h
  exact ⟨rfl, rfl⟩

theorem handlerFrame_sameSetup : HandlerFrame (@SameSetup σ) where
  refl := inferInstance
  trans := inferInstance
  callsOut _ _ _ h := h.sameSetup
  reads _ _ := ⟨rfl, rfl⟩
  transBlk _ _ := ⟨rfl, rfl⟩
  clear _ _ := ⟨rfl, rfl⟩
  send _ _ := ⟨rfl, rfl⟩

def SameMpu (w w' : World σ) : Prop := w'.mpu = w.mpu

instance : Std.Refl (@SameMpu σ) := ⟨fun _ => rfl⟩

instance : IsTrans (World σ) SameMpu := ⟨fun _ _ _ h₁ h₂ => h₂.trans h₁⟩

section

variable {w : World σ} {m : Mpu} {umtp : Ref} {src : UmtpAddr} {apdu : Ptr} {pduLen : UInt16}
  {h : ApduHeader}

theorem apduResponse_returns (hup : w.mpu = some m) :
    Returns (Replied m) (apduResponse src apdu pduLen h) w := by
  apply Returns.bind (returns_get (Q := fun _ t => t = w) rfl)
  rintro s _ rfl
  apply Returns.bind ((serviceRspHandler_total _ _ _ _ _).returns
    (serviceRspHandler_callsOut _ _ _ _ _) _)
  intro _ t hcalls
  apply Returns.bind ((clearReplySession_total h).returns
    (clearReplySession_moves (R := SameMpu) (fun _ _ => rfl) h) t)
  intro _ u hmpu
  exact returns_pure (.inl ⟨rfl, .inl (hmpu.trans (hcalls.mpu.trans hup))⟩)

theorem apduError_returns (hup : w.mpu = some m) {status : UInt8}
    (hstatus : apdu.get h.decodeLen = some status) :
    Returns (Replied m) (apduError src apdu h) w := by
  apply Returns.bind (returns_get (Q := fun _ t => t = w) rfl)
  rintro s _ rfl
  apply Returns.bind ((readPdu_total hstatus).returns
    (readPdu_moves (R := SameMpu) fun _ => rfl) _)
  intro _ t hread
  apply Returns.bind ((serviceErrorHandler_total _ _ _ _).returns
    (serviceErrorHandler_callsOut _ _ _ _) _)
  intro _ u hcalls
  apply Returns.bind ((clearReplySession_total h).returns
    (clearReplySession_moves (R := SameMpu) (fun _ _ => rfl) h) u)
  intro _ v hmpu
  exact returns_pure (.inl ⟨rfl, .inl (hmpu.trans (hcalls.mpu.trans (hread.trans hup)))⟩)

theorem apduRequest_returns (hup : w.mpu = some m) (hv : (m.queue .send).Valid)
    (hlink : ∃ dl, w.dl = some dl ∧ LinkAccepts dl) (hfit : ServicesFit w.services)
    (hu : umtp ≠ 0) (hl : h.decodeLen = apduHeaderLen h.flag) :
    Returns (Replied m) (apduRequest umtp src apdu pduLen h) w := by
  have hreply := ((apduReply_returns src apdu pduLen hl hfit).moves
    (apduReply_moves (R := SameMpu) (fun _ _ => rfl) _ _ _ _ fun _ _ hc => hc.mpu)).moves
    (apduReply_moves (R := SameSetup) (fun _ _ => ⟨rfl, rfl⟩) _ _ _ _ fun _ _ hc => hc.sameSetup)
  apply Returns.bind hreply
  rintro n t ⟨⟨⟨h1, hmax⟩, hmpu⟩, -, hdl⟩
  apply Returns.bind (returns_get (Q := fun v u => v = t ∧ u = t) ⟨rfl, rfl⟩)
  rintro _ _ ⟨rfl, rfl⟩
  exact _umtpApduSubmit_returns (hmpu.trans hup) hv (hdl ▸ hlink) hu h1 hmax
    (by simpa using hmax) src

theorem apduSwitch_returns (hup : w.mpu = some m) (hv : (m.queue .send).Valid)
    (hlink : ∃ dl, w.dl = some dl ∧ LinkAccepts dl) (hfit : ServicesFit w.services)
    (hu : umtp ≠ 0) (hl : h.decodeLen = apduHeaderLen h.flag)
    (hstatus : h.type = umtpPduError → ∃ status, apdu.get h.decodeLen = some status) :
    Returns (Replied m) (apduSwitch umtp src apdu pduLen h) w := by
  unfold apduSwitch
  split
  · exact apduRequest_returns hup hv hlink hfit hu hl
  · split
    · exact apduResponse_returns hup
    · split
      · rename_i herr
        obtain ⟨status, hget⟩ := hstatus herr
        exact apduError_returns hup hget
      · apply Returns.bind ((clearReplySession_total h).returns
          (clearReplySession_moves (R := SameMpu) (fun _ _ => rfl) h) w)
        intro _ t hmpu
        exact returns_pure (.inl ⟨rfl, .inl (hmpu.trans hup)⟩)

end

theorem Packet.cells_get (p : Packet) {i : Nat} (hi : i < maxMpuData) :
    ∃ b, p.buffer.cells[i]? = some b :=
  ⟨_, List.getElem?_eq_getElem (by simpa using hi)⟩

theorem Packet.known_header {p : Packet} {type : UInt8}
    (hversion : p.buffer.cells[0]? = some fttpProtocolVersion) (hlen : 1 < p.length.toNat)
    (htype : p.buffer.cells[2]? = some type) (hlt : type < umtpPduTypeMax)
    (slot : Fin maxPduCount) :
    ∃ h : ApduHeader, h.type = type ∧ h.decodeLen = apduHeaderLen h.flag ∧
      p.buffer.cells[1]? = some h.flag ∧ p.buffer.cells[3]? = some h.service ∧
      ∀ (w : World σ), p.data ≠ 0 → (_umtpHandleMsg slot p).run w =
        (apduSwitch p.data p.addr ⟨.mpuRecv slot, p.buffer.cells, 1⟩ (p.length - 1) h).run
          (((w.read 0).read 0).readFirst ⟨.mpuRecv slot, p.buffer.cells, 1⟩ h.decodeLen) := by
  have hptr : ∀ i, (⟨.mpuRecv slot, p.buffer.cells, 1⟩ : Ptr).get i =
      p.buffer.cells[1 + i]? := fun _ => rfl
  obtain ⟨flag, hflag⟩ := p.cells_get (show 1 < maxMpuData by decide)
  obtain ⟨service, hservice⟩ := p.cells_get (show 3 < maxMpuData by decide)
  obtain ⟨sessionId, hid⟩ : ∃ sessionId, if apduHasSessionId flag then
      (⟨.mpuRecv slot, p.buffer.cells, 1⟩ : Ptr).get 3 = some sessionId else sessionId = 0 := by
    split
    · rw [hptr]
      exact p.cells_get (by decide)
    · exact ⟨0, rfl⟩
  refine ⟨⟨flag, type, service, sessionId, apduHeaderLen flag⟩, rfl, rfl, hflag, hservice,
    fun w hdata => ?_⟩
  have hfirst : (⟨.mpuRecv slot, p.buffer.cells, 0⟩ : Ptr).get 0 = some fttpProtocolVersion := by
    simpa [Ptr.get] using hversion
  rw [_umtpHandleMsg, npduHandler_apdu hdata hfirst hlen]
  exact apduHandler_known hdata ((hptr 0).trans hflag) ((hptr 1).trans htype)
    ((hptr 2).trans hservice) hlt hid _ _ _

/-- A packet that is not accepted is turned down and nothing happens; any other is handled,
or finds no room for its reply. -/
theorem _umtpHandleMsg_returns {w : World σ} {m : Mpu} (h : DrainInv w m)
    (slot : Fin maxPduCount) {p : Packet} (hp : p.data ≠ 0) :
    Returns (fun r w' => SameSetup w w' ∧
      (¬ p.Accepted ∧ r ≠ 0 ∧ w'.mpu = some m ∨ p.Accepted ∧ Replied m r w'))
      (_umtpHandleMsg slot p) w := by
  have hframe := npduHandler_moves (@handlerFrame_sameSetup σ) p.data p.addr
    ⟨.mpuRecv slot, p.buffer.cells, 0⟩ p.length
  refine ((?_ : Returns (fun r w' => ¬ p.Accepted ∧ r ≠ 0 ∧ w'.mpu = some m ∨
    p.Accepted ∧ Replied m r w') (_umtpHandleMsg slot p) w).moves hframe).weaken
    (fun _ _ ha => ⟨ha.2, ha.1⟩)
  have hptr : ∀ i, (⟨.mpuRecv slot, p.buffer.cells, 0⟩ : Ptr).get i = p.buffer.cells[i]? := by
    intro i
    simp [Ptr.get]
  obtain ⟨version, hversion⟩ := p.cells_get (show 0 < maxMpuData by decide)
  obtain ⟨type, htype⟩ := p.cells_get (show 2 < maxMpuData by decide)
  by_cases hv : version = fttpProtocolVersion
  · subst hv
    by_cases hlen : p.length.toNat ≤ 1
    · refine ⟨0, _, npduHandler_header hp ((hptr 0).trans hversion) hlen p.addr w, .inr ?_⟩
      exact ⟨⟨hversion, .inl hlen⟩, .inl ⟨rfl, .inl h.up⟩⟩
    · by_cases hmax : umtpPduTypeMax ≤ type
      · have hrun := npduHandler_apdu hp ((hptr 0).trans hversion) (Nat.not_le.mp hlen) p.addr w
        obtain ⟨flag, hflag⟩ := p.cells_get (show 1 < maxMpuData by decide)
        have happ : ∀ i, ((⟨.mpuRecv slot, p.buffer.cells, 0⟩ : Ptr).add 1).get i =
            p.buffer.cells[1 + i]? := by
          intro i
          rw [Ptr.add_get, hptr]
        have hunknown := apduHandler_unknown hp ((happ 0).trans hflag) ((happ 1).trans htype) hmax
          p.addr (p.length - 1) ((w.read 0).read 0)
        refine ⟨_, _, hrun.trans hunknown, .inl ⟨?_, by decide, h.up⟩⟩
        rintro ⟨-, hacc | ⟨type', htype', hlt⟩⟩
        · exact hlen hacc
        · obtain rfl := Option.some.inj (htype.symm.trans htype')
          exact UInt8.not_le.mpr hlt hmax
      · have hlt := UInt8.not_le.mp hmax
        obtain ⟨header, -, hl, -, -, hrun⟩ :=
          Packet.known_header hversion (Nat.not_le.mp hlen) htype hlt slot
        have hle := apduHeaderLen_le header.flag
        have hdata : maxMpuData = 2000 := rfl
        obtain ⟨status, hstatus⟩ := p.cells_get (show 1 + header.decodeLen < maxMpuData by omega)
        obtain ⟨r, w', hswitch, hreplied⟩ : Returns (Replied m)
            (apduSwitch p.data p.addr ⟨.mpuRecv slot, p.buffer.cells, 1⟩ (p.length - 1) header)
            (((w.read 0).read 0).readFirst _ header.decodeLen) :=
          apduSwitch_returns h.up h.sendValid h.link h.services hp hl fun _ => ⟨status, hstatus⟩
        exact ⟨r, w', (hrun w hp).trans hswitch, .inr
          ⟨⟨hversion, .inr ⟨type, htype, hlt⟩⟩, hreplied⟩⟩
  · refine ⟨_, _, npduHandler_version hp ((hptr 0).trans hversion) hv p.addr w, .inl ?_⟩
    refine ⟨?_, by decide, h.up⟩
    rintro ⟨hacc, -⟩
    exact hv (Option.some.inj (hversion.symm.trans hacc))

theorem mpuMsgHandle_handled {w : World σ} {m : Mpu} (h : DrainInv w m) {slot : Fin maxPduCount}
    (hpeek : ringbufPeek (m.queue .recv) = some slot) :
    ∃ r w₁ w' m', (_umtpHandleMsg slot ((m.queue .recv).buffer slot)).run w = .ok r w₁ ∧
      (mpuMsgHandle .recv _umtpHandleMsg).run w = .ok () w' ∧ DrainInv w' m' ∧
      w'.trace = w₁.trace ∧
      (r = 0 ∧ ((m.queue .recv).buffer slot).Accepted ∧
          m'.queue .recv = (ringbufPop (m.queue .recv)).2 ∧
          (m'.queue .send).contents.length ≤ (m.queue .send).contents.length + 1 ∨
        r ≠ 0 ∧ m' = m ∧
          (¬ ((m.queue .recv).buffer slot).Accepted ∨ (m.queue .send).size = maxPduCount)) := by
  have hne : (m.queue .recv).contents ≠ [] := by
    intro hnil
    simp [ringbufPeek_nil hnil] at hpeek
  obtain ⟨p, ps, hc⟩ := List.exists_cons_of_ne_nil hne
  obtain ⟨slot', hpeek', hslot⟩ := ringbufPeek_cons hc
  obtain rfl := Option.some.inj (hpeek'.symm.trans hpeek)
  have hp := h.recvData p (by simp [hc])
  have hrun := mpuMsgHandle_peek _umtpHandleMsg h.up hpeek
  rw [hslot] at hrun ⊢
  obtain ⟨r, w₁, hr, ⟨hservices, hdl⟩, hcase⟩ := _umtpHandleMsg_returns h slot' hp
  have hstay : r ≠ 0 → w₁.mpu = some m →
      (mpuMsgHandle .recv _umtpHandleMsg).run w = .ok () w₁ ∧ DrainInv w₁ m := by
    intro hne hup
    refine ⟨by simp [hrun, hr, hne], ⟨hup, h.recvValid, h.sendValid, hdl ▸ h.link,
      hservices ▸ h.services, h.recvData, h.sendable⟩⟩
  rcases hcase with ⟨hacc, hne, hup⟩ | ⟨hacc, ⟨rfl, hmpu⟩ | ⟨hne, hup, hfull⟩⟩
  · obtain ⟨hrun', hinv⟩ := hstay hne hup
    exact ⟨r, w₁, w₁, m, hr, hrun', hinv, rfl, .inr ⟨hne, rfl, .inl hacc⟩⟩
  · obtain ⟨m₁, hup₁, hrecv, hvalid, hsendable, hlen⟩ : ∃ m₁, w₁.mpu = some m₁ ∧
        m₁.queue .recv = m.queue .recv ∧ (m₁.queue .send).Valid ∧
        (∀ p ∈ (m₁.queue .send).contents, p.Sendable) ∧
        (m₁.queue .send).contents.length ≤ (m.queue .send).contents.length + 1 := by
      rcases hmpu with hup | ⟨ring, pkt, hup, hv, hcont, hpkt⟩
      · exact ⟨m, hup, rfl, h.sendValid, h.sendable, by omega⟩
      · refine ⟨_, hup, Mpu.queue_setQueue_ne m (by decide) ring, by simpa using hv, ?_, ?_⟩
        · intro p' hp'
          rw [Mpu.queue_setQueue, hcont] at hp'
          rcases List.mem_append.mp hp' with hp' | hp'
          · exact h.sendable p' hp'
          · rw [List.mem_singleton.mp hp']
            exact hpkt
        · rw [Mpu.queue_setQueue, hcont]
          simp
    obtain ⟨-, hpop, hrest⟩ := ringbufPop_cons h.recvValid hc
    have hsend : (m₁.setQueue .recv (ringbufPop (m.queue .recv)).2).queue .send =
        m₁.queue .send := Mpu.queue_setQueue_ne m₁ (by decide) _
    refine ⟨0, w₁, { w₁ with mpu := some (m₁.setQueue .recv (ringbufPop (m.queue .recv)).2) },
      m₁.setQueue .recv (ringbufPop (m.queue .recv)).2, hr, ?_, ?_, rfl,
      .inl ⟨rfl, hacc, Mpu.queue_setQueue _ _ _, hsend ▸ hlen⟩⟩
    · simp [hrun, hr, mpuPop, hup₁, hrecv]
    · refine ⟨rfl, by simpa using hpop, hsend ▸ hvalid, hdl ▸ h.link, hservices ▸ h.services, ?_,
        hsend ▸ hsendable⟩
      intro p' hp'
      rw [Mpu.queue_setQueue, hrest] at hp'
      exact h.recvData p' (hc ▸ List.mem_cons_of_mem p hp')
  · obtain ⟨hrun', hinv⟩ := hstay hne hup
    exact ⟨r, w₁, w₁, m, hr, hrun', hinv, rfl, .inr ⟨hne, rfl, .inr hfull⟩⟩

theorem mpuMsgHandle_recv {w : World σ} {m : Mpu} (h : DrainInv w m) :
    ∃ w' m', (mpuMsgHandle .recv _umtpHandleMsg).run w = .ok () w' ∧ DrainInv w' m' ∧
      ((∃ p ps, (m.queue .recv).contents = p :: ps ∧ p.Accepted ∧
          (m'.queue .recv).contents = ps ∧
          (m'.queue .send).contents.length ≤ (m.queue .send).contents.length + 1) ∨
        ((m'.queue .recv).contents = (m.queue .recv).contents ∧
          (m'.queue .send).contents = (m.queue .send).contents ∧
          ((m.queue .recv).contents = [] ∨
            (∃ p ∈ (m.queue .recv).contents, ¬ p.Accepted) ∨
            (m.queue .send).contents ≠ []))) := by
  cases hc : (m.queue .recv).contents with
  | nil => exact ⟨w, m, mpuMsgHandle_nil _ h.up hc, h, .inr ⟨hc, rfl, .inl rfl⟩⟩
  | cons p ps =>
    obtain ⟨slot, hpeek, rfl⟩ := ringbufPeek_cons hc
    obtain ⟨r, w₁, w', m', -, hrun, hinv, -, hcase⟩ := mpuMsgHandle_handled h hpeek
    refine ⟨w', m', hrun, hinv, ?_⟩
    rcases hcase with ⟨-, hacc, hpop, hlen⟩ | ⟨-, rfl, hwhy⟩
    · exact .inl ⟨_, ps, rfl, hacc, hpop ▸ (ringbufPop_cons h.recvValid hc).2.2, hlen⟩
    · refine .inr ⟨hc, rfl, .inr ?_⟩
      rcases hwhy with hrej | hfull
      · exact .inl ⟨_, by simp, hrej⟩
      · right
        intro hnil
        rw [← RingBuffer.contents_length, hnil] at hfull
        contradiction

theorem mpuMsgHandle_send {w : World σ} {m : Mpu} (h : DrainInv w m) :
    ∃ w' m', (mpuMsgHandle .send _umtpSendMsg).run w = .ok () w' ∧ DrainInv w' m' ∧
      m'.queue .recv = m.queue .recv ∧
      (m'.queue .send).contents = (m.queue .send).contents.tail := by
  cases hc : (m.queue .send).contents with
  | nil =>
    refine ⟨w, m, ?_, h, rfl, by simpa using hc⟩
    exact mpuMsgHandle_nil _ h.up hc
  | cons p ps =>
    obtain ⟨hdata, h1, hmax⟩ := h.sendable p (by simp [hc])
    obtain ⟨slot, hrun⟩ := mpuMsgHandle_cons _umtpSendMsg h.up hc
    obtain ⟨dl, hdl, hacc⟩ := h.link
    have hmaxApdu : maxApdu = 1024 := rfl
    have hmaxData : maxMpuData = 2000 := rfl
    have hsend : Returns (fun r w' => r = 0 ∧ CallsOut Event.IsSend w w') (_umtpSendMsg slot p) w :=
      (npduSend_returns hdata hdl hacc (show 0 < (p.length.toNat : Int) by omega) (by omega)
        (by simp; omega) p.addr).moves (npduSend_callsOut _ _ _ _)
    obtain ⟨r, w₁, hr, rfl, hcalls⟩ := hsend
    have hup₁ := hcalls.mpu.trans h.up
    obtain ⟨hservices, hdl₁⟩ := hcalls.sameSetup
    obtain ⟨-, hpop, hrest⟩ := ringbufPop_cons h.sendValid hc
    have hrecv : (m.setQueue .send (ringbufPop (m.queue .send)).2).queue .recv =
        m.queue .recv := Mpu.queue_setQueue_ne m (by decide) _
    refine ⟨{ w₁ with mpu := some (m.setQueue .send (ringbufPop (m.queue .send)).2) },
      m.setQueue .send (ringbufPop (m.queue .send)).2, ?_, ?_, hrecv, by simpa using hrest⟩
    · simp [hrun, hr, mpuPop, hup₁]
    · refine ⟨rfl, hrecv ▸ h.recvValid, by simpa using hpop, hdl₁ ▸ h.link,
        hservices ▸ h.services, hrecv ▸ h.recvData, ?_⟩
      intro p' hp'
      rw [Mpu.queue_setQueue, hrest] at hp'
      exact h.sendable p' (hc ▸ List.mem_cons_of_mem p hp')

theorem mpuTaskRound_run {w : World σ} {m : Mpu} (h : DrainInv w m) :
    ∃ w' m', mpuTaskRound.run w = .ok () w' ∧ DrainInv w' m' ∧
      ((∃ p ps, (m.queue .recv).contents = p :: ps ∧ p.Accepted ∧
          (m'.queue .recv).contents = ps ∧
          (m'.queue .send).contents.length ≤ (m.queue .send).contents.length) ∨
        ((m'.queue .recv).contents = (m.queue .recv).contents ∧
          (m'.queue .send).contents = (m.queue .send).contents.tail ∧
          ((m.queue .recv).contents = [] ∨
            (∃ p ∈ (m.queue .recv).contents, ¬ p.Accepted) ∨
            (m.queue .send).contents ≠ []))) := by
  obtain ⟨w₁, m₁, hrun₁, hinv₁, hcase⟩ := mpuMsgHandle_recv h
  obtain ⟨w₂, m₂, hrun₂, hinv₂, hrecv, hsend⟩ := mpuMsgHandle_send hinv₁
  refine ⟨w₂, m₂, by simp [mpuTaskRound, hrun₁, hrun₂], hinv₂, ?_⟩
  rcases hcase with ⟨p, ps, hc, hacc, hps, hlen⟩ | ⟨hkeep, hkeep', hwhy⟩
  · refine .inl ⟨p, ps, hc, hacc, hrecv ▸ hps, ?_⟩
    rw [hsend, List.length_tail]
    omega
  · exact .inr ⟨hrecv ▸ hkeep, hsend.trans (by rw [hkeep']), hwhy⟩

theorem mpuIdle_iff (m : Mpu) :
    mpuIdle m = true ↔ (m.queue .send).contents = [] ∧ (m.queue .recv).contents = [] := by
  rw [mpuIdle, Bool.and_eq_true, ringbufEmpty_iff, ringbufEmpty_iff]
  rfl

theorem mpuDrainStep_idle {w : World σ} {m : Mpu} (hup : w.mpu = some m)
    (hidle : mpuIdle m = true) : mpuDrainStep w = .inr (.ok () w) := by
  simp [mpuDrainStep, hup, hidle]

theorem mpuDrainStep_round {w w' : World σ} {m : Mpu} (hup : w.mpu = some m)
    (hidle : ¬ mpuIdle m = true) (hrun : mpuTaskRound.run w = .ok () w') :
    mpuDrainStep w = .inl w' := by
  simp [mpuDrainStep, hup, hidle, hrun]

theorem mpuDrainStep_error {w w' : World σ} {m : Mpu} {e : Stop} (hup : w.mpu = some m)
    (hidle : ¬ mpuIdle m = true) (hrun : mpuTaskRound.run w = .error e w') :
    mpuDrainStep w = .inr (.error e w') := by
  simp [mpuDrainStep, hup, hidle, hrun]

def Drained (w : World σ) : Prop :=
  ∃ m, w.mpu = some m ∧ (m.queue .recv).contents = [] ∧ (m.queue .send).contents = []

/-- Every round takes a received packet, which may add one to send, or sends one. -/
def drainMeasure (w : World σ) : Nat :=
  match w.mpu with
  | some m => 2 * (m.queue .recv).contents.length + (m.queue .send).contents.length
  | none => 0

theorem drainMeasure_eq {w : World σ} {m : Mpu} (hup : w.mpu = some m) :
    drainMeasure w =
      2 * (m.queue .recv).contents.length + (m.queue .send).contents.length := by
  simp [drainMeasure, hup]

theorem mpu_drain_ends {w : World σ} {m : Mpu} (h : DrainInv w m)
    (hacc : ∀ p ∈ (m.queue .recv).contents, p.Accepted) :
    ∃ w', FuelLoop.Ends mpuDrainStep w (.ok () w') ∧ Drained w' := by
  let I : World σ → Prop := fun w =>
    ∃ m, DrainInv w m ∧ ∀ p ∈ (m.queue .recv).contents, p.Accepted
  have hstep : ∀ u v, I u → mpuDrainStep u = .inl v → I v ∧ drainMeasure v < drainMeasure u := by
    rintro u v ⟨n, hn, hall⟩ hgo
    obtain ⟨u', n', hrun, hn', hcase⟩ := mpuTaskRound_run hn
    have hbusy : ¬ mpuIdle n = true := by
      intro hidle
      rw [mpuDrainStep_idle hn.up hidle] at hgo
      cases hgo
    rw [mpuDrainStep_round hn.up hbusy hrun] at hgo
    cases hgo
    rw [drainMeasure_eq hn.up, drainMeasure_eq hn'.up]
    rcases hcase with ⟨p, ps, hc, -, hps, hlen⟩ | ⟨hkeep, hsend, hwhy⟩
    · refine ⟨⟨n', hn', fun p' hp' => hall p' ?_⟩, ?_⟩
      · rw [hc, ← hps]
        exact List.mem_cons_of_mem p hp'
      · rw [hc, hps, List.length_cons]
        omega
    · refine ⟨⟨n', hn', hkeep ▸ hall⟩, ?_⟩
      have hne : (n.queue .send).contents ≠ [] := by
        rcases hwhy with hnil | ⟨p, hp, hrej⟩ | hne
        · exact fun hs => hbusy ((mpuIdle_iff n).mpr ⟨hs, hnil⟩)
        · exact absurd (hall p hp) hrej
        · exact hne
      have hpos := List.length_pos_of_ne_nil hne
      rw [hkeep, hsend, List.length_tail]
      omega
  obtain ⟨t, b, ⟨n, hn, hall⟩, hleave, hrun⟩ := FuelLoop.run_of_measure mpuDrainStep I drainMeasure
    hstep ⟨m, h, hacc⟩ (Nat.lt_succ_self (drainMeasure w))
  by_cases hidle : mpuIdle n = true
  · rw [mpuDrainStep_idle hn.up hidle] at hleave
    obtain ⟨hsend, hrecv⟩ := (mpuIdle_iff n).mp hidle
    exact ⟨t, ⟨_, hrun.trans (congrArg some (Sum.inr.inj hleave).symm)⟩, n, hn.up, hrecv, hsend⟩
  · obtain ⟨u, -, hgo, -⟩ := mpuTaskRound_run hn
    rw [mpuDrainStep_round hn.up hidle hgo] at hleave
    cases hleave

/-- A packet that is turned down stays, and keeps the loop going. -/
theorem mpu_drain_diverges {w : World σ} {m : Mpu} (h : DrainInv w m) {p : Packet}
    (hp : p ∈ (m.queue .recv).contents) (hrej : ¬ p.Accepted) :
    FuelLoop.Diverges mpuDrainStep w := by
  apply FuelLoop.diverges_of_invariant mpuDrainStep
    (fun w => ∃ m, DrainInv w m ∧ p ∈ (m.queue .recv).contents)
  · rintro u ⟨n, hn, hmem⟩
    obtain ⟨u', n', hrun, hn', hcase⟩ := mpuTaskRound_run hn
    have hbusy : ¬ mpuIdle n = true := by
      intro hidle
      rw [((mpuIdle_iff n).mp hidle).2] at hmem
      contradiction
    refine ⟨u', mpuDrainStep_round hn.up hbusy hrun, n', hn', ?_⟩
    rcases hcase with ⟨p', ps, hc, hacc, hps, -⟩ | ⟨hkeep, -, -⟩
    · rw [hps]
      rw [hc] at hmem
      rcases List.mem_cons.mp hmem with rfl | hmem
      · exact absurd hacc hrej
      · exact hmem
    · rwa [hkeep]
  · exact ⟨m, h, hp⟩

/-- The loop ends with both queues empty exactly when no received packet is turned down. -/
theorem mpu_drain_iff {w : World σ} {m : Mpu} (h : DrainInv w m) :
    (∃ w', FuelLoop.Ends mpuDrainStep w (.ok () w') ∧ Drained w') ↔
      ∀ p ∈ (m.queue .recv).contents, p.Accepted := by
  constructor
  · rintro ⟨w', hends, -⟩ p hp
    by_contra hrej
    exact FuelLoop.not_ends_of_diverges (mpu_drain_diverges h hp hrej) _ hends
  · exact mpu_drain_ends h

theorem DrainInv.putRecv {w : World σ} {m : Mpu} (h : DrainInv w m) (hrun : m.running = true)
    (hroom : (m.queue .recv).size < maxPduCount) {msg : Ptr} {len : Int}
    (hread : msg.off + len.toNat ≤ msg.obj.length) (hlen : len.toNat ≤ maxMpuData) {data : Ref}
    (hdata : data ≠ 0) (src : UmtpAddr) :
    ∃ w' m' pkt, (mpuPutRecv src data msg len).run w = .ok 0 w' ∧ DrainInv w' m' ∧
      m'.running = true ∧ (m'.queue .recv).contents = (m.queue .recv).contents ++ [pkt] ∧
      pkt.length = UInt16.ofInt len ∧
      pkt.buffer.cells.take len.toNat = msg.bytes.take len.toNat := by
  obtain ⟨ring, pkt, hput, hvalid, -, hcont, hpl, hpb, -, hpd⟩ :=
    mpuPut_room src data h.up hrun h.recvValid hroom hread hlen
  have hsend : (m.setQueue .recv ring).queue .send = m.queue .send :=
    Mpu.queue_setQueue_ne m (by decide) ring
  refine ⟨_, m.setQueue .recv ring, pkt, hput, ?_, by simpa using hrun, by simpa using hcont, hpl,
    hpb⟩
  refine ⟨by simp [World.setQueue, h.up], by simpa using hvalid, hsend ▸ h.sendValid, h.link,
    h.services, ?_, hsend ▸ h.sendable⟩
  intro p hp
  rw [Mpu.queue_setQueue, hcont] at hp
  rcases List.mem_append.mp hp with hp | hp
  · exact h.recvData p hp
  · rw [List.mem_singleton.mp hp, hpd]
    exact hdata

theorem idleNode_inv :
    ∃ m, DrainInv idleNode m ∧ m.running = true ∧ (m.queue .recv).contents = [] := by
  refine ⟨_, ⟨rfl, mpuCreate_valid _ _ _, mpuCreate_valid _ _ _,
    ⟨_, rfl, fun s _ _ _ _ _ _ _ => ⟨s, rfl⟩⟩, ?_, ?_, ?_⟩, rfl, mpuCreate_contents _ _ _⟩
  · simp [ServicesFit, idleNode, World.init]
  · simp [mpuCreate_contents]
  · simp [mpuCreate_contents]

theorem idleNode_received (version : UInt8) :
    ∃ w m p, (mpuPutRecv .zero 1 ⟨.taskBuf, [version], 0⟩ 1).run idleNode = .ok 0 w ∧
      DrainInv w m ∧ (m.queue .recv).contents = [p] ∧ p.length = 1 ∧
      p.buffer.cells[0]? = some version := by
  obtain ⟨m, hinv, hrun, hempty⟩ := idleNode_inv
  have hroom : (m.queue .recv).size < maxPduCount := by
    rw [← RingBuffer.contents_length, hempty]
    decide
  have hread : 0 + (1 : Int).toNat ≤ [version].length := Nat.le_refl 1
  obtain ⟨w', m', pkt, hput, hinv', -, hcont, hlen, hbytes⟩ :=
    hinv.putRecv hrun hroom (show (⟨.taskBuf, [version], 0⟩ : Ptr).off + _ ≤ _ from hread)
      (by decide) Nat.one_ne_zero .zero
  refine ⟨w', m', pkt, hput, hinv', by rw [hcont, hempty]; rfl, hlen, ?_⟩
  have hfirst := congrArg (fun l => l[0]?) hbytes
  simpa [Ptr.bytes] using hfirst

def receiveAll (msgs : List (List UInt8)) : Proc σ Unit :=
  msgs.forM fun msg => do
    let _ ← mpuPutRecv .zero 1 ⟨.taskBuf, msg, 0⟩ msg.length

theorem DrainInv.receiveAll {w : World σ} {m : Mpu} (h : DrainInv w m) (hrun : m.running = true)
    {msgs : List (List UInt8)} (hroom : (m.queue .recv).size + msgs.length ≤ maxPduCount)
    (hfits : ∀ msg ∈ msgs, msg.length ≤ maxMpuData) :
    ∃ w' m', (receiveAll msgs).run w = .ok () w' ∧ DrainInv w' m' ∧ m'.running = true ∧
      (m'.queue .recv).contents.map (fun p => p.message.bytes) =
        (m.queue .recv).contents.map (fun p => p.message.bytes) ++ msgs := by
  induction msgs generalizing w m with
  | nil => exact ⟨w, m, rfl, h, hrun, (List.append_nil _).symm⟩
  | cons msg msgs ih =>
    have hmsg := hfits msg List.mem_cons_self
    rw [List.length_cons] at hroom
    have hread : (⟨.taskBuf, msg, 0⟩ : Ptr).off + (msg.length : Int).toNat ≤ msg.length := by simp
    obtain ⟨w₁, m₁, pkt, hput, h₁, hrun₁, hcont, hlen, hbytes⟩ :=
      h.putRecv hrun (by omega) hread (by simpa using hmsg) Nat.one_ne_zero .zero
    have hsize : (m₁.queue .recv).size = (m.queue .recv).size + 1 := by
      rw [← RingBuffer.contents_length, hcont, List.length_append, RingBuffer.contents_length]
      rfl
    obtain ⟨w', m', hrest, h', hrun', hcont'⟩ :=
      ih h₁ hrun₁ (by omega) fun msg hmem => hfits msg (List.mem_cons_of_mem _ hmem)
    have hmax : (maxMpuData : Nat) = 2000 := rfl
    have hlen' : pkt.length.toNat = msg.length := by
      rw [hlen, uint16_ofInt_toNat (by omega) (by omega), Int.toNat_natCast]
    have hpkt : pkt.message.bytes = msg := by
      rw [Int.toNat_natCast] at hbytes
      rw [Packet.message, hlen', hbytes]
      simp [Ptr.bytes]
    refine ⟨w', m', ?_, h', hrun', ?_⟩
    · have hcons : (Umtp.receiveAll (msg :: msgs)).run w =
          ((mpuPutRecv .zero 1 ⟨.taskBuf, msg, 0⟩ msg.length >>= fun _ => pure ()) >>=
            fun _ => Umtp.receiveAll msgs).run w := rfl
      simpa [hcons, hput] using hrest
    · rw [hcont', hcont]
      simp [hpkt]

def drainServer : World Unit :=
  { idleNode with
    services := [⟨5, some fun _ _ _ _ _ => ((), ⟨0, [7], 1, none⟩), none, none, none⟩] }

theorem drainServer_servicesFit : ServicesFit drainServer.services := by
  intro type htype f hf s src id data len
  obtain rfl := List.mem_singleton.mp htype
  cases hf
  exact ⟨show 4 + 1 ≤ maxApdu by decide, fun _ => ⟨show 4 + 1 ≤ maxApdu by decide, by simp⟩⟩

theorem drainServer_inv :
    ∃ m, DrainInv drainServer m ∧ m.running = true ∧ (m.queue .recv).contents = [] := by
  obtain ⟨m, h, hrun, hempty⟩ := idleNode_inv
  exact ⟨m, ⟨h.up, h.recvValid, h.sendValid, h.link, drainServer_servicesFit, h.recvData,
    h.sendable⟩, hrun, hempty⟩

/-- A request, a message without an APDU, a confirmed request, and a response nobody waits for. -/
def drainMessages : List (List UInt8) :=
  [[1, 0, 0, 5, 9], [1], [1, 1, 0, 5, 1, 9], [1, 1, 1, 5, 3, 9]]

theorem Packet.accepted_of_bytes {p : Packet} (hversion : p.message.bytes[0]? = some 1)
    (htype : p.message.bytes.length ≤ 1 ∨
      ∃ type, p.message.bytes[2]? = some type ∧ type < umtpPduTypeMax) : p.Accepted := by
  have hcell : ∀ {i : Nat} {b}, p.message.bytes[i]? = some b → p.buffer.cells[i]? = some b := by
    intro i b hb
    simp only [Packet.message, List.getElem?_take] at hb
    split at hb
    · exact hb
    · contradiction
  have hmax : maxMpuData = 2000 := rfl
  refine ⟨hcell hversion, ?_⟩
  rcases htype with hlen | ⟨type, hget, hlt⟩
  · left
    simp [Packet.message] at hlen
    omega
  · exact .inr ⟨type, hcell hget, hlt⟩

def sentBy (rounds : Nat) (w : World σ) : Option Nat :=
  match FuelLoop.run mpuDrainStep rounds w with
  | some (.ok () w') => some (w'.trace.countP fun e => e matches .send _ _)
  | _ => none

theorem mpu_drain_answers :
    ∃ w, (receiveAll drainMessages).run drainServer = .ok () w ∧
      ∃ w', FuelLoop.Ends mpuDrainStep w (.ok () w') ∧ Drained w' ∧
        w'.trace.countP (· matches .send _ _) = 2 := by
  obtain ⟨m, hinv, hrun, hempty⟩ := drainServer_inv
  have hroom : (m.queue .recv).size + drainMessages.length ≤ maxPduCount := by
    rw [← RingBuffer.contents_length, hempty]
    decide
  obtain ⟨w, m', hput, hinv', -, hcont⟩ := hinv.receiveAll hrun hroom (by decide)
  rw [hempty] at hcont
  have haccepted : ∀ p ∈ (m'.queue .recv).contents, p.Accepted := by
    intro p hp
    have hbytes : p.message.bytes ∈ drainMessages := by
      have := List.mem_map_of_mem (f := fun p => p.message.bytes) hp
      rwa [hcont] at this
    have hall : ∀ bytes ∈ drainMessages, bytes[0]? = some 1 ∧
        (bytes.length ≤ 1 ∨ ∃ type, bytes[2]? = some type ∧ type < umtpPduTypeMax) := by
      decide
    obtain ⟨hversion, htype⟩ := hall _ hbytes
    exact Packet.accepted_of_bytes hversion htype
  obtain ⟨w', hends, hdrained⟩ := (mpu_drain_iff hinv').mpr haccepted
  have hsent : (match (receiveAll drainMessages).run drainServer with
      | .ok () w => sentBy 12 w
      | .error _ _ => none) = some 2 := by decide +kernel
  rw [hput] at hsent
  refine ⟨w, hput, w', hends, hdrained, ?_⟩
  simp only [sentBy] at hsent
  split at hsent
  · rename_i t ht
    have hsame := FuelLoop.ends_unique hends ⟨12, ht⟩
    cases hsame
    exact Option.some.inj hsent
  · contradiction

/-- After one byte that is not the protocol version the task never comes to rest. -/
theorem mpu_drain_stuck :
    ∃ w, (mpuPutRecv .zero 1 ⟨.taskBuf, [2], 0⟩ 1).run idleNode = .ok 0 w ∧
      FuelLoop.Diverges mpuDrainStep w := by
  obtain ⟨w, m, p, hput, hinv, hc, -, hversion⟩ := idleNode_received 2
  refine ⟨w, hput, mpu_drain_diverges hinv (p := p) (by simp [hc]) ?_⟩
  rintro ⟨hacc, -⟩
  rw [hversion] at hacc
  exact absurd hacc (by decide)

end Umtp
