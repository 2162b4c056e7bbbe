import Umtp.PacketQueue
import Umtp.RequestRoundTrip
import Umtp.SendBounds

/-! What a submission has done by the time it comes back. The slot of a confirmed request is
taken before the send is tried, and it stays taken however the send fares. -/

set_option autoImplicit false

namespace Umtp
open CheckedBuffer StateExcept

variable {σ : Type}

/-- One copy of the request has gone to the end of the send queue or, in sync mode, to the
link. -/
def SubmitsOnce (umtp : Ref) (dst : UmtpAddr) (apdu : List UInt8) (w w' : World σ) : Prop :=
  if w.syncMode then
    w'.mpu = w.mpu ∧ w'.trace = w.trace ++ [.send dst (fttpProtocolVersion :: apdu)]
  else
    w'.trace = w.trace ∧ ∃ m ring pkt, w.mpu = some m ∧
      w'.mpu = some (m.setQueue .send ring) ∧
      ring.contents = (m.queue .send).contents ++ [pkt] ∧
      pkt.message = ⟨UInt16.ofInt apdu.length, apdu, dst, umtp⟩

/-- A submission that says it is done has submitted the request once, and one that says it
is not has left the slots and the queues alone. -/
structure AllOrNothing (umtp : Ref) (dst : UmtpAddr) (d : ApduData) (w : World σ) (r : Int)
    (w' : World σ) : Prop where
  done : r = 0 → SubmitsOnce umtp dst (d.apdu (w.grantedId d)) w w' ∧
    StoresRequest umtp dst d w w'
  undone : r ≠ 0 → w'.sessions.session = w.sessions.session ∧ w'.mpu = w.mpu

def World.Stopped (w : World σ) : Prop :=
  w.syncMode = false ∧ ∃ m, w.mpu = some m ∧ m.running = false

/-- In sync mode there is a link, and its `send_data` answers the frame of `apdu` with 0;
else there is an mpu, running and with room in its send queue. -/
def World.TakesApdu (w : World σ) (dst : UmtpAddr) (apdu : List UInt8) : Prop :=
  if w.syncMode then
    ∃ dl app, w.dl = some dl ∧
      (dl.sendData dst ⟨.npduTmp, npduFrame apdu, 0⟩ (1 + apdu.length)).run w.app = .ok 0 app
  else
    ∃ m, w.mpu = some m ∧ m.running = true ∧ (m.queue .send).size < maxPduCount

def World.TakesRequest (w : World σ) (dst : UmtpAddr) (d : ApduData) : Prop :=
  ¬ w.Stopped ∧ (d.confirmed = true → w.TakesApdu dst (d.apdu (w.grantedId d)))

section

variable {umtp : Ref} (hu : umtp ≠ 0) {w : World σ} {apdu : List UInt8} (hpos : 0 < apdu.length)
  (hlen : apdu.length ≤ maxApdu) {tmp : Buf UInt8 maxApdu} (htmp : apdu <+: tmp.cells)
  (dst : UmtpAddr)

include hu hpos hlen htmp

theorem _umtpApduSubmit_linked (hsync : w.syncMode = true)
    (hlink : ∀ dl, w.dl = some dl → LinkTakes dl) :
    Returns (fun r w' => w'.sessions = w.sessions ∧ w'.mpu = w.mpu ∧
        (r = 0 ↔ w.TakesApdu dst apdu) ∧
        (r = 0 → w'.trace = w.trace ++ [.send dst (fttpProtocolVersion :: apdu)]))
      (_umtpApduSubmit umtp dst ⟨.submitTmp, tmp.cells, 0⟩ apdu.length) w := by
  have hmax : (maxApdu : Int) = 1024 := rfl
  have hnpdu : (maxNpdu : Int) = 1025 := rfl
  have htake : (⟨.submitTmp, tmp.cells, 0⟩ : Ptr).bytes.take apdu.length = apdu := by
    simpa [Ptr.bytes] using (List.prefix_iff_eq_take.mp htmp).symm
  have hsend : (_umtpApduSubmit umtp dst ⟨.submitTmp, tmp.cells, 0⟩ apdu.length).run w =
      (npduSend umtp dst ⟨.submitTmp, tmp.cells, 0⟩ apdu.length).run w := by
    simp [_umtpApduSubmit, hu, hsync]
  rw [npduSend_framed hu (by omega) (by simpa using hlen) (by omega) dst, Int.toNat_natCast,
    htake] at hsend
  cases hdl : w.dl with
  | none =>
    rw [hdl] at hsend
    exact ⟨_, _, hsend, rfl, rfl, by simp [World.TakesApdu, hsync, hdl, einval], by simp [einval]⟩
  | some dl =>
    have hframe := npduFrame_length hlen
    obtain ⟨r, app, happ, -⟩ := hlink dl hdl w.app dst ⟨.npduTmp, npduFrame apdu, 0⟩
      (1 + apdu.length) (by omega) (by omega) (by simp [hframe]; omega)
    rw [hdl] at hsend
    simp only [sendData_run, happ, npduFrame_sent] at hsend
    exact ⟨r, _, hsend, rfl, rfl, by simp [World.TakesApdu, hsync, hdl, happ], fun _ => rfl⟩

theorem _umtpApduSubmit_queued {m : Mpu} (hasync : w.syncMode = false) (hup : w.mpu = some m)
    (hrunning : m.running = true) (hv : (m.queue .send).Valid)
    (hroom : (m.queue .send).size < maxPduCount) :
    ∃ ring pkt, (_umtpApduSubmit umtp dst ⟨.submitTmp, tmp.cells, 0⟩ apdu.length).run w =
        .ok 0 (w.setQueue .send ring) ∧
      ring.contents = (m.queue .send).contents ++ [pkt] ∧
      pkt.message = ⟨UInt16.ofInt apdu.length, apdu, dst, umtp⟩ := by
  have hmax : maxApdu = 1024 := rfl
  have hdata : maxMpuData = 2000 := rfl
  have hread : (⟨.submitTmp, tmp.cells, 0⟩ : Ptr).off + (apdu.length : Int).toNat ≤
      tmp.cells.length := by
    simpa using hlen
  obtain ⟨ring, pkt, hput, -, -, hcont, hpl, hpb, hpa, hpd⟩ :=
    mpuPut_room (q := .send) dst umtp hup hrunning hv hroom hread (by simp; omega)
  have hshort := uint16_ofInt_toNat (show 0 ≤ (apdu.length : Int) by omega) (by omega)
  have htake : (⟨.submitTmp, tmp.cells, 0⟩ : Ptr).bytes.take apdu.length = apdu := by
    simpa [Ptr.bytes] using (List.prefix_iff_eq_take.mp htmp).symm
  rw [Int.toNat_natCast] at hpb hshort
  rw [htake] at hpb
  refine ⟨ring, pkt, ?_, hcont, ?_⟩
  · rw [← hput]
    simp [_umtpApduSubmit, hu, hasync, mpuPutSend]
  · rw [Packet.message, hpl, hshort, hpb, hpa, hpd]

theorem _umtpApduSubmit_outcome (hlink : ∀ dl, w.dl = some dl → LinkTakes dl)
    (hv : ∀ m, w.mpu = some m → (m.queue .send).Valid) :
    Returns (fun r w' => w'.sessions = w.sessions ∧
        ((¬ w.Stopped ∧ w.TakesApdu dst apdu ∧ r = 0 ∧ SubmitsOnce umtp dst apdu w w') ∨
          (w.Stopped ∧ r = 0 ∧ w' = w) ∨
          (¬ w.Stopped ∧ ¬ w.TakesApdu dst apdu ∧ r ≠ 0 ∧ w'.mpu = w.mpu)))
      (_umtpApduSubmit umtp dst ⟨.submitTmp, tmp.cells, 0⟩ apdu.length) w := by
  cases hsync : w.syncMode with
  | true =>
    have hup : ¬ w.Stopped := by simp [World.Stopped, hsync]
    obtain ⟨r, w', hrun, hs, hm, htaken, htrace⟩ :=
      _umtpApduSubmit_linked hu hpos hlen htmp dst hsync hlink
    refine ⟨r, w', hrun, hs, ?_⟩
    by_cases hr : r = 0
    · exact .inl ⟨hup, htaken.mp hr, hr, by simp [SubmitsOnce, hsync, hm, htrace hr]⟩
    · exact .inr (.inr ⟨hup, fun h => hr (htaken.mpr h), hr, hm⟩)
  | false =>
    have hsend : (_umtpApduSubmit umtp dst ⟨.submitTmp, tmp.cells, 0⟩ apdu.length).run w =
        (mpuPut .send dst umtp ⟨.submitTmp, tmp.cells, 0⟩ apdu.length).run w := by
      simp [_umtpApduSubmit, hu, hsync, mpuPutSend]
    cases hup : w.mpu with
    | none =>
      refine ⟨-einval, w, ?_, rfl, .inr (.inr ⟨?_, ?_, by decide, hup⟩)⟩
      · rw [hsend]
        simp [mpuPut, hup]
      · simp [World.Stopped, hup]
      · simp [World.TakesApdu, hsync, hup]
    | some m =>
      cases hrunning : m.running with
      | false =>
        refine ⟨0, w, ?_, rfl, .inr (.inl ⟨?_, rfl, rfl⟩)⟩
        · rw [hsend]
          simp [mpuPut, hup, hrunning]
        · exact ⟨hsync, m, hup, hrunning⟩
      | true =>
        have hgoing : ¬ w.Stopped := by simp [World.Stopped, hup, hrunning]
        by_cases hroom : (m.queue .send).size < maxPduCount
        · obtain ⟨ring, pkt, hrun, hcont, hpkt⟩ :=
            _umtpApduSubmit_queued hu hpos hlen htmp dst hsync hup hrunning (hv m hup) hroom
          refine ⟨0, _, hrun, rfl, .inl ⟨hgoing, ?_, rfl, ?_⟩⟩
          · simp [World.TakesApdu, hsync, hup, hrunning, hroom]
          · simp only [SubmitsOnce, hsync, Bool.false_eq_true, if_false]
            exact ⟨rfl, m, ring, pkt, hup, by simp [World.setQueue, hup], hcont, hpkt⟩
        · have hfull : (m.queue .send).size = maxPduCount := by
            have := (hv m hup).size_le
            omega
          refine ⟨-enomem, w, hsend.trans (mpuPut_full dst umtp hup hrunning (hv m hup) hfull), rfl,
            .inr (.inr ⟨hgoing, ?_, by decide, hup⟩)⟩
          simp [World.TakesApdu, hsync, hup, hrunning, hroom]

end

theorem not_submitsOnce_self {w : World σ} (h : w.Stopped) (umtp : Ref) (dst : UmtpAddr)
    (apdu : List UInt8) : ¬ SubmitsOnce umtp dst apdu w w := by
  simp only [SubmitsOnce, h.1, Bool.false_eq_true, if_false]
  rintro ⟨-, m, ring, pkt, hup, hup', hcont, -⟩
  have hsame : m = m.setQueue .send ring := Option.some.inj (hup.symm.trans hup')
  have hlen := congrArg List.length hcont
  rw [hsame, Mpu.queue_setQueue] at hlen
  simp at hlen

theorem StoresRequest.same_slots_iff {umtp : Ref} {dst : UmtpAddr} {d : ApduData} {w w' : World σ}
    (h : StoresRequest umtp dst d w w') :
    w'.sessions.session = w.sessions.session ↔ d.confirmed = false := by
  cases hc : d.confirmed with
  | false =>
    simp only [StoresRequest, hc, Bool.false_eq_true, if_false] at h
    simp [h]
  | true =>
    rw [StoresRequest, if_pos hc] at h
    obtain ⟨hne, i, hfree, hawaits, -⟩ := h
    simp only [Bool.true_eq_false, iff_false]
    intro hsame
    have hid := hawaits.sessionId
    rw [hsame, hfree] at hid
    exact hne hid.symm

section

variable {umtp : Ref} (hu : umtp ≠ 0) {w : World σ} {d : ApduData} (dst : UmtpAddr)
  (h0 : 0 ≤ d.dataLen) (hfits : d.Fits) (hfree : ∃ i, (w.sessions.session i).sessionId = 0)
  (hlink : ∀ dl, w.dl = some dl → LinkTakes dl)
  (hv : ∀ m, w.mpu = some m → (m.queue .send).Valid)

include hu h0 hfits hfree hlink hv

theorem submit_all_or_nothing_iff :
    ∃ r w', (umtpApduSubmit umtp dst (some d)).run w = .ok r w' ∧
      (AllOrNothing umtp dst d w r w' ↔ w.TakesRequest dst d) := by
  have hhead := d.headerLen_le
  have hroom := hfits
  unfold ApduData.Fits at hroom
  have hd : d.InRange := ⟨h0, by omega⟩
  have hg : w.Grants d := (w.grants_iff d).mpr (.inr hfree)
  have hlen := d.apdu_length hd (w.grantedId d)
  obtain ⟨s, hstores, tmp, htmp, hrun⟩ := umtpApduSubmit_stored hu dst hg hd hfits
  obtain ⟨r, w', hsend, hs, hcase⟩ := _umtpApduSubmit_outcome (w := { w with sessions := s }) hu
    (show 0 < (d.apdu (w.grantedId d)).length by omega) (by omega) htmp dst hlink hv
  have hstored : StoresRequest umtp dst d w w' := by
    unfold StoresRequest at hstores ⊢
    rw [hs]
    exact hstores
  refine ⟨r, w', hrun.trans hsend, ?_⟩
  rcases hcase with ⟨hgoing, htaken, hr, honce⟩ | ⟨hstopped, hr, hsame⟩ |
    ⟨hgoing, hrefused, hr, hm⟩
  · exact iff_of_true ⟨fun _ => ⟨honce, hstored⟩, fun hne => absurd hr hne⟩
      ⟨hgoing, fun _ => htaken⟩
  · refine iff_of_false (fun h => ?_) (fun h => h.1 hstopped)
    subst hsame
    exact not_submitsOnce_self hstopped umtp dst _ (h.done hr).1
  · constructor
    · intro h
      have hc := hstored.same_slots_iff.mp (h.undone hr).1
      exact ⟨hgoing, fun hc' => by simp [hc] at hc'⟩
    · intro h
      have hc : d.confirmed = false := by
        rw [Bool.eq_false_iff]
        exact fun hc => hrefused (h.2 hc)
      exact ⟨fun h0 => absurd h0 hr, fun _ => ⟨hstored.same_slots_iff.mpr hc, hm⟩⟩

end

theorem submit_all_or_nothing_started :
    ∃ r w', (umtpApduSubmit 1 .zero (some (zeroData true 1))).run startedNode = .ok r w' ∧
      AllOrNothing 1 .zero (zeroData true 1) startedNode r w' := by
  have hlink : ∀ dl, startedNode.dl = some dl → LinkTakes dl := by
    intro dl hdl
    cases startedNode_started.dl.symm.trans hdl
    exact dludp_linkTakes rfl _ _
  have hv : ∀ m, startedNode.mpu = some m → (m.queue .send).Valid := by
    rintro m ⟨⟩
    exact mpuCreate_valid _ _ _
  obtain ⟨r, w', hrun, hiff⟩ := submit_all_or_nothing_iff Nat.one_ne_zero (w := startedNode)
    (d := zeroData true 1) .zero (by decide) (show (4 : Int) + 1 ≤ 1024 by decide) ⟨0, rfl⟩ hlink hv
  refine ⟨r, w', hrun, hiff.mpr ⟨?_, fun _ => ?_⟩⟩
  · rintro ⟨-, m, ⟨⟩, hstopped⟩
    exact absurd hstopped (by decide)
  · exact ⟨_, rfl, rfl, by decide⟩

def queuedPacket : Packet := ⟨4, Buf.fill maxMpuData 0, .zero, 1⟩

def fullRing : RingBuffer Packet maxPduCount :=
  ⟨fun _ => queuedPacket, UInt32.ofNat maxPduCount, 0⟩

theorem fullRing_size : fullRing.size = maxPduCount := rfl

theorem fullRing_valid : fullRing.Valid := ⟨Nat.le_refl _, by decide, by decide⟩

def busyNode : World Wire :=
  { startedNode with
    mpu := some ((mpuCreate (fun _ => .zero) (fun _ => .zero)).setQueue .send fullRing) }

/-- The request is refused, and its slot waits for a reply all the same. -/
theorem submit_refused_armed :
    ∃ w', (umtpApduSubmit 1 .zero (some (zeroData true 1))).run busyNode = .ok (-enomem) w' ∧
      ¬ AllOrNothing 1 .zero (zeroData true 1) busyNode (-enomem) w' ∧
      StoresRequest 1 .zero (zeroData true 1) busyNode w' := by
  have hd : (zeroData true 1).InRange := ⟨by decide, by decide⟩
  have hg : busyNode.Grants (zeroData true 1) :=
    (busyNode.grants_iff _).mpr (.inr ⟨0, rfl⟩)
  obtain ⟨s, hstores, tmp, -, hrun⟩ :=
    umtpApduSubmit_stored Nat.one_ne_zero .zero hg hd (show (4 : Int) + 1 ≤ 1024 by decide)
  have hfull : (mpuPut .send .zero 1 ⟨.submitTmp, tmp.cells, 0⟩
      ((zeroData true 1).apdu (busyNode.grantedId (zeroData true 1))).length).run
      { busyNode with sessions := s } = .ok (-enomem) { busyNode with sessions := s } :=
    mpuPut_full .zero 1 rfl rfl fullRing_valid fullRing_size
  refine ⟨_, hrun.trans hfull, ?_, hstores⟩
  intro h
  have hsame := hstores.same_slots_iff.mp (h.undone (by decide)).1
  exact absurd hsame (by decide)

end Umtp
