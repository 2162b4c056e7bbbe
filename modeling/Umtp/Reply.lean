import Umtp.Apdu

set_option autoImplicit false

namespace Umtp
open CheckedBuffer StateExcept

variable {σ : Type}

def ApduHeader.reply (h : ApduHeader) (type : UInt8) : List UInt8 :=
  [h.flag, type, h.service] ++ if apduHasSessionId h.flag then [h.sessionId] else []

theorem ApduHeader.reply_length (h : ApduHeader) (type : UInt8) :
    (h.reply type).length = apduHeaderLen h.flag := by
  unfold reply apduHeaderLen
  split <;> rfl

theorem apduHeaderLen_ge (flag : UInt8) : 3 ≤ apduHeaderLen flag := by
  unfold apduHeaderLen
  split <;> omega

theorem apduHeaderLen_le (flag : UInt8) : apduHeaderLen flag ≤ 4 := by
  unfold apduHeaderLen
  split <;> omega

theorem encodeReplyHeader_run (h : ApduHeader) (type : UInt8) {w : World σ}
    {blk : Buf UInt8 maxApdu} (hblk : w.apduTransBlk.write 0 (h.reply type) = some blk) :
    (encodeReplyHeader h type).run w =
      .ok (apduHeaderLen h.flag) { w with apduTransBlk := blk } := by
  unfold ApduHeader.reply at hblk
  obtain ⟨b1, h1, hblk⟩ := Buf.write_cons_some hblk
  obtain ⟨b2, h2, hblk⟩ := Buf.write_cons_some hblk
  by_cases hid : apduHasSessionId h.flag = true
  · rw [if_pos hid] at hblk
    obtain ⟨b3, h3, h4⟩ := Buf.write_cons_some hblk
    simp [encodeReplyHeader, apduHeaderLen, hid, poke_run h1, poke_run h2, poke_run h3,
      poke_run h4]
  · rw [if_neg hid] at hblk
    have h3 : b2.write 2 [h.service] = some blk := hblk
    simp [encodeReplyHeader, apduHeaderLen, hid, poke_run h1, poke_run h2, poke_run h3]

section

variable {src : UmtpAddr} {sd : ServiceData} {data : Ptr} {dataLen : UInt32} {w : World σ}

theorem serviceHandler_empty (h : dataLen = 0) :
    (serviceHandler src sd data dataLen).run w = .ok (-einval, sd) w := by
  simp [serviceHandler, h]

theorem serviceHandler_absent (hlen : dataLen ≠ 0)
    (hget : serviceTypeGet w.services sd.serviceId = none) :
    (serviceHandler src sd data dataLen).run w = .ok (-enoent, sd) w := by
  simp [serviceHandler, hlen, hget]

variable {type : ServiceType σ}

theorem serviceHandler_noHandler (hlen : dataLen ≠ 0)
    (hget : serviceTypeGet w.services sd.serviceId = some type) (hf : type.reqHandler = none) :
    (serviceHandler src sd data dataLen).run w = .ok (0, sd) w := by
  simp [serviceHandler, hlen, hget, hf]

variable (sd) in
theorem serviceHandler_run (hlen : dataLen ≠ 0)
    (hget : serviceTypeGet w.services sd.serviceId = some type)
    {f : σ → UmtpAddr → Int → Ptr → Int → σ × ReqReply} (hf : type.reqHandler = some f)
    {app : σ} {reply : ReqReply}
    (hcall : f w.app src sd.serviceId data (handlerLen dataLen) = (app, reply)) {off : Nat}
    (hd : sd.data = .block off) {blk : Buf UInt8 maxApdu}
    (hblk : w.apduTransBlk.write off reply.stored = some blk) :
    (serviceHandler src sd data dataLen).run w =
      .ok (reply.status,
          { sd with dataLen := reply.dataLen, data := reply.own.elim (.block off) .own })
        { w with
          app
          apduTransBlk := blk
          trace := w.trace ++ [.req sd.serviceId src data (handlerLen dataLen)] } := by
  have hcopy : ∀ v : World σ, (memcpy .apduTransBlk w.apduTransBlk off
      ⟨.application, reply.stored, 0⟩ reply.stored.length).run v = .ok blk v :=
    fun v => memcpy_list rfl hblk v
  simp [serviceHandler, hlen, hget, hf, hcall, storeReply, hd, hcopy, serviceTypeGet_id hget]

end

theorem encodeReplyHeader_exists (h : ApduHeader) (type : UInt8) (w : World σ) :
    ∃ blk, w.apduTransBlk.write 0 (h.reply type) = some blk := by
  apply Buf.exists_write
  rw [h.reply_length]
  have := apduHeaderLen_le h.flag
  have hmax : maxApdu = 1024 := rfl
  omega

theorem ReplyData.ptr_bytes {d : ReplyData} {b c : Buf UInt8 maxApdu} {xs : List UInt8}
    (hw : b.write 0 xs = some c) (hd : ∀ off, d = .block off → xs.length ≤ off) :
    (d.ptr c).bytes = (d.ptr b).bytes := by
  cases d with
  | own bytes => rfl
  | block off => exact Buf.drop_write hw (show 0 + xs.length ≤ off by simpa using hd off rfl)

theorem ReplyData.ptr_off (d : ReplyData) (b c : Buf UInt8 maxApdu) :
    (d.ptr c).off = (d.ptr b).off ∧ (d.ptr c).obj.length = (d.ptr b).obj.length := by
  cases d <;> simp [ptr]

section

variable {src : UmtpAddr} {apdu : Ptr} {pduLen : UInt16} {h : ApduHeader} {w w' : World σ}
  {sd : ServiceData} (hl : h.decodeLen = apduHeaderLen h.flag)

include hl

/-- The handler's `sd->data_len` bytes follow the header, whether they were stored there or
are copied from the application. -/
theorem apduReply_response
    (hservice : (serviceHandler src ⟨h.service.toNat, 0, .block h.decodeLen⟩
      (apdu.add h.decodeLen) (restLen pduLen h.decodeLen)).run w = .ok (0, sd) w')
    (hd : ∀ off, sd.data = .block off → h.decodeLen ≤ off)
    (hread : (sd.data.ptr w'.apduTransBlk).off + sd.dataLen.toNat ≤
      (sd.data.ptr w'.apduTransBlk).obj.length)
    (hfit : h.decodeLen + sd.dataLen.toNat ≤ maxApdu) :
    ∃ blk, (apduReply src apdu pduLen h).run w =
        .ok (UInt16.ofNat (h.decodeLen + sd.dataLen.toNat)) { w' with apduTransBlk := blk } ∧
      blk.cells.take (h.decodeLen + sd.dataLen.toNat) =
        h.reply umtpPduResponse ++
          (sd.data.ptr w'.apduTransBlk).bytes.take sd.dataLen.toNat := by
  obtain ⟨blk, hblk⟩ := encodeReplyHeader_exists h umtpPduResponse w'
  have hlen : (h.reply umtpPduResponse).length = h.decodeLen := by rw [h.reply_length, hl]
  have hbytes : (sd.data.ptr blk).bytes = (sd.data.ptr w'.apduTransBlk).bytes :=
    ReplyData.ptr_bytes hblk (fun off ho => hlen ▸ hd off ho)
  obtain ⟨hoff, hobj⟩ := sd.data.ptr_off w'.apduTransBlk blk
  have hcopy : ((sd.data.ptr blk).bytes.take sd.dataLen.toNat).length = sd.dataLen.toNat := by
    rw [hbytes]
    simp [Ptr.bytes]
    omega
  obtain ⟨blk', hblk'⟩ : ∃ blk', blk.write h.decodeLen
      ((sd.data.ptr blk).bytes.take sd.dataLen.toNat) = some blk' :=
    Buf.exists_write (by rw [hcopy]; exact hfit)
  refine ⟨blk', ?_, ?_⟩
  · have hhead := encodeReplyHeader_run h umtpPduResponse hblk
    have hbody : ∀ v : World σ, (memcpy .apduTransBlk blk h.decodeLen (sd.data.ptr blk)
        sd.dataLen.toNat).run v = .ok blk' v := by
      intro v
      exact memcpy_run (by rw [hoff, hobj]; exact hread) hblk' v
    simp [apduReply, hservice, hhead, encodeReplyBody, ← hl, hbody]
  · have htake := Buf.take_write_after hblk (hlen.symm ▸ hblk')
    rwa [hlen, hcopy, hbytes] at htake

theorem apduReply_error {ret : Int} (hret : ret ≠ 0)
    (hservice : (serviceHandler src ⟨h.service.toNat, 0, .block h.decodeLen⟩
      (apdu.add h.decodeLen) (restLen pduLen h.decodeLen)).run w = .ok (ret, sd) w') :
    ∃ blk, (apduReply src apdu pduLen h).run w =
        .ok (UInt16.ofNat (h.decodeLen + 1)) { w' with apduTransBlk := blk } ∧
      blk.cells.take (h.decodeLen + 1) = h.reply umtpPduError ++ [UInt8.ofInt ret] := by
  obtain ⟨blk, hblk⟩ := encodeReplyHeader_exists h umtpPduError w'
  have hlen : (h.reply umtpPduError).length = h.decodeLen := by rw [h.reply_length, hl]
  have hle := apduHeaderLen_le h.flag
  have hmax : maxApdu = 1024 := rfl
  obtain ⟨blk', hblk'⟩ : ∃ blk', blk.write h.decodeLen [UInt8.ofInt ret] = some blk' :=
    Buf.exists_write (by simp; omega)
  refine ⟨blk', ?_, ?_⟩
  · have hhead := encodeReplyHeader_run h umtpPduError hblk
    have hbody : ∀ v : World σ, (poke .apduTransBlk blk h.decodeLen (UInt8.ofInt ret)).run v =
        .ok blk' v := fun v => poke_run hblk' v
    simp [apduReply, hservice, hret, hhead, encodeReplyBody, ← hl, hbody]
  · have htake := Buf.take_write_after hblk (hlen.symm ▸ hblk')
    rwa [hlen] at htake

end

theorem encodeReplyBody_keeps {ret : Int} {sd : ServiceData} {k : Nat} {w u : World σ} {n : UInt16}
    (hrun : (encodeReplyBody ret sd k).run w = .ok n u) :
    u.apduTransBlk.cells.take k = w.apduTransBlk.cells.take k ∧ k ≤ n.toNat := by
  have hmax : maxApdu = 1024 := rfl
  have hn : ∀ j, k + j ≤ maxApdu → k ≤ (UInt16.ofNat (k + j)).toNat := by
    intro j hj
    rw [UInt16.toNat_ofNat', Nat.mod_eq_of_lt (by omega)]
    omega
  by_cases hret : ret = 0
  · by_cases hread : (sd.data.ptr w.apduTransBlk).off + sd.dataLen.toNat ≤
        (sd.data.ptr w.apduTransBlk).obj.length
    · have hlen : ((sd.data.ptr w.apduTransBlk).bytes.take sd.dataLen.toNat).length =
          sd.dataLen.toNat := by
        simp [Ptr.bytes]
        omega
      cases hw : w.apduTransBlk.write k
          ((sd.data.ptr w.apduTransBlk).bytes.take sd.dataLen.toNat) with
      | none => simp [encodeReplyBody, hret, memcpy, hread, hw] at hrun
      | some blk =>
        have hfit := (Buf.write_some hw).1
        simp [encodeReplyBody, hret, memcpy, hread, hw] at hrun
        obtain ⟨rfl, rfl⟩ := hrun
        rw [hlen] at hfit
        exact ⟨Buf.take_write hw (Nat.le_refl k), by simpa using hn _ hfit⟩
    · simp [encodeReplyBody, hret, memcpy, hread] at hrun
  · cases hw : w.apduTransBlk.write k [UInt8.ofInt ret] with
    | none => simp [encodeReplyBody, hret, poke, hw] at hrun
    | some blk =>
      have hfit := (Buf.write_some hw).1
      simp [encodeReplyBody, hret, poke, hw] at hrun
      obtain ⟨rfl, rfl⟩ := hrun
      exact ⟨Buf.take_write hw (Nat.le_refl k), by simpa using hn 1 hfit⟩

theorem apduReply_header {src : UmtpAddr} {apdu : Ptr} {pduLen : UInt16} {h : ApduHeader}
    (hl : h.decodeLen = apduHeaderLen h.flag) {w u : World σ} {n : UInt16}
    (hrun : (apduReply src apdu pduLen h).run w = .ok n u) :
    ∃ type, u.apduTransBlk.cells.take h.decodeLen = h.reply type ∧ h.decodeLen ≤ n.toNat := by
  unfold apduReply at hrun
  rw [EStateM.run_bind] at hrun
  cases hservice : (serviceHandler src ⟨h.service.toNat, 0, .block h.decodeLen⟩
      (apdu.add h.decodeLen) (restLen pduLen h.decodeLen)).run w with
  | error e v =>
    rw [hservice] at hrun
    cases hrun
  | ok r v =>
    rcases r with ⟨ret, sd⟩
    rw [hservice] at hrun
    obtain ⟨blk, hblk⟩ := encodeReplyHeader_exists h
      (if ret ≠ 0 then umtpPduError else umtpPduResponse) v
    have hhead := encodeReplyHeader_run h (if ret ≠ 0 then umtpPduError else umtpPduResponse) hblk
    simp only [EStateM.run_bind, hhead] at hrun
    obtain ⟨htake, hn⟩ := encodeReplyBody_keeps hrun
    rw [← hl] at htake hn
    have hread := Buf.read_write hblk
    rw [List.drop_zero, h.reply_length, ← hl] at hread
    exact ⟨_, htake.trans hread, hn⟩

end Umtp
