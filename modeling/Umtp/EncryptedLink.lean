import Mathlib.Logic.Equiv.Basic
import Umtp.Crypt

/-! A link with the two hooks of `crypt.c`: what it makes of its own datagrams, and of others. -/

set_option autoImplicit false

namespace Umtp
open CheckedBuffer StateExcept SealedText

variable {σ τ : Type}

/-- A datagram with a frame that `dludp_encrypt` has made with this key. -/
def Produced (evp : Evp) (key : Buf UInt8 keySize) (bytes : List UInt8) : Prop :=
  ∃ calls iv stale input, 0 < (dludpEncrypt evp calls key iv stale input).1 ∧
    bytes = umtpSignature :: (dludpEncrypt evp calls key iv stale input).2

/-- What `dludp_decrypt` does with a datagram that gets to it, and what comes of any datagram. -/
structure DecryptsSafely (host : Endian) (evp : Evp) (calls : EvpCalls) (key : Buf UInt8 keySize)
    (dl : Dludp) (bytes : List UInt8) (sin : SockAddr) : Prop where
  -- no more than what has been received is there to be read
  reads : dl.Delivers host bytes sin → ∃ r, (dludpDecrypt evp calls key
    ⟨.dludpPdu, bytes.take maxPdu, 1⟩ (datagramBody bytes).length).run () = .ok r ()
  length : dl.Delivers host bytes sin → ∀ args, (dludpDecryptArgs
    ⟨.dludpPdu, receivedPdu (bytes.take maxPdu), 1⟩ (datagramBody bytes).length).run () =
      .ok args () → 0 ≤ args.inLen
  rejects : ¬ Produced evp key bytes → ∀ src (lpdu : Buf UInt8 maxPdu), ∃ src' lpdu',
    (dludpRecvData host dl src lpdu maxPdu (.datagram bytes sin)).run () = .ok (0, src', lpdu') ()

/-- The datagram does not get to `dludp_decrypt`, or it has all fields of a frame. If it is one
that the kernel has cut off, it is no frame for that. -/
def Whole (host : Endian) (evp : Evp) (calls : EvpCalls) (key : Buf UInt8 keySize) (dl : Dludp)
    (bytes : List UInt8) (sin : SockAddr) : Prop :=
  dl.Delivers host bytes sin → ivSize + tagSize ≤ (datagramBody bytes).length ∧
    (calls = .all → Produced evp key (bytes.take maxPdu) → Produced evp key bytes)

theorem dludpSendData_encrypted {host : Endian} {dl : Dludp} (hup : 0 ≤ dl.socket)
    {hook : List UInt8 → Int × List UInt8} (henc : dl.encrypt = some hook) {pdu : Ptr} {len : Int}
    {out : List UInt8} (hout : hook (pdu.bytes.take len.toNat) = ((out.length : Int), out))
    (hne : out ≠ []) (hlen : out.length < maxPdu) (sendto : SendTo σ) (dst : UmtpAddr) (s : σ) :
    (dludpSendData host dl sendto dst pdu len).run s =
      .ok (if (sendto s (dludpDest host dl dst) (umtpSignature :: out)).2.1 ≠ out.length + 1
        then -(sendto s (dludpDest host dl dst) (umtpSignature :: out)).2.2 else 0)
        (sendto s (dludpDest host dl dst) (umtpSignature :: out)).1 := by
  have hneg : ¬ dl.socket < 0 := Int.not_lt.mpr hup
  obtain ⟨buf, hbuf⟩ : ∃ buf, (Buf.fill maxPdu (0 : UInt8)).write 1 out = some buf :=
    Buf.exists_write (by omega)
  obtain ⟨buf', hbuf'⟩ : ∃ buf', buf.write 0 [umtpSignature] = some buf' :=
    Buf.exists_write (by decide)
  have hcopy : ∀ t : σ, (memcpy .dludpBuf (Buf.fill maxPdu 0) 1 ⟨.application, out, 0⟩
      out.length).run t = .ok buf t := memcpy_list rfl hbuf
  have hbytes : buf'.cells.take (out.length + 1) = umtpSignature :: out := by
    have htake : buf'.cells.take ([umtpSignature].length + out.length) = _ :=
      Buf.take_write_before hbuf hbuf'
    rw [Nat.add_comm]
    exact htake
  have hroom : ¬ maxPdu < out.length + 1 := by omega
  have hnat : ((out.length : Int) + 1).toNat = out.length + 1 := by omega
  simp [dludpSendData, dludpSendData.dludpSendBuf, hneg, henc, hout, hcopy, hne, poke_run hbuf',
    hnat, hroom, hbytes]

theorem dludpRecvData_decrypted {host : Endian} {dl : Dludp}
    {hook : List UInt8 → Int × List UInt8} (hdec : dl.decrypt = some hook) {bytes : List UInt8}
    {sin : SockAddr} (h : dl.Delivers host bytes sin)
    (hout : (hook (datagramBody bytes)).2.length ≤ maxPdu) (src : UmtpAddr)
    (lpdu : Buf UInt8 maxPdu) (s : τ) :
    ∃ src' buf, (dludpRecvData host dl src lpdu maxPdu (.datagram bytes sin)).run s =
        .ok (if (hook (datagramBody bytes)).1 ≤ 0 then 0 else (hook (datagramBody bytes)).1,
          src', buf) s ∧
      src'.Names sin ∧
      buf.cells.take (hook (datagramBody bytes)).2.length = (hook (datagramBody bytes)).2 := by
  obtain ⟨pdu, src', hpdu, hnames, hrun⟩ := dludpRecvData_signed src lpdu h s
  have hbody : pdu.cells.tail.take (min maxPdu bytes.length - 1) = datagramBody bytes := by
    rw [← List.drop_one, ← List.drop_take, hpdu, datagramBody]
  obtain ⟨buf, hbuf⟩ : ∃ buf, lpdu.write 0 (hook (datagramBody bytes)).2 = some buf :=
    Buf.exists_write (by omega)
  have hread := Buf.read_write hbuf
  have hcopy : (memcpy .taskBuf lpdu 0 ⟨.application, (hook (datagramBody bytes)).2, 0⟩
      (hook (datagramBody bytes)).2.length).run s = .ok buf s := memcpy_list rfl hbuf s
  refine ⟨src', buf, ?_, hnames, by simpa using hread⟩
  rw [hrun]
  simp [dludpDeliver, hdec, hbody, hcopy]

section

variable (host : Endian) (evp : Evp) (calls : EvpCalls) (key : Buf UInt8 keySize) {dl : Dludp}
  {bytes : List UInt8} {sin : SockAddr}

theorem produced_iff : Produced evp key bytes ↔
    ∃ (iv : Buf UInt8 ivSize) (input : List UInt8), input ≠ [] ∧
      bytes = umtpSignature :: sealedFrame evp key iv input := by
  constructor
  · rintro ⟨calls, iv, stale, input, hpos, rfl⟩
    obtain ⟨hne, hframe⟩ := dludpEncrypt_pos evp calls key iv hpos
    exact ⟨iv, input, hne, by rw [hframe]⟩
  · rintro ⟨iv, input, hne, rfl⟩
    have hrun := dludpEncrypt_run evp key iv (Buf.fill tagSize 0) hne
    refine ⟨.all, iv, Buf.fill tagSize 0, input, ?_, by rw [hrun]⟩
    rw [hrun, sealedFrame_length]
    exact Int.natCast_pos.mpr (Nat.add_pos_left (by decide) _)

omit host evp calls key in
theorem receivedPdu_room (h : bytes.length ≤ maxPdu) :
    (Ptr.mk .dludpPdu (receivedPdu bytes) 1).bytes.length = maxPdu - 1 := by
  rw [Ptr.bytes, List.length_drop, receivedPdu, List.length_append, List.length_replicate,
    Nat.add_sub_of_le h]

omit evp calls key in
theorem Dludp.Delivers.received (h : dl.Delivers host bytes sin) :
    bytes.take maxPdu = umtpSignature :: datagramBody bytes := by
  have hsigned := h.signed
  cases bytes with
  | nil => cases hsigned
  | cons b bytes =>
    rw [List.getElem?_cons_zero, Option.some.injEq] at hsigned
    subst hsigned
    rfl

theorem dludpDecrypt_pdu (h : dl.Delivers host bytes sin) (s : τ) : ∃ pdu : Buf UInt8 maxPdu,
    (memcpy .dludpPdu (Buf.fill maxPdu 0) 0 ⟨.application, bytes, 0⟩
      (min maxPdu bytes.length)).run s = .ok pdu s ∧
    (dludpDecrypt evp calls key ⟨.dludpPdu, pdu.cells, 1⟩ (datagramBody bytes).length).run s =
      .ok (dludpDecryptHook evp calls key (datagramBody bytes)) s := by
  obtain ⟨pdu, hpdu⟩ : ∃ pdu, (Buf.fill maxPdu (0 : UInt8)).write 0
      (bytes.take maxPdu) = some pdu := Buf.exists_write (by simp)
  have hcells : pdu.cells = receivedPdu (umtpSignature :: datagramBody bytes) := by
    obtain ⟨-, hcells⟩ := Buf.write_some hpdu
    rw [hcells, ← h.received]
    simp [receivedPdu, Buf.fill]
  have hroom := receivedPdu_room (List.length_take_le maxPdu bytes)
  rw [h.received] at hroom
  have hbody : (datagramBody bytes).length ≤ maxPdu - 1 := by
    rw [datagramBody_length]
    omega
  obtain ⟨r, hr⟩ := dludpDecrypt_ok evp calls key (by rw [hroom]; decide)
    (Int.ofNat_le.mpr (hbody.trans_eq hroom.symm))
  refine ⟨pdu, memcpy_run (by simp) ?_ s, ?_⟩
  · rw [← hpdu, Ptr.bytes, List.drop_zero, ← List.take_take, List.take_length]
  · rw [hcells, hr τ s, dludpDecryptHook, hr Unit ()]

/-- A message is taken only from a frame that has been made with this key. -/
theorem dludpDecryptHook_pos (h : dl.Delivers host bytes sin) {iv : Buf UInt8 ivSize}
    {tag : Buf UInt8 tagSize} {text : List UInt8}
    (hbody : datagramBody bytes = iv.cells ++ tag.cells ++ text)
    (hpos : 0 < (dludpDecryptHook evp calls key (datagramBody bytes)).1) :
    calls = .all ∧ Produced evp key (bytes.take maxPdu) := by
  rw [hbody, dludpDecryptHook_run] at hpos
  cases hready : calls.ready with
  | false => simp [hready] at hpos
  | true =>
    rw [hready, if_pos rfl] at hpos
    obtain ⟨hall, input, hne, hsealed⟩ := decryptText_pos evp calls key hready hpos
    refine ⟨hall, (produced_iff evp key).mpr ⟨iv, input, hne, ?_⟩⟩
    rw [h.received, hbody, sealedFrame, hsealed]

theorem dludpDecryptHook_length {iv : Buf UInt8 ivSize} {tag : Buf UInt8 tagSize}
    {text : List UInt8} (hbody : datagramBody bytes = iv.cells ++ tag.cells ++ text) :
    (dludpDecryptHook evp calls key (datagramBody bytes)).2.length ≤ maxPdu := by
  have hcount := congrArg List.length hbody
  simp only [datagramBody_length, List.length_append, Buf.length_cells] at hcount
  rw [hbody, dludpDecryptHook_run]
  split
  · have hout : (decryptText evp calls text tag key iv).2.length ≤ text.length :=
      decryptText_length evp calls key text
    omega
  · exact Nat.zero_le maxPdu

theorem Whole.safely (hup : 0 ≤ dl.socket) (hdec : dl.decrypt = some (dludpDecryptHook evp calls key))
    (h : Whole host evp calls key dl bytes sin) :
    DecryptsSafely host evp calls key dl bytes sin := by
  by_cases hdelivers : dl.Delivers host bytes sin
  · obtain ⟨hlen, hcut⟩ := h hdelivers
    obtain ⟨iv, tag, text, hbody⟩ := exists_fields hlen
    have hcount : (datagramBody bytes).length = ivSize + tagSize + text.length := by
      simp [hbody, Nat.add_assoc]
    refine ⟨fun _ => ?_, fun _ args hargs => ?_, fun hnot src lpdu => ?_⟩
    · have hptr : (Ptr.mk .dludpPdu (bytes.take maxPdu) 1).bytes = datagramBody bytes := rfl
      obtain ⟨r, hr⟩ := dludpDecrypt_ok evp calls key (hptr ▸ hlen)
        (Int.le_of_eq (congrArg (fun xs => (List.length xs : Int)) hptr.symm))
      exact ⟨r, hr Unit ()⟩
    · have hptr : (Ptr.mk .dludpPdu (receivedPdu (bytes.take maxPdu)) 1).bytes =
          iv.cells ++ tag.cells ++ (text ++ List.replicate (maxPdu - (bytes.take maxPdu).length) 0) := by
        simp [Ptr.bytes, receivedPdu, hdelivers.received, hbody]
      rw [dludpDecryptArgs_run hptr] at hargs
      cases hargs
      rw [hcount]
      show (0 : Int) ≤ ((ivSize + tagSize + text.length : Nat) : Int) - ivSize - tagSize
      omega
    · obtain ⟨src', buf, hrun, -, -⟩ := dludpRecvData_decrypted hdec hdelivers
        (dludpDecryptHook_length evp calls key hbody) src lpdu ()
      refine ⟨src', buf, ?_⟩
      rw [hrun, if_pos]
      by_contra hpos
      obtain ⟨hall, hproduced⟩ :=
        dludpDecryptHook_pos host evp calls key hdelivers hbody (Int.not_le.mp hpos)
      exact hnot (hcut hall hproduced)
  · refine ⟨fun h => absurd h hdelivers, fun h => absurd h hdelivers, fun _ src lpdu => ?_⟩
    exact ⟨src, lpdu, dludpRecvData_ignored src lpdu hup hdelivers ()⟩

theorem DecryptsSafely.whole (hdec : dl.decrypt = some (dludpDecryptHook evp calls key))
    (h : DecryptsSafely host evp calls key dl bytes sin) :
    Whole host evp calls key dl bytes sin := by
  intro hdelivers
  refine ⟨?_, fun hall hproduced => ?_⟩
  · have hroom : ivSize + tagSize ≤
        (Ptr.mk .dludpPdu (receivedPdu (bytes.take maxPdu)) 1).bytes.length := by
      rw [receivedPdu_room (List.length_take_le maxPdu bytes)]
      decide
    obtain ⟨iv, tag, rest, hfields⟩ := exists_fields hroom
    have hargs := h.length hdelivers _ (dludpDecryptArgs_run hfields _ ())
    simp only at hargs
    omega
  · by_contra hnot
    obtain ⟨iv, input, hne, hframe⟩ := (produced_iff evp key).mp hproduced
    rw [hdelivers.received, List.cons.injEq] at hframe
    obtain ⟨-, hbody⟩ := hframe
    obtain ⟨src, lpdu, hzero⟩ := h.rejects hnot UmtpAddr.zero (Buf.fill maxPdu 0)
    obtain ⟨src', buf, hrun, -, -⟩ := dludpRecvData_decrypted hdec hdelivers
      (dludpDecryptHook_length evp calls key hbody) UmtpAddr.zero (Buf.fill maxPdu 0) ()
    have hpos : ¬ (input.length : Int) ≤ 0 := by
      have := List.length_pos_iff.mpr hne
      omega
    rw [hall, hbody, dludpDecryptHook_frame, if_neg hpos, hzero] at hrun
    simp only [EStateM.Result.ok.injEq, Prod.mk.injEq] at hrun
    obtain ⟨⟨hlen, -⟩, -⟩ := hrun
    exact hpos (Int.le_of_eq hlen.symm)

end

section

variable {host : Endian} {evp : Evp} {key : Buf UInt8 keySize} {dl : Dludp} (hup : 0 ≤ dl.socket)
  (iv : Buf UInt8 ivSize) {npdu : List UInt8} (hne : npdu ≠ []) (hlen : npdu.length ≤ maxNpdu)

include hup hne hlen

theorem dludpSendData_frame {stale : Buf UInt8 tagSize}
    (henc : dl.encrypt = some (dludpEncrypt evp .all key iv stale)) {pdu : Ptr} {len : Int}
    (hread : pdu.bytes.take len.toNat = npdu) (sendto : SendTo σ) (dst : UmtpAddr) (s : σ) :
    (dludpSendData host dl sendto dst pdu len).run s =
      .ok (if (sendto s (dludpDest host dl dst)
          (umtpSignature :: sealedFrame evp key iv npdu)).2.1 ≠
            (sealedFrame evp key iv npdu).length + 1
        then -(sendto s (dludpDest host dl dst)
          (umtpSignature :: sealedFrame evp key iv npdu)).2.2 else 0)
        (sendto s (dludpDest host dl dst) (umtpSignature :: sealedFrame evp key iv npdu)).1 := by
  have hframe := sealedFrame_length evp key iv npdu
  have hmax : maxPdu = 2049 := rfl
  have hmax' : maxNpdu = 1025 := rfl
  have hsizes : ivSize + tagSize = 32 := rfl
  apply dludpSendData_encrypted hup henc
  · rw [hread]
    exact dludpEncrypt_run evp key iv stale hne
  · rw [← List.length_pos_iff]
    omega
  · omega

theorem dludpRecvData_frame (hdec : dl.decrypt = some (dludpDecryptHook evp .all key))
    {sin : SockAddr} (hforeign : ¬ (sin.addr = dl.addr ∧ ((host.value sin.port).toNat : Int) = dl.port))
    (src : UmtpAddr) (lpdu : Buf UInt8 maxPdu) (s : τ) :
    ∃ src' buf, (dludpRecvData host dl src lpdu maxPdu
        (.datagram (umtpSignature :: sealedFrame evp key iv npdu) sin)).run s =
        .ok ((npdu.length : Int), src', buf) s ∧
      src'.Names sin ∧ buf.cells.take npdu.length = npdu := by
  have hframe := sealedFrame_length evp key iv npdu
  have hmax : maxPdu = 2049 := rfl
  have hmax' : maxNpdu = 1025 := rfl
  have hsizes : ivSize + tagSize = 32 := rfl
  have hbody : datagramBody (umtpSignature :: sealedFrame evp key iv npdu) =
      sealedFrame evp key iv npdu := by
    rw [datagramBody, List.take_of_length_le]
    · rfl
    · rw [List.length_cons]
      omega
  have hhook := dludpDecryptHook_frame evp key iv npdu
  have hdelivers : dl.Delivers host (umtpSignature :: sealedFrame evp key iv npdu) sin :=
    ⟨hup, hforeign, rfl⟩
  have hpos : ¬ (npdu.length : Int) ≤ 0 := by
    have := List.length_pos_iff.mpr hne
    omega
  obtain ⟨src', buf, hrun, hnames, hbytes⟩ := dludpRecvData_decrypted hdec hdelivers
    (by simp only [hbody, hhook]; omega) src lpdu s
  simp only [hbody, hhook, hpos, if_false] at hrun hbytes
  exact ⟨src', buf, hrun, hnames, hbytes⟩

end

/-- What is sealed with a key comes back as it was; everything else is refused, without a look at
what has not been received, if and only if it is whole. -/
theorem encrypted_framing (host host' : Endian) (evp : Evp) (key : Buf UInt8 keySize)
    (dl dl' : Dludp) (iv iv' : Buf UInt8 ivSize) (stale stale' : Buf UInt8 tagSize)
    (hup : 0 ≤ dl.socket) (hup' : 0 ≤ dl'.socket) :
    (∀ (pdu : Ptr) (len : Int), 0 < len → len ≤ maxNpdu →
      pdu.off + len.toNat ≤ pdu.obj.length → ∃ bytes,
        (∀ (σ : Type) (sendto : SendTo σ) (dst : UmtpAddr) (s : σ),
          (dludpSendData host (dl.crypted evp .all key iv stale) sendto dst pdu len).run s =
            .ok (if (sendto s (dludpDest host dl dst) bytes).2.1 ≠ bytes.length
              then -(sendto s (dludpDest host dl dst) bytes).2.2 else 0)
              (sendto s (dludpDest host dl dst) bytes).1) ∧
        ∀ sin, ¬ (sin.addr = dl'.addr ∧ ((host'.value sin.port).toNat : Int) = dl'.port) →
          ∀ src (lpdu : Buf UInt8 maxPdu), ∃ src' lpdu',
            (dludpRecvData host' (dl'.crypted evp .all key iv' stale') src lpdu maxPdu
              (.datagram bytes sin)).run () = .ok (len, src', lpdu') () ∧
            src'.Names sin ∧ lpdu'.cells.take len.toNat = pdu.bytes.take len.toNat) ∧
      ∀ calls bytes sin,
        DecryptsSafely host' evp calls key (dl'.crypted evp calls key iv' stale') bytes sin ↔
          Whole host' evp calls key (dl'.crypted evp calls key iv' stale') bytes sin := by
  refine ⟨fun pdu len hpos hmax hread => ?_, fun calls bytes sin =>
    ⟨fun h => h.whole host' evp calls key rfl, fun h => h.safely host' evp calls key hup' rfl⟩⟩
  have hlen : (pdu.bytes.take len.toNat).length = len.toNat := by
    simp [Ptr.bytes]
    omega
  have hne : pdu.bytes.take len.toNat ≠ [] := by
    rw [← List.length_pos_iff, hlen]
    omega
  have hfit : (pdu.bytes.take len.toNat).length ≤ maxNpdu := by omega
  refine ⟨umtpSignature :: sealedFrame evp key iv (pdu.bytes.take len.toNat),
    fun σ sendto dst s => ?_, fun sin hforeign src lpdu => ?_⟩
  · have hup : 0 ≤ (dl.crypted evp .all key iv stale).socket := hup
    exact dludpSendData_frame hup iv hne hfit rfl rfl sendto dst s
  · have hup' : 0 ≤ (dl'.crypted evp .all key iv' stale').socket := hup'
    have hrecv := dludpRecvData_frame hup' iv hne hfit rfl hforeign src lpdu ()
    rw [hlen, Int.toNat_of_nonneg (Int.le_of_lt hpos)] at hrecv
    exact hrecv

/-! AES-256-GCM with the key that `gen_key` makes, as far as one message of three bytes. -/

def sampleKey : Buf UInt8 keySize :=
  ⟨[5, 112, 95, 79, 209, 175, 122, 110, 41, 212, 124, 135, 152, 118, 175, 142, 153, 249, 163, 196,
    76, 59, 242, 226, 128, 129, 63, 85, 169, 52, 81, 139], rfl⟩

def sampleIv : Buf UInt8 ivSize := ⟨[1, 2, 3, 4, 5, 6, 7, 8, 9, 10, 11, 12, 13, 14, 15, 16], rfl⟩

def sampleTag : Buf UInt8 tagSize :=
  ⟨[220, 45, 5, 230, 155, 83, 17, 112, 51, 186, 247, 147, 244, 27, 187, 6], rfl⟩

/-- The key stream changes the one text, and the other back. -/
def sampleMask : List UInt8 → List UInt8 := Equiv.swap [1, 2, 3] [224, 153, 222]

theorem sampleMask_length (text : List UInt8) : (sampleMask text).length = text.length := by
  rw [sampleMask, Equiv.swap_apply_def]
  split
  · rename_i h
    rw [h]
    rfl
  · split
    · rename_i h
      rw [h]
      rfl
    · rfl

def sampleEvp : Evp where
  aes256Gcm := Cipher.encryptThenMac (fun _ _ => sampleMask)
    (fun _ _ text => if text = [224, 153, 222] then sampleTag else Buf.fill tagSize 0)
    (fun _ _ => sampleMask_length) fun _ _ => Equiv.congr_fun (Equiv.swap_swap _ _)
  update _ _ := sampleMask
  length_update _ _ := sampleMask_length
  negative _ := (0, [])

def sampleLink : Dludp := localLink.crypted sampleEvp .all sampleKey sampleIv (Buf.fill tagSize 0)

def otherTag : List UInt8 := umtpSignature :: (sampleIv.cells ++ sampleIv.cells ++ [224, 153, 222])

theorem otherTag_not_produced : ¬ Produced sampleEvp sampleKey otherTag := by
  intro h
  obtain ⟨iv, input, -, hframe⟩ := (produced_iff sampleEvp sampleKey).mp h
  obtain ⟨-, hbody⟩ := List.cons.inj hframe
  have hfields : sampleIv.cells ++ sampleIv.cells = iv.cells ++
      (sampleEvp.aes256Gcm.encrypt sampleKey iv input).2.cells ∧
      [224, 153, 222] = (sampleEvp.aes256Gcm.encrypt sampleKey iv input).1 :=
    List.append_inj hbody (by simp)
  obtain ⟨-, htag⟩ := List.append_inj hfields.1 (by simp)
  have hmac : (sampleEvp.aes256Gcm.encrypt sampleKey iv input).2 = sampleTag :=
    if_pos hfields.2.symm
  rw [hmac] at htag
  exact absurd htag (by decide)

theorem encrypted_framing_sample : sampleEvp.aes256Gcm.encrypt sampleKey sampleIv [1, 2, 3] =
      ([224, 153, 222], sampleTag) ∧
    (∃ bytes, (dludpSendData .little sampleLink
        (fun (sent : List (List UInt8)) _ bytes => (sent ++ [bytes], bytes.length, 0)) .zero
        ⟨.application, [1, 2, 3], 0⟩ 3).run [] = .ok 0 [bytes] ∧
      ∃ src lpdu, (dludpRecvData .little sampleLink .zero (Buf.fill maxPdu 0) maxPdu
        (.datagram bytes peerAddr)).run () = .ok (3, src, lpdu) () ∧
        lpdu.cells.take 3 = [1, 2, 3]) ∧
    sampleLink.Delivers .little otherTag peerAddr ∧
      DecryptsSafely .little sampleEvp .all sampleKey sampleLink otherTag peerAddr ∧
      ∃ src lpdu, (dludpRecvData .little sampleLink .zero (Buf.fill maxPdu 0) maxPdu
        (.datagram otherTag peerAddr)).run () = .ok (0, src, lpdu) () := by
  obtain ⟨htrip, hsafe⟩ := encrypted_framing .little .little sampleEvp sampleKey localLink
    localLink sampleIv sampleIv (Buf.fill tagSize 0) (Buf.fill tagSize 0) (by decide) (by decide)
  obtain ⟨bytes, hsend, hrecv⟩ := htrip ⟨.application, [1, 2, 3], 0⟩ 3 (by decide) (by decide)
    (by decide)
  have hwhole : Whole .little sampleEvp .all sampleKey sampleLink otherTag peerAddr :=
    fun _ => ⟨by decide, fun _ h => absurd h otherTag_not_produced⟩
  have hsafely := (hsafe .all otherTag peerAddr).mpr hwhole
  refine ⟨rfl, ⟨bytes, ?_, ?_⟩, ⟨by decide, by decide, rfl⟩, hsafely,
    hsafely.rejects otherTag_not_produced .zero (Buf.fill maxPdu 0)⟩
  · have hrun := hsend _ (fun (sent : List (List UInt8)) _ bytes => (sent ++ [bytes], bytes.length, 0))
      .zero []
    rw [sampleLink]
    simpa using hrun
  · obtain ⟨src, lpdu, hrun, -, hbytes⟩ := hrecv peerAddr (by decide) .zero (Buf.fill maxPdu 0)
    exact ⟨src, lpdu, hrun, hbytes⟩

/-- Of an empty frame the two fields are read in spite of that, and a length of -32 is passed on. -/
theorem short_frame_decrypted :
    (dludpDecrypt sampleEvp .all sampleKey ⟨.dludpPdu, [umtpSignature], 1⟩ 0).run () =
      .error (.overread .dludpPdu 1) () ∧
    (∃ args, (dludpDecryptArgs ⟨.dludpPdu, receivedPdu [umtpSignature], 1⟩ 0).run () =
      .ok args () ∧ args.inLen = -32) ∧
    ¬ ∀ bytes sin, DecryptsSafely .little sampleEvp .all sampleKey sampleLink bytes sin := by
  have hzeros : (Ptr.mk .dludpPdu (receivedPdu [umtpSignature]) 1).bytes =
      (Buf.fill ivSize 0).cells ++ (Buf.fill tagSize 0).cells ++ List.replicate 2016 0 := by
    show List.replicate (maxPdu - 1) 0 =
      List.replicate ivSize 0 ++ List.replicate tagSize 0 ++ List.replicate 2016 0
    rw [List.replicate_append_replicate, List.replicate_append_replicate]
    exact congrArg (fun n => List.replicate n 0) (by decide)
  refine ⟨rfl, ⟨_, dludpDecryptArgs_run hzeros 0 (), rfl⟩, fun h => ?_⟩
  · have hdelivers : sampleLink.Delivers .little [umtpSignature] peerAddr :=
      ⟨by decide, by decide, rfl⟩
    obtain ⟨r, hr⟩ := (h [umtpSignature] peerAddr).reads hdelivers
    cases hr

end Umtp
