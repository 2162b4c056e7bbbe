import Umtp.World

/-! `dl_udp.c` and the address functions of `umtp_dl.c`: the UDP data link. A datagram is the
signature byte and the NPDU, or what the encryption hook made of it. -/

set_option autoImplicit false

namespace Umtp
open CheckedBuffer StateExcept

def umtpSignature : UInt8 := 0x68

/-- The byte order of the host, which shows where a 16-bit port is taken from its bytes. -/
inductive Endian where
  | little
  | big
  deriving DecidableEq, Repr

def Endian.value (e : Endian) (b : Buf UInt8 2) : UInt16 :=
  let first : UInt8 := b.cells[0]
  let second : UInt8 := b.cells[1]
  match e with
  | .little => first.toUInt16 + 256 * second.toUInt16
  | .big => 256 * first.toUInt16 + second.toUInt16

def Endian.bytes (e : Endian) (x : UInt16) : Buf UInt8 2 :=
  match e with
  | .little => ⟨[x.toUInt8, (x / 256).toUInt8], rfl⟩
  | .big => ⟨[(x / 256).toUInt8, x.toUInt8], rfl⟩

/-- `struct sockaddr_in`, as its bytes lie in memory. -/
structure SockAddr where
  addr : Buf UInt8 4
  port : Buf UInt8 2
  deriving DecidableEq

/-- The `struct umtp_dl` of a UDP link. A hook gives its result and the bytes it stores. -/
structure Dludp where
  socket : Int
  port : Int
  addr : Buf UInt8 4
  broadcastAddr : Buf UInt8 4
  encrypt : Option (List UInt8 → Int × List UInt8)
  decrypt : Option (List UInt8 → Int × List UInt8)

/-- What `select` and `recvfrom` come back with. -/
inductive Arrival where
  | timeout
  | failed
  | datagram (bytes : List UInt8) (src : SockAddr)

def dlumtpDecodeAddress (addr : UmtpAddr) : SockAddr where
  addr := ⟨addr.addr.cells.take 4, by simp [maxMacLen]⟩
  port := ⟨(addr.addr.cells.drop 4).take 2, by simp [maxMacLen]⟩

variable {σ τ : Type} {n : Nat}

/-- `src->addr_len = 6` and the two copies after it. -/
def storeSource (src : UmtpAddr) (sin : SockAddr) : EStateM Stop τ UmtpAddr := do
  let addr ← memcpy .application src.addr 0 ⟨.application, sin.addr.cells, 0⟩ 4
  let addr ← memcpy .application addr 4 ⟨.application, sin.port.cells, 0⟩ 2
  return { addrLen := 6, addr }

/-- The message as the caller gets it in `lpdu`, and its length. -/
def dludpDeliver (dl : Dludp) (pdu : Buf UInt8 maxPdu) (recvBytes : Nat) (lpdu : Buf UInt8 n) :
    EStateM Stop τ (Int × Buf UInt8 n) := do
  match dl.decrypt with
  | some decrypt =>
    let (pduLen, out) := decrypt ((pdu.cells.drop 1).take (recvBytes - 1))
    let lpdu ← memcpy .taskBuf lpdu 0 ⟨.application, out, 0⟩ out.length
    return (if pduLen ≤ 0 then 0 else pduLen, lpdu)
  | none =>
    let lpdu ← memcpy .taskBuf lpdu 0 ⟨.dludpPdu, pdu.cells, 1⟩ (recvBytes - 1)
    return ((recvBytes : Int) - 1, lpdu)

/-- The kernel stores a datagram's first `max_pdu` bytes and drops the rest. -/
def dludpRecvData (host : Endian) (dl : Dludp) (src : UmtpAddr) (lpdu : Buf UInt8 n)
    (maxPduArg : Nat) (arrival : Arrival) : EStateM Stop τ (Int × UmtpAddr × Buf UInt8 n) := do
  if dl.socket < 0 then
    return (-einval, src, lpdu)
  match arrival with
  | .timeout => return (-etimedout, src, lpdu)
  | .failed => return (0, src, lpdu)
  | .datagram bytes sin =>
    let recvBytes := min maxPduArg bytes.length
    let pdu ← memcpy .dludpPdu (Buf.fill maxPdu 0) 0 ⟨.application, bytes, 0⟩ recvBytes
    if recvBytes = 0 then
      return (0, src, lpdu)
    if maxPduArg < recvBytes then
      return (-enomem, src, lpdu)
    -- A message from myself.
    if sin.addr = dl.addr ∧ ((host.value sin.port).toNat : Int) = dl.port then
      return (0, src, lpdu)
    if pdu.cells[0] ≠ umtpSignature then
      return (0, src, lpdu)
    let src ← storeSource src sin
    let (pduLen, lpdu) ← dludpDeliver dl pdu recvBytes lpdu
    return (pduLen, src, lpdu)

/-- `sendto`: the new state of the network, the bytes sent, and `errno`. -/
abbrev SendTo (σ : Type) := σ → SockAddr → List UInt8 → σ × Int × Int

def dludpDest (host : Endian) (dl : Dludp) (dst : UmtpAddr) : SockAddr :=
  if dst.addrLen = 0 then ⟨dl.broadcastAddr, host.bytes (UInt16.ofInt dl.port)⟩
  else dlumtpDecodeAddress dst

def dludpSendData (host : Endian) (dl : Dludp) (sendto : SendTo σ) (dst : UmtpAddr) (pdu : Ptr)
    (pduLen : Int) : EStateM Stop σ Int := do
  if dl.socket < 0 then
    return -ebadf
  let dest := dludpDest host dl dst
  let buf := Buf.fill maxPdu 0
  match dl.encrypt with
  | some encrypt =>
    let (len, out) := encrypt (pdu.bytes.take pduLen.toNat)
    let buf ← memcpy .dludpBuf buf 1 ⟨.application, out, 0⟩ out.length
    if len ≤ 0 then
      return 0
    dludpSendBuf sendto dest buf len
  | none =>
    let buf ← memcpy .dludpBuf buf 1 pdu (sizeT pduLen)
    dludpSendBuf sendto dest buf pduLen
where
  /-- The signature, and the call to the kernel. -/
  dludpSendBuf (sendto : SendTo σ) (dest : SockAddr) (buf : Buf UInt8 maxPdu) (len : Int) :
      EStateM Stop σ Int := do
    let buf ← poke .dludpBuf buf 0 umtpSignature
    if maxPdu < (len + 1).toNat then
      throw (.overread .dludpBuf maxPdu)
    let (bytesSent, errno) ← modifyGet fun s =>
      let (s', bytesSent, errno) := sendto s dest (buf.cells.take (len + 1).toNat)
      ((bytesSent, errno), s')
    return if bytesSent ≠ len + 1 then -errno else 0

def Dludp.link (host : Endian) (dl : Dludp) (sendto : SendTo σ) : UmtpDl σ :=
  ⟨dludpSendData host dl sendto⟩

/-- The datagrams that are neither the link's own nor of another protocol. -/
structure Dludp.Delivers (host : Endian) (dl : Dludp) (bytes : List UInt8) (sin : SockAddr) :
    Prop where
  up : 0 ≤ dl.socket
  foreign : ¬ (sin.addr = dl.addr ∧ ((host.value sin.port).toNat : Int) = dl.port)
  signed : bytes[0]? = some umtpSignature

/-- The address as the link writes it down: 4 bytes of IP address and 2 of port. -/
def UmtpAddr.Names (a : UmtpAddr) (sin : SockAddr) : Prop :=
  a.addrLen = 6 ∧ a.addr.cells.take 6 = sin.addr.cells ++ sin.port.cells

theorem storeSource_run (src : UmtpAddr) (sin : SockAddr) (s : τ) :
    ∃ src', (storeSource src sin).run s = .ok src' s ∧ src'.Names sin := by
  have hmac : maxMacLen = 7 := rfl
  obtain ⟨a, ha⟩ : ∃ a, src.addr.write 0 sin.addr.cells = some a :=
    Buf.exists_write (by simp [hmac])
  obtain ⟨b, hb⟩ : ∃ b, a.write 4 sin.port.cells = some b := Buf.exists_write (by simp [hmac])
  have hra : (memcpy .application src.addr 0 ⟨.application, sin.addr.cells, 0⟩ 4).run s = .ok a s :=
    memcpy_list (by simp) ha s
  have hrb : (memcpy .application a 4 ⟨.application, sin.port.cells, 0⟩ 2).run s = .ok b s :=
    memcpy_list (by simp) hb s
  refine ⟨⟨6, b⟩, ?_, rfl, ?_⟩
  · simp [storeSource, hra, hrb]
  · have h := Buf.take_write_after ha (show a.write sin.addr.cells.length _ = _ by simpa using hb)
    simpa using h

theorem recvfrom_run (bytes : List UInt8) : ∃ pdu : Buf UInt8 maxPdu,
    (∀ s : τ, (memcpy .dludpPdu (Buf.fill maxPdu 0) 0 ⟨.application, bytes, 0⟩
      (min maxPdu bytes.length)).run s = .ok pdu s) ∧
    pdu.cells.take (min maxPdu bytes.length) = bytes.take maxPdu := by
  have hlen : (bytes.take (min maxPdu bytes.length)).length = min maxPdu bytes.length := by simp
  obtain ⟨pdu, hpdu⟩ : ∃ pdu, (Buf.fill maxPdu (0 : UInt8)).write 0
      (bytes.take (min maxPdu bytes.length)) = some pdu := Buf.exists_write (by omega)
  have hread := Buf.read_write hpdu
  refine ⟨pdu, fun s => memcpy_run (by simp) hpdu s, ?_⟩
  rw [hlen, List.drop_zero] at hread
  rw [hread, ← List.take_take, List.take_length]

theorem first_received {bytes : List UInt8} {pdu : Buf UInt8 maxPdu}
    (h : pdu.cells.take (min maxPdu bytes.length) = bytes.take maxPdu)
    (hlen : 0 < min maxPdu bytes.length) : pdu.cells[0]? = bytes[0]? := by
  have hfirst := congrArg (fun l => l[0]?) h
  simp only [List.getElem?_take, hlen] at hfirst
  simpa using hfirst

section

variable {host : Endian} {dl : Dludp} (src : UmtpAddr) (lpdu : Buf UInt8 maxPdu)
  {bytes : List UInt8} {sin : SockAddr}

theorem dludpRecvData_ignored (hup : 0 ≤ dl.socket) (h : ¬ dl.Delivers host bytes sin) (s : τ) :
    (dludpRecvData host dl src lpdu maxPdu (.datagram bytes sin)).run s = .ok (0, src, lpdu) s := by
  obtain ⟨pdu, hcopy, hpdu⟩ := recvfrom_run (τ := τ) bytes
  have hopen : ¬ dl.socket < 0 := Int.not_lt.mpr hup
  have hcut : ¬ maxPdu < min maxPdu bytes.length := by omega
  by_cases hlen : min maxPdu bytes.length = 0
  · rw [hlen] at hcopy
    simp [dludpRecvData, hopen, hlen, hcopy]
  · by_cases hown : sin.addr = dl.addr ∧ ((host.value sin.port).toNat : Int) = dl.port
    · simp [dludpRecvData, hopen, hcopy, hlen, hcut, hown]
    · have hsig : pdu.cells[0] ≠ umtpSignature := by
        intro hs
        refine h ⟨hup, hown, ?_⟩
        rw [← first_received hpdu (by omega)]
        simp [hs]
      simp [dludpRecvData, hopen, hcopy, hlen, hcut, hown, hsig]

theorem dludpRecvData_dropped (h : ¬ dl.Delivers host bytes sin) (s : τ) :
    ∃ len, (dludpRecvData host dl src lpdu maxPdu (.datagram bytes sin)).run s =
      .ok (len, src, lpdu) s ∧ len ≤ 0 := by
  by_cases hup : dl.socket < 0
  · exact ⟨-einval, by simp [dludpRecvData, hup], by decide⟩
  · exact ⟨0, dludpRecvData_ignored src lpdu (Int.not_lt.mp hup) h s, Int.le_refl 0⟩

/-- What comes after the signature in the bytes the kernel has kept. -/
def datagramBody (bytes : List UInt8) : List UInt8 := (bytes.take maxPdu).drop 1

theorem datagramBody_length (bytes : List UInt8) :
    (datagramBody bytes).length = min maxPdu bytes.length - 1 := by
  simp [datagramBody]

theorem dludpRecvData_signed (h : dl.Delivers host bytes sin) (s : τ) :
    ∃ pdu src', pdu.cells.take (min maxPdu bytes.length) = bytes.take maxPdu ∧ src'.Names sin ∧
      (dludpRecvData host dl src lpdu maxPdu (.datagram bytes sin)).run s =
        (do
          let (pduLen, lpdu) ← dludpDeliver dl pdu (min maxPdu bytes.length) lpdu
          return (pduLen, src', lpdu)).run s := by
  obtain ⟨pdu, hcopy, hpdu⟩ := recvfrom_run (τ := τ) bytes
  obtain ⟨src', hsrc, hnames⟩ := storeSource_run src sin s
  have hup : ¬ dl.socket < 0 := Int.not_lt.mpr h.up
  have hpos : 0 < bytes.length := (List.getElem?_eq_some_iff.mp h.signed).1
  have hmax : maxPdu = 2049 := rfl
  have hlen : ¬ min maxPdu bytes.length = 0 := by omega
  have hcut : ¬ maxPdu < min maxPdu bytes.length := by omega
  have hsig : pdu.cells[0] = umtpSignature := by
    have hfirst := (first_received hpdu (by omega)).trans h.signed
    simpa using hfirst
  refine ⟨pdu, src', hpdu, hnames, ?_⟩
  simp [dludpRecvData, hup, hcopy, hlen, hcut, h.foreign, hsig, hsrc]

theorem dludpRecvData_delivers (hdec : dl.decrypt = none) (h : dl.Delivers host bytes sin) (s : τ) :
    ∃ src' buf, (dludpRecvData host dl src lpdu maxPdu (.datagram bytes sin)).run s =
        .ok (((datagramBody bytes).length : Int), src', buf) s ∧
      src'.Names sin ∧ buf.cells.take (datagramBody bytes).length = datagramBody bytes := by
  obtain ⟨pdu, src', hpdu, hnames, hrun⟩ := dludpRecvData_signed src lpdu h s
  have hpos : 0 < bytes.length := (List.getElem?_eq_some_iff.mp h.signed).1
  have hmax : maxPdu = 2049 := rfl
  have hbody : (pdu.cells.drop 1).take (min maxPdu bytes.length - 1) = datagramBody bytes := by
    rw [← List.drop_take, hpdu, datagramBody]
  obtain ⟨buf, hbuf⟩ : ∃ buf, lpdu.write 0 (datagramBody bytes) = some buf :=
    Buf.exists_write (by rw [datagramBody_length]; omega)
  have hread := Buf.read_write hbuf
  have hdeliver : (memcpy .taskBuf lpdu 0 ⟨.dludpPdu, pdu.cells, 1⟩
      (min maxPdu bytes.length - 1)).run s = .ok buf s := by
    apply memcpy_run
    · simp
      omega
    · rw [Ptr.bytes, hbody]
      exact hbuf
  refine ⟨src', buf, ?_, hnames, by simpa using hread⟩
  have hcount : ((min maxPdu bytes.length : Nat) : Int) - 1 = (datagramBody bytes).length := by
    rw [datagramBody_length]
    omega
  rw [hrun]
  simp [dludpDeliver, hdec, hdeliver, ← hcount]

end

section

variable {host : Endian} {dl : Dludp} {sendto : SendTo σ} {dst : UmtpAddr} {pdu : Ptr} {len : Int}

theorem dludpSendData_run (hup : 0 ≤ dl.socket) (henc : dl.encrypt = none) (h0 : 0 ≤ len)
    (hlen : len < maxPdu) (hread : pdu.off + len.toNat ≤ pdu.obj.length) {s s' : σ}
    {bytesSent errno : Int} (hsend : sendto s (dludpDest host dl dst)
      (umtpSignature :: pdu.bytes.take len.toNat) = (s', bytesSent, errno)) :
    (dludpSendData host dl sendto dst pdu len).run s =
      .ok (if bytesSent ≠ len + 1 then -errno else 0) s' := by
  have hmax : (maxPdu : Int) = 2049 := rfl
  have hmax' : maxPdu = 2049 := rfl
  have hneg : ¬ dl.socket < 0 := by omega
  have hcopy : (pdu.bytes.take len.toNat).length = len.toNat := by
    simp [Ptr.bytes]
    omega
  obtain ⟨buf, hbuf⟩ : ∃ buf, (Buf.fill maxPdu (0 : UInt8)).write 1 (pdu.bytes.take len.toNat) =
      some buf := Buf.exists_write (by omega)
  obtain ⟨buf', hbuf'⟩ : ∃ buf', buf.write 0 [umtpSignature] = some buf' :=
    Buf.exists_write (by decide)
  have hbytes : buf'.cells.take (len + 1).toNat = umtpSignature :: pdu.bytes.take len.toNat := by
    have htake : buf'.cells.take ([umtpSignature].length + (pdu.bytes.take len.toNat).length) = _ :=
      Buf.take_write_before hbuf hbuf'
    rw [hcopy] at htake
    rw [show (len + 1).toNat = [umtpSignature].length + len.toNat by simp; omega, htake]
    rfl
  have hrun : ∀ t : σ, (memcpy .dludpBuf (Buf.fill maxPdu 0) 1 pdu len.toNat).run t = .ok buf t :=
    fun t => memcpy_run hread hbuf t
  have hroom : ¬ maxPdu < (len + 1).toNat := by omega
  simp [dludpSendData, dludpSendData.dludpSendBuf, hneg, henc,
    sizeT_of_nonneg h0 (show len < 2 ^ 64 by omega), hrun, poke_run hbuf', hroom, hbytes, hsend]

end

def localLink : Dludp where
  socket := 3
  port := 0x2E08
  addr := ⟨[10, 0, 0, 1], rfl⟩
  broadcastAddr := ⟨[10, 0, 0, 255], rfl⟩
  encrypt := none
  decrypt := none

def peerAddr : SockAddr := ⟨⟨[10, 0, 0, 2], rfl⟩, ⟨[0x2E, 0x08], rfl⟩⟩

end Umtp
