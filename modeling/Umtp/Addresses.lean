import Umtp.DlUdp

set_option autoImplicit false

namespace Umtp
open CheckedBuffer StateExcept

def umtpDefaultPort : Int := 0x2E08

/-- The number whose bytes on this host are those of `x` in network order. -/
def htons (host : Endian) (x : UInt16) : UInt16 := host.value (Endian.big.bytes x)

def Endian.intBytes (e : Endian) (x : Int) : Buf UInt8 4 :=
  let u := UInt32.ofInt x
  match e with
  | .little =>
    ⟨[u.toUInt8, (u / 256).toUInt8, (u / 65536).toUInt8, (u / 16777216).toUInt8], rfl⟩
  | .big => ⟨[(u / 16777216).toUInt8, (u / 65536).toUInt8, (u / 256).toUInt8, u.toUInt8], rfl⟩

/-- What `memcpy(.., &dl->port, 2)` copies. -/
def Dludp.portStart (host : Endian) (dl : Dludp) : Buf UInt8 2 :=
  ⟨(host.intBytes dl.port).cells.take 2, by simp⟩

/-- `addr_len = 6` and the two copies around it. -/
def UmtpAddr.store (a : UmtpAddr) (ip : Buf UInt8 4) (port : Buf UInt8 2) : UmtpAddr where
  addrLen := 6
  addr := ⟨ip.cells ++ port.cells ++ a.addr.cells.drop 6, by simp [maxMacLen]⟩

def dlumtpGetUmtpBcastAddr (host : Endian) (dl : Option Dludp) (addr : Option UmtpAddr) :
    Option UmtpAddr :=
  match dl, addr with
  | some dl, some a => some (a.store dl.broadcastAddr (dl.portStart host))
  | _, _ => addr

def dlumtpGetUmtpAddr (host : Endian) (dl : Option Dludp) (addr : Option UmtpAddr) :
    Option UmtpAddr :=
  match dl, addr with
  | some dl, some a => some (a.store dl.addr (dl.portStart host))
  | _, _ => addr

/-- `inetAddr` is the `inet_addr` of the system. -/
def dlumtpEncodeAddress (host : Endian) (inetAddr : String → Buf UInt8 4) (addr : Option UmtpAddr)
    (ip : Option String) (port : UInt16) : Int × Option UmtpAddr :=
  match addr, ip with
  | some a, some ip => (6, some (a.store (inetAddr ip) (host.bytes (htons host port))))
  | _, _ => (0, addr)

/-- What `dludp_init` gets from the system: the addresses of its interface, or the one it is
given, a socket, and the results of the calls on it. -/
structure LinkSetup where
  addr : Buf UInt8 4
  broadcastAddr : Buf UInt8 4
  socket : Int
  setsockopt : Int
  bind : SockAddr → Int
  errno : Int

/-- The result, the link, and the address that its socket is bound to. -/
def dludpInit (host : Endian) (dl : Dludp) (sys : LinkSetup) : Int × Dludp × Option SockAddr :=
  let dl := { dl with
    port := if dl.port ≤ 0 then umtpDefaultPort else dl.port
    addr := sys.addr
    broadcastAddr := sys.broadcastAddr
    socket := sys.socket }
  if sys.socket ≤ 0 then (sys.errno, dl, none)
  else if sys.setsockopt ≠ 0 then (sys.errno, { dl with socket := -1 }, none)
  else
    let sin : SockAddr := ⟨Buf.fill 4 0, host.bytes (htons host (UInt16.ofInt dl.port))⟩
    if sys.bind sin ≠ 0 then (sys.errno, { dl with socket := -1 }, none)
    else (0, dl, some sin)

def UmtpAddr.address (a : UmtpAddr) : UInt8 × List UInt8 :=
  (a.addrLen, a.addr.cells.take a.addrLen.toNat)

/-- The link takes a datagram from this source for one of its own. -/
def Dludp.Drops (host : Endian) (dl : Dludp) (bytes : List UInt8) (sin : SockAddr) : Prop :=
  ∀ src lpdu, (dludpRecvData host dl src (lpdu : Buf UInt8 maxPdu) maxPdu (.datagram bytes sin)).run
    () = .ok (0, src, lpdu) ()

/-- All agree on the address of a link that is bound to `bound`, and on the port. -/
structure OneForm (host : Endian) (inetAddr : String → Buf UInt8 4) (dl : Dludp)
    (bound : SockAddr) (ip : String) (port : UInt16) : Prop where
  get : ∀ a b, (dlumtpGetUmtpAddr host (some dl) (some a)).map UmtpAddr.address =
    (dlumtpEncodeAddress host inetAddr (some b) (some ip) port).2.map UmtpAddr.address
  recv : ∀ peer src (lpdu : Buf UInt8 maxPdu) bytes len src' lpdu' b,
    (dludpRecvData host peer src lpdu maxPdu (.datagram bytes ⟨dl.addr, bound.port⟩)).run () =
      .ok (len, src', lpdu') () → 0 < len →
    some src'.address =
      (dlumtpEncodeAddress host inetAddr (some b) (some ip) port).2.map UmtpAddr.address
  send : ∀ peer a dst, (dlumtpEncodeAddress host inetAddr (some a) (some ip) port).2 = some dst →
    (dludpDest host peer dst).port = bound.port
  broadcast : ∀ dst, dst.addrLen = 0 → (dludpDest host dl dst).port = bound.port
  own : ∀ bytes sin, bytes[0]? = some umtpSignature →
    (dl.Drops host bytes sin ↔ sin = ⟨dl.addr, bound.port⟩)

theorem Endian.bytes_value (e : Endian) (b : Buf UInt8 2) : e.bytes (e.value b) = b := by
  obtain ⟨cells, hsize⟩ := b
  obtain ⟨x, y, rfl⟩ := List.length_eq_two.mp hsize
  have hx := x.toNat_lt
  have hy := y.toNat_lt
  have h256 : (256 : UInt16).toNat = 256 := rfl
  cases e with
  | little =>
    apply Buf.ext
    simp only [Endian.bytes, Endian.value, List.getElem_cons_zero, List.getElem_cons_succ,
      List.cons.injEq, and_true, ← UInt8.toNat_inj, UInt16.toNat_toUInt8, UInt16.toNat_add,
      UInt16.toNat_mul, UInt16.toNat_div, UInt8.toNat_toUInt16, h256]
    omega
  | big =>
    apply Buf.ext
    simp only [Endian.bytes, Endian.value, List.getElem_cons_zero, List.getElem_cons_succ,
      List.cons.injEq, and_true, ← UInt8.toNat_inj, UInt16.toNat_toUInt8, UInt16.toNat_add,
      UInt16.toNat_mul, UInt16.toNat_div, UInt8.toNat_toUInt16, h256]
    omega

theorem Endian.value_bytes (e : Endian) (x : UInt16) : e.value (e.bytes x) = x := by
  have hx := x.toNat_lt
  have h256 : (256 : UInt16).toNat = 256 := rfl
  rw [← UInt16.toNat_inj]
  cases e with
  | little =>
    simp only [Endian.bytes, Endian.value, List.getElem_cons_zero, List.getElem_cons_succ,
      UInt16.toNat_toUInt8, UInt16.toNat_add, UInt16.toNat_mul, UInt16.toNat_div,
      UInt8.toNat_toUInt16, h256]
    omega
  | big =>
    simp only [Endian.bytes, Endian.value, List.getElem_cons_zero, List.getElem_cons_succ,
      UInt16.toNat_toUInt8, UInt16.toNat_add, UInt16.toNat_mul, UInt16.toNat_div,
      UInt8.toNat_toUInt16, h256]
    omega

theorem bytes_htons (host : Endian) (x : UInt16) : host.bytes (htons host x) = Endian.big.bytes x :=
  host.bytes_value _

def SameBytes (port : UInt16) : Prop := port.toNat / 256 = port.toNat % 256

instance (port : UInt16) : Decidable (SameBytes port) :=
  inferInstanceAs (Decidable (port.toNat / 256 = port.toNat % 256))

theorem Endian.bytes_little_iff (port : UInt16) :
    Endian.little.bytes port = Endian.big.bytes port ↔ SameBytes port := by
  have h256 : (256 : UInt16).toNat = 256 := rfl
  have hlt := port.toNat_lt
  have hcells : Endian.little.bytes port = Endian.big.bytes port ↔
      (Endian.little.bytes port).cells = (Endian.big.bytes port).cells :=
    ⟨congrArg Buf.cells, Buf.ext⟩
  rw [hcells]
  simp only [Endian.bytes, List.cons.injEq, and_true, ← UInt8.toNat_inj, UInt16.toNat_toUInt8,
    UInt16.toNat_div, h256, SameBytes]
  omega

/-- The first half of an `int` that holds a port is the port's bytes on a little-endian host,
and 0 on a big-endian one. -/
theorem Dludp.portStart_little {dl : Dludp} {port : UInt16} (hport : dl.port = port.toNat) :
    dl.portStart .little = Endian.little.bytes port := by
  have hlt := port.toNat_lt
  have h16 : (256 : UInt16).toNat = 256 := rfl
  have h32 : (256 : UInt32).toNat = 256 := rfl
  have hu : (UInt32.ofInt dl.port).toNat = port.toNat := by
    rw [hport, UInt32.ofInt, UInt32.toNat_ofNat']
    omega
  apply Buf.ext
  simp only [portStart, Endian.intBytes, Endian.bytes, List.take_succ_cons, List.take_zero,
    List.cons.injEq, and_true, ← UInt8.toNat_inj, UInt32.toNat_toUInt8, UInt32.toNat_div,
    UInt16.toNat_toUInt8, UInt16.toNat_div, hu, h16, h32]

theorem Dludp.portStart_big {dl : Dludp} {port : UInt16} (hport : dl.port = port.toNat) :
    dl.portStart .big = Endian.big.bytes 0 := by
  have hlt := port.toNat_lt
  have hhigh : (65536 : UInt32).toNat = 65536 := rfl
  have htop : (16777216 : UInt32).toNat = 16777216 := rfl
  have hu : (UInt32.ofInt dl.port).toNat = port.toNat := by
    rw [hport, UInt32.ofInt, UInt32.toNat_ofNat']
    omega
  apply Buf.ext
  simp only [portStart, Endian.intBytes, Endian.bytes, List.take_succ_cons, List.take_zero,
    List.cons.injEq, and_true, ← UInt8.toNat_inj, UInt32.toNat_toUInt8, UInt32.toNat_div, hu,
    hhigh, htop]
  simp
  omega

theorem Endian.bytes_inj {e : Endian} {x y : UInt16} (h : e.bytes x = e.bytes y) : x = y := by
  rw [← e.value_bytes x, h, e.value_bytes]

theorem portStart_iff {host : Endian} {dl : Dludp} {port : UInt16} (hpos : port ≠ 0)
    (hport : dl.port = port.toNat) :
    dl.portStart host = Endian.big.bytes port ↔ host = .little ∧ SameBytes port := by
  cases host with
  | little =>
    rw [Dludp.portStart_little hport, Endian.bytes_little_iff]
    simp
  | big =>
    rw [Dludp.portStart_big hport]
    constructor
    · intro h
      exact absurd (Endian.bytes_inj h).symm hpos
    · rintro ⟨h, -⟩
      cases h

theorem UmtpAddr.Names.address {a : UmtpAddr} {sin : SockAddr} (h : a.Names sin) :
    a.address = (6, sin.addr.cells ++ sin.port.cells) := by
  obtain ⟨hlen, hcells⟩ := h
  rw [UmtpAddr.address, hlen]
  exact congrArg _ hcells

theorem UmtpAddr.store_names (a : UmtpAddr) (ip : Buf UInt8 4) (port : Buf UInt8 2) :
    (a.store ip port).Names ⟨ip, port⟩ := by
  refine ⟨rfl, ?_⟩
  simp [UmtpAddr.store, List.take_append]

theorem dludpRecvData_names {τ : Type} {host : Endian} {dl : Dludp} {src : UmtpAddr}
    {lpdu : Buf UInt8 maxPdu} {bytes : List UInt8} {sin : SockAddr} {s s' : τ}
    {r : Int × UmtpAddr × Buf UInt8 maxPdu} (hdelivers : dl.Delivers host bytes sin)
    (h : (dludpRecvData host dl src lpdu maxPdu (.datagram bytes sin)).run s = .ok r s') :
    r.2.1.Names sin := by
  obtain ⟨pdu, src', -, hnames, hrest⟩ := dludpRecvData_signed src lpdu hdelivers s
  rw [hrest] at h
  obtain ⟨⟨pduLen, lpdu'⟩, u, -, hret⟩ := of_bind_ok h
  cases hret
  exact hnames

theorem Dludp.drops_iff {host : Endian} {dl : Dludp} {bytes : List UInt8} {sin : SockAddr}
    (hup : 0 ≤ dl.socket) (hsigned : bytes[0]? = some umtpSignature) :
    dl.Drops host bytes sin ↔
      sin.addr = dl.addr ∧ ((host.value sin.port).toNat : Int) = dl.port := by
  constructor
  · intro h
    by_contra hforeign
    have hnames := dludpRecvData_names ⟨hup, hforeign, hsigned⟩ (h UmtpAddr.zero (Buf.fill _ 0))
    exact absurd hnames.1 (by decide)
  · intro hown src lpdu
    obtain ⟨pdu, hcopy, hpdu⟩ := recvfrom_run (τ := Unit) bytes
    have hpos : 0 < bytes.length := (List.getElem?_eq_some_iff.mp hsigned).1
    have hmax : maxPdu = 2049 := rfl
    have hlen : ¬ min maxPdu bytes.length = 0 := by omega
    have hcut : ¬ maxPdu < min maxPdu bytes.length := by omega
    have hsocket : ¬ dl.socket < 0 := Int.not_lt.mpr hup
    simp [dludpRecvData, hsocket, hcopy, hlen, hcut, hown]

theorem Dludp.drops_self_iff {dl : Dludp} {port : UInt16} {bound sin : SockAddr}
    {bytes : List UInt8} (hup : 0 ≤ dl.socket) (hdl : dl.port = port.toNat)
    (hbytes : Endian.little.bytes port = bound.port) (hsigned : bytes[0]? = some umtpSignature) :
    dl.Drops .little bytes sin ↔ sin = ⟨dl.addr, bound.port⟩ := by
  have hvalue : ((Endian.little.value sin.port).toNat : Int) = dl.port ↔
      sin.port = bound.port := by
    rw [hdl, Int.natCast_inj, UInt16.toNat_inj, ← hbytes]
    constructor
    · intro h
      rw [← h, Endian.bytes_value]
    · intro h
      rw [h, Endian.value_bytes]
  rw [Dludp.drops_iff hup hsigned, hvalue]
  constructor
  · rintro ⟨haddr, hsin⟩
    rw [← haddr, ← hsin]
  · rintro rfl
    exact ⟨rfl, rfl⟩

theorem dlumtpEncodeAddress_address (host : Endian) (inetAddr : String → Buf UInt8 4)
    (a : UmtpAddr) (ip : String) (port : UInt16) :
    (dlumtpEncodeAddress host inetAddr (some a) (some ip) port).2.map UmtpAddr.address =
      some (6, (inetAddr ip).cells ++ (Endian.big.bytes port).cells) := by
  simp [dlumtpEncodeAddress, bytes_htons, (a.store_names _ _).address]

theorem dlumtpGetUmtpAddr_address (host : Endian) (dl : Dludp) (a : UmtpAddr) :
    (dlumtpGetUmtpAddr host (some dl) (some a)).map UmtpAddr.address =
      some (6, dl.addr.cells ++ (dl.portStart host).cells) := by
  simp [dlumtpGetUmtpAddr, (a.store_names _ _).address]

theorem dlumtpGetUmtpBcastAddr_dest {dl : Dludp} {port : UInt16} (hport : dl.port = port.toNat)
    {a dst bcast : UmtpAddr} (hlen : bcast.addrLen = 0)
    (h : dlumtpGetUmtpBcastAddr .little (some dl) (some a) = some dst) :
    dludpDest .little dl dst = dludpDest .little dl bcast := by
  cases h
  simp [dludpDest, hlen, UmtpAddr.store, dlumtpDecodeAddress, Dludp.portStart_little hport, hport,
    uint16_ofInt_natCast]

section

variable {host : Endian} {conf dl : Dludp} {sys : LinkSetup} {bound : SockAddr} {port : UInt16}
  (hinit : dludpInit host conf sys = (0, dl, some bound)) (hpos : port ≠ 0)
  (hport : conf.port = port.toNat)

include hinit

theorem dludpInit_bound : 0 ≤ dl.socket ∧
    dl.port = (if conf.port ≤ 0 then umtpDefaultPort else conf.port) ∧
    bound.port = Endian.big.bytes (UInt16.ofInt dl.port) := by
  simp only [dludpInit] at hinit
  generalize (if conf.port ≤ 0 then umtpDefaultPort else conf.port) = configured at hinit ⊢
  by_cases hsocket : sys.socket ≤ 0
  · simp [hsocket] at hinit
  · by_cases hopt : sys.setsockopt = 0
    · rw [if_neg hsocket, if_neg (Decidable.not_not.mpr hopt)] at hinit
      split at hinit
      case isTrue => simp at hinit
      case isFalse =>
        cases hinit
        exact ⟨by dsimp only; omega, rfl, bytes_htons host _⟩
    · simp [hsocket, hopt] at hinit

include hpos hport

theorem dludpInit_port : 0 ≤ dl.socket ∧ dl.port = port.toNat ∧
    bound.port = Endian.big.bytes port := by
  obtain ⟨hup, hdl, hbound⟩ := dludpInit_bound hinit
  have hne : port.toNat ≠ 0 := fun h => hpos (UInt16.toNat_inj.mp h)
  have hkept : dl.port = port.toNat := by
    rw [hdl, hport, if_neg (by omega)]
  have hsame : UInt16.ofInt dl.port = port := by
    rw [hkept, uint16_ofInt_natCast]
  exact ⟨hup, hkept, hsame ▸ hbound⟩

variable {inetAddr : String → Buf UInt8 4} {ip : String} (hip : inetAddr ip = dl.addr)

include hip

theorem address_form_iff :
    OneForm host inetAddr dl bound ip port ↔ host = .little ∧ SameBytes port := by
  obtain ⟨hup, hdl, hbound⟩ := dludpInit_port hinit hpos hport
  have hshort : UInt16.ofInt dl.port = port := by
    rw [hdl, uint16_ofInt_natCast]
  constructor
  · intro h
    rw [← portStart_iff hpos hdl]
    have hget := h.get UmtpAddr.zero UmtpAddr.zero
    rw [dlumtpGetUmtpAddr_address, dlumtpEncodeAddress_address, hip, Option.some.injEq,
      Prod.mk.injEq, List.append_cancel_left_eq] at hget
    exact Buf.ext hget.2
  · rintro ⟨rfl, hsame⟩
    have hbytes : Endian.little.bytes port = bound.port := by
      rw [hbound]
      exact (Endian.bytes_little_iff port).mpr hsame
    refine ⟨?_, ?_, ?_, ?_, ?_⟩
    · intro a b
      rw [dlumtpGetUmtpAddr_address, dlumtpEncodeAddress_address, hip,
        (portStart_iff hpos hdl).mpr ⟨rfl, hsame⟩]
    · intro peer src lpdu bytes len src' lpdu' b hrecv hlen
      rw [dlumtpEncodeAddress_address, hip, ← hbound]
      by_cases hdelivers : peer.Delivers .little bytes ⟨dl.addr, bound.port⟩
      · exact congrArg some (dludpRecvData_names hdelivers hrecv).address
      · obtain ⟨len', hdropped, hle⟩ := dludpRecvData_dropped src lpdu hdelivers ()
        rw [hdropped] at hrecv
        cases hrecv
        omega
    · intro peer a dst hdst
      cases hdst
      simp [dludpDest, UmtpAddr.store, dlumtpDecodeAddress, bytes_htons, hbound]
    · intro dst hlen
      simp only [dludpDest, hlen, if_true, hshort, hbytes]
    · exact fun bytes sin hsigned => Dludp.drops_self_iff hup hdl hbytes hsigned

end

def localSetup : LinkSetup := ⟨localLink.addr, localLink.broadcastAddr, 3, 0, fun _ => 0, 0⟩

def localInetAddr (_ : String) : Buf UInt8 4 := localLink.addr

theorem address_form_equal_bytes :
    OneForm .little localInetAddr { localLink with port := 0x0101 }
      ⟨Buf.fill 4 0, ⟨[1, 1], rfl⟩⟩ "10.0.0.1" 0x0101 := by
  have hinit : dludpInit .little { localLink with port := 0x0101 } localSetup =
    (0, { localLink with port := 0x0101 }, some ⟨Buf.fill 4 0, ⟨[1, 1], rfl⟩⟩) := rfl
  exact (address_form_iff hinit (by decide) rfl rfl).mpr ⟨rfl, by decide⟩

/-- The link's own idea of its address has the bytes of the port the other way round. -/
theorem address_form_default_port :
    dludpInit .little localLink localSetup =
      (0, localLink, some ⟨Buf.fill 4 0, ⟨[0x2E, 0x08], rfl⟩⟩) ∧
    (dlumtpEncodeAddress .little localInetAddr (some UmtpAddr.zero) (some "10.0.0.1") 0x2E08).2.map
      UmtpAddr.address = some (6, [10, 0, 0, 1, 0x2E, 0x08]) ∧
    (dlumtpGetUmtpAddr .little (some localLink) (some UmtpAddr.zero)).map UmtpAddr.address =
      some (6, [10, 0, 0, 1, 0x08, 0x2E]) ∧
    ¬ OneForm .little localInetAddr localLink ⟨Buf.fill 4 0, ⟨[0x2E, 0x08], rfl⟩⟩ "10.0.0.1"
      0x2E08 := by
  refine ⟨rfl, rfl, rfl, ?_⟩
  intro h
  exact absurd (h.get UmtpAddr.zero UmtpAddr.zero) (by decide)

end Umtp
