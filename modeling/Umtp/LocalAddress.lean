import Umtp.Addresses

set_option autoImplicit false

namespace Umtp
open CheckedBuffer

def ifnamsiz : Nat := 16

def defaultIntf : List UInt8 := [0x65, 0x74, 0x68, 0x30]

inductive IfOpt where
  | siocgifaddr
  | siocgifnetmask
  deriving DecidableEq

/-- The calls that the addresses depend on: the socket for a query, the result of the `ioctl` with
the address that is then in `ifr_addr`, and what `inet_aton` leaves in its argument. -/
structure AddrSystem where
  socket : IfOpt → Int
  ioctl : IfOpt → List UInt8 → Int × Buf UInt8 4
  inetAton : String → Buf UInt8 4 → Buf UInt8 4

def getLocalIfrIoctl (sys : AddrSystem) (ifname : List UInt8) (opt : IfOpt) : Int × Buf UInt8 4 :=
  if sys.socket opt < 0 then (sys.socket opt, Buf.fill 4 0)
  else sys.ioctl opt (ifname.take ifnamsiz)

def getLocalAddressIoctl (sys : AddrSystem) (ifname : List UInt8) (addr : Buf UInt8 4)
    (opt : IfOpt) : Int × Buf UInt8 4 :=
  let (ret, ifr) := getLocalIfrIoctl sys ifname opt
  (ret, if 0 ≤ ret then ifr else addr)

/-- The address found stays in `local_addr`. -/
def dlumtpAddrGet (sys : AddrSystem) (ifname : Option (List UInt8)) (addr : Option (Buf UInt8 4)) :
    Int × Option (Buf UInt8 4) :=
  match ifname, addr with
  | some ifname, some addr =>
    let (ret, _localAddr) := getLocalAddressIoctl sys ifname (Buf.fill 4 0) .siocgifaddr
    (ret, some addr)
  | _, _ => (-einval, addr)

/-- `laddr | ~netmask` -/
def orNot (laddr netmask : Buf UInt8 4) : Buf UInt8 4 :=
  ⟨laddr.cells.zipWith (fun a m => a ||| ~~~m) netmask.cells, by simp⟩

def dlumtpBcastAddrGet (sys : AddrSystem) (ifname : Option (List UInt8))
    (laddr addr : Option (Buf UInt8 4)) : Int × Option (Buf UInt8 4) :=
  match ifname, laddr, addr with
  | some ifname, some laddr, some _ =>
    let (ret, netmask) := getLocalAddressIoctl sys ifname (Buf.fill 4 0) .siocgifnetmask
    if ret ≠ 0 then (ret, some (Buf.fill 4 0xFF)) else (ret, some (orNot laddr netmask))
  | _, _, _ => (-einval, addr)

structure LinkConf where
  dl : Dludp
  intf : Option (List UInt8)
  ip : Option String

def umtpDludpCreate (intf : Option (List UInt8)) (ip : Option String) (port : Int) : LinkConf where
  dl :=
    { socket := -1
      port
      addr := Buf.fill 4 0
      broadcastAddr := Buf.fill 4 0
      encrypt := none
      decrypt := none }
  intf
  ip

/-- What `dludp_init` leaves in `addr` and `broadcast_addr`. -/
def LinkConf.addresses (conf : LinkConf) (sys : AddrSystem) : Buf UInt8 4 × Buf UInt8 4 :=
  let ifname := conf.intf.getD defaultIntf
  let addr :=
    match conf.ip with
    | some ip => sys.inetAton ip conf.dl.addr
    | none => (dlumtpAddrGet sys (some ifname) (some conf.dl.addr)).2.getD conf.dl.addr
  let broadcastAddr := (dlumtpBcastAddrGet sys (some ifname) (some addr)
    (some conf.dl.broadcastAddr)).2.getD conf.dl.broadcastAddr
  (addr, broadcastAddr)

/-- What `dludp_init` gets from the system, when it asks for the addresses in this way and the
calls on its socket come back as `calls` says. -/
def LinkConf.setup (conf : LinkConf) (sys : AddrSystem) (calls : LinkSetup) : LinkSetup :=
  { calls with
    addr := (conf.addresses sys).1
    broadcastAddr := (conf.addresses sys).2 }

def AddrSystem.netmask (sys : AddrSystem) (ifname : List UInt8) : Option (Buf UInt8 4) :=
  let (ret, netmask) := getLocalIfrIoctl sys ifname .siocgifnetmask
  if ret = 0 then some netmask else none

def SameNetwork (mask a b : Buf UInt8 4) : Prop :=
  a.cells.zipWith (· &&& ·) mask.cells = b.cells.zipWith (· &&& ·) mask.cells

theorem uint8_orNot_and (a m : UInt8) : (a ||| ~~~m) &&& m = a &&& m := by
  rw [← UInt8.toBitVec_inj]
  ext i hi
  cases h : m.toBitVec[i] <;> simp [h]

theorem uint8_orNot_or (a m : UInt8) : (a ||| ~~~m) ||| m = 0xFF := by
  rw [UInt8.or_assoc, UInt8.not_or_self]
  exact UInt8.or_neg_one

theorem uint8_orNot_congr {a b m : UInt8} (h : a &&& m = b &&& m) : a ||| ~~~m = b ||| ~~~m := by
  have hbits : ∀ i (hi : i < 8),
      (a.toBitVec[i] && m.toBitVec[i]) = (b.toBitVec[i] && m.toBitVec[i]) := by
    intro i hi
    have hbit := congrArg (fun x => x.toBitVec[i]) h
    simpa using hbit
  rw [← UInt8.toBitVec_inj]
  ext i hi
  have hbit := hbits i hi
  cases hm : m.toBitVec[i] with
  | false => simp [hm]
  | true => simpa [hm] using hbit

theorem orNot_sameNetwork (a mask : Buf UInt8 4) : SameNetwork mask (orNot a mask) a := by
  apply List.ext_getElem (by simp [orNot])
  intro i h₁ h₂
  simp [orNot, uint8_orNot_and]

theorem orNot_host (a mask : Buf UInt8 4) :
    (orNot a mask).cells.zipWith (· ||| ·) mask.cells = List.replicate 4 0xFF := by
  apply List.ext_getElem (by simp [orNot])
  intro i h₁ h₂
  rw [List.getElem_replicate]
  simp [orNot, uint8_orNot_or]

theorem orNot_of_sameNetwork {mask a b : Buf UInt8 4} (h : SameNetwork mask a b) :
    orNot a mask = orNot b mask := by
  apply Buf.ext
  apply List.ext_getElem (by simp [orNot])
  intro i h₁ h₂
  have hi : i < 4 := by simpa [orNot] using h₁
  have hcell : (a.cells.zipWith (· &&& ·) mask.cells)[i]? =
      (b.cells.zipWith (· &&& ·) mask.cells)[i]? := congrArg (fun l => l[i]?) h
  rw [List.getElem?_eq_getElem (by simpa using hi), List.getElem?_eq_getElem (by simpa using hi),
    Option.some.injEq, List.getElem_zipWith, List.getElem_zipWith] at hcell
  simpa [orNot] using uint8_orNot_congr hcell

theorem LinkConf.addresses_broadcast (conf : LinkConf) (sys : AddrSystem) :
    (conf.addresses sys).2 =
      (sys.netmask (conf.intf.getD defaultIntf)).elim (Buf.fill 4 0xFF)
        (orNot (conf.addresses sys).1) := by
  rcases hquery : getLocalIfrIoctl sys (conf.intf.getD defaultIntf) .siocgifnetmask with ⟨ret, mask⟩
  by_cases hret : ret = 0
  · subst hret
    simp [addresses, dlumtpBcastAddrGet, getLocalAddressIoctl, AddrSystem.netmask, hquery]
  · simp [addresses, dlumtpBcastAddrGet, getLocalAddressIoctl, AddrSystem.netmask, hquery, hret]

theorem umtpDludpCreate_addr (intf : Option (List UInt8)) (ip : Option String) (port : Int)
    (sys : AddrSystem) :
    ((umtpDludpCreate intf ip port).addresses sys).1 =
      ip.elim (Buf.fill 4 0) fun ip => sys.inetAton ip (Buf.fill 4 0) := by
  cases ip with
  | none => rfl
  | some ip => rfl

theorem dludpInit_addresses {host : Endian} {conf dl : Dludp} {sys : LinkSetup} {bound : SockAddr}
    (hinit : dludpInit host conf sys = (0, dl, some bound)) :
    dl.addr = sys.addr ∧ dl.broadcastAddr = sys.broadcastAddr := by
  simp only [dludpInit] at hinit
  generalize (if conf.port ≤ 0 then umtpDefaultPort else conf.port) = configured at hinit
  by_cases hsocket : sys.socket ≤ 0
  · simp [hsocket] at hinit
  · by_cases hopt : sys.setsockopt = 0
    · rw [if_neg hsocket, if_neg (Decidable.not_not.mpr hopt)] at hinit
      split at hinit
      case isTrue => simp at hinit
      case isFalse =>
        cases hinit
        exact ⟨rfl, rfl⟩
    · simp [hsocket, hopt] at hinit

theorem value_big_iff (host : Endian) (port : UInt16) :
    host.value (Endian.big.bytes port) = port ↔ host = .big ∨ SameBytes port := by
  cases host with
  | big => simp [Endian.value_bytes]
  | little =>
    rw [← Endian.bytes_little_iff]
    constructor
    · intro h
      right
      rw [← Endian.bytes_value .little (Endian.big.bytes port), h]
    · rintro (h | h)
      · cases h
      · rw [← h, Endian.value_bytes]

/-- The port that the socket is bound to, as the test for the link's own messages reads it. -/
theorem bound_port_iff {host : Endian} {dl : Dludp} {bound : SockAddr} (hpos : 0 ≤ dl.port)
    (hbound : bound.port = Endian.big.bytes (UInt16.ofInt dl.port)) :
    ((host.value bound.port).toNat : Int) = dl.port ↔
      dl.port ≤ 65535 ∧ (host = .big ∨ SameBytes (UInt16.ofInt dl.port)) := by
  rw [hbound, ← value_big_iff]
  constructor
  · intro h
    have hlt := (host.value (Endian.big.bytes (UInt16.ofInt dl.port))).toNat_lt
    refine ⟨by omega, ?_⟩
    rw [← UInt16.toNat_inj, uint16_ofInt_toNat hpos (by omega)]
    omega
  · rintro ⟨hle, h⟩
    rw [h, uint16_ofInt_toNat hpos (by omega)]
    omega

/-- A link without an IP address has 0.0.0.0 for its own, so that it takes what it has sent to
everybody for messages of a peer. -/
theorem created_link_addresses {host : Endian} {sys : AddrSystem} {calls : LinkSetup}
    {intf : Option (List UInt8)} {ip : Option String} {port : Int} {dl : Dludp} {bound : SockAddr}
    (hinit : dludpInit host (umtpDludpCreate intf ip port).dl
      ((umtpDludpCreate intf ip port).setup sys calls) = (0, dl, some bound)) :
    dl.addr = (ip.elim (Buf.fill 4 0) fun ip => sys.inetAton ip (Buf.fill 4 0)) ∧
    (sys.netmask (intf.getD defaultIntf) = none → dl.broadcastAddr = Buf.fill 4 0xFF) ∧
    (∀ mask, sys.netmask (intf.getD defaultIntf) = some mask →
      SameNetwork mask dl.broadcastAddr dl.addr ∧
      dl.broadcastAddr.cells.zipWith (· ||| ·) mask.cells = List.replicate 4 0xFF ∧
      ∀ a, SameNetwork mask a dl.addr → orNot a mask = dl.broadcastAddr) ∧
    ∀ a bytes, bytes[0]? = some umtpSignature →
      (dl.Drops host bytes ⟨a, bound.port⟩ ↔
        a = dl.addr ∧ dl.port ≤ 65535 ∧ (host = .big ∨ SameBytes (UInt16.ofInt dl.port))) := by
  obtain ⟨haddr, hbcast⟩ := dludpInit_addresses hinit
  obtain ⟨hup, hport, hbound⟩ := dludpInit_bound hinit
  have haddr' : dl.addr = _ := haddr.trans (umtpDludpCreate_addr intf ip port sys)
  have hbcast' : dl.broadcastAddr = _ :=
    hbcast.trans ((umtpDludpCreate intf ip port).addresses_broadcast sys)
  rw [show ((umtpDludpCreate intf ip port).addresses sys).1 = dl.addr from haddr.symm] at hbcast'
  have hpos : 0 ≤ dl.port := by
    have hdefault : umtpDefaultPort = 11784 := rfl
    rw [hport]
    split <;> omega
  refine ⟨haddr', ?_, ?_, ?_⟩
  · intro hnone
    rw [hbcast']
    exact congrArg (fun m => Option.elim m _ _) hnone
  · intro mask hmask
    have hmasked : dl.broadcastAddr = orNot dl.addr mask := by
      rw [hbcast']
      exact congrArg (fun m => Option.elim m _ _) hmask
    rw [hmasked]
    exact ⟨orNot_sameNetwork _ _, orNot_host _ _, fun a ha => orNot_of_sameNetwork ha⟩
  · intro a bytes hsigned
    rw [Dludp.drops_iff hup hsigned, bound_port_iff hpos hbound]

def officeSystem : AddrSystem where
  socket _ := 4
  ioctl
    | .siocgifaddr, _ => (0, ⟨[10, 0, 0, 7], rfl⟩)
    | .siocgifnetmask, _ => (0, ⟨[255, 255, 255, 0], rfl⟩)
  inetAton _ a := a

/-- Created without an IP address, this link broadcasts to 0.0.0.255 and does not know itself. -/
theorem created_link_addresses_nameless :
    ∃ dl bound, dludpInit .little (umtpDludpCreate none none 0).dl
        ((umtpDludpCreate none none 0).setup officeSystem localSetup) = (0, dl, some bound) ∧
      dl.broadcastAddr = ⟨[0, 0, 0, 255], rfl⟩ ∧
      ¬ dl.Drops .little [umtpSignature] ⟨⟨[10, 0, 0, 7], rfl⟩, bound.port⟩ := by
  obtain ⟨dl, bound, hinit⟩ : ∃ dl bound, dludpInit .little (umtpDludpCreate none none 0).dl
      ((umtpDludpCreate none none 0).setup officeSystem localSetup) = (0, dl, some bound) :=
    ⟨_, _, rfl⟩
  obtain ⟨haddr, -, hmask, hdrops⟩ := created_link_addresses hinit
  obtain ⟨-, -, hbcast⟩ := hmask ⟨[255, 255, 255, 0], rfl⟩ rfl
  refine ⟨dl, bound, hinit, ?_, ?_⟩
  · rw [← hbcast dl.addr rfl, haddr]
    rfl
  · rw [hdrops _ _ rfl, haddr]
    rintro ⟨hown, -⟩
    exact absurd hown (by decide)

end Umtp
