import Umtp.Receive
import Umtp.Reply

set_option autoImplicit false

namespace Umtp
open CheckedBuffer StateExcept

variable {σ : Type}

theorem Ptr.get_of_prefix {p : Ptr} {xs : List UInt8} (h : xs <+: p.bytes) {i : Nat} {b : UInt8}
    (hb : xs[i]? = some b) : p.get i = some b := by
  obtain ⟨ys, hys⟩ := h
  have hi := (List.getElem?_eq_some_iff.mp hb).1
  rw [Ptr.get, ← List.getElem?_drop]
  change p.bytes[i]? = some b
  rw [← hys, List.getElem?_append_left hi, hb]

theorem Ptr.prefix_add {p : Ptr} {xs ys : List UInt8} (h : xs ++ ys <+: p.bytes) :
    ys <+: (p.add xs.length).bytes := by
  obtain ⟨zs, hzs⟩ := h
  rw [Ptr.add_bytes, ← hzs, List.append_assoc, List.drop_left]
  exact List.prefix_append ys zs

/-- The header of a message says nothing twice. -/
structure ApduHeader.WellFormed (h : ApduHeader) : Prop where
  decodeLen : h.decodeLen = apduHeaderLen h.flag
  type : h.type < umtpPduTypeMax
  sessionId : apduHasSessionId h.flag = false → h.sessionId = 0

def ApduHeader.bytes (h : ApduHeader) : List UInt8 := h.reply h.type

def World.received (w : World σ) (p : Ptr) (h : ApduHeader) : World σ :=
  ((w.read p.off).read p.off).readFirst (p.add 1) h.decodeLen

section

variable (w : World σ) (p : Ptr) (h : ApduHeader)

@[simp] theorem World.received_sessions : (w.received p h).sessions = w.sessions := rfl

@[simp] theorem World.received_services : (w.received p h).services = w.services := rfl

@[simp] theorem World.received_app : (w.received p h).app = w.app := rfl

@[simp] theorem World.received_trace : (w.received p h).trace = w.trace := rfl

end

section

variable {umtp : Ref} (hu : umtp ≠ 0) {p : Ptr} {h : ApduHeader} (hh : h.WellFormed)
  {body : List UInt8} (hp : fttpProtocolVersion :: (h.bytes ++ body) <+: p.bytes) {len : UInt16}
  (hlen : len.toNat = 1 + h.decodeLen + body.length)

include hh hp

theorem apduHeader_gets :
    (p.add 1).get 0 = some h.flag ∧ (p.add 1).get 1 = some h.type ∧
      (p.add 1).get 2 = some h.service ∧
      if apduHasSessionId h.flag then (p.add 1).get 3 = some h.sessionId else h.sessionId = 0 := by
  have hcons : [fttpProtocolVersion] ++ (h.bytes ++ body) <+: p.bytes := hp
  have hapdu : h.bytes ++ body <+: (p.add 1).bytes := Ptr.prefix_add hcons
  refine ⟨Ptr.get_of_prefix hapdu rfl, Ptr.get_of_prefix hapdu rfl, Ptr.get_of_prefix hapdu rfl, ?_⟩
  split
  · rename_i hflag
    apply Ptr.get_of_prefix hapdu
    simp [ApduHeader.bytes, ApduHeader.reply, hflag]
  · rename_i hflag
    exact hh.sessionId (by simpa using hflag)

include hu hlen

theorem npduHandler_message (src : UmtpAddr) (w : World σ) :
    (npduHandler umtp src p len).run w =
      (apduSwitch umtp src (p.add 1) (len - 1) h).run (w.received p h) := by
  obtain ⟨h0, h1, h2, h3⟩ := apduHeader_gets hh hp
  have hversion : p.get 0 = some fttpProtocolVersion := Ptr.get_of_prefix hp rfl
  have hge := apduHeaderLen_ge h.flag
  have hlong : 1 < len.toNat := by
    rw [hlen, hh.decodeLen]
    omega
  rw [npduHandler_apdu hu hversion hlong, apduHandler_known hu h0 h1 h2 hh.type h3, World.received,
    hh.decodeLen, ← hh.decodeLen]

omit hu

theorem message_payload :
    body <+: ((p.add 1).add h.decodeLen).bytes ∧
      (restLen (len - 1) h.decodeLen).toNat = body.length ∧
      handlerLen (restLen (len - 1) h.decodeLen) = body.length := by
  have hge := apduHeaderLen_ge h.flag
  have hlt := len.toNat_lt
  have hsub := pduLen_sub_one (show 1 ≤ len.toNat by omega)
  have hrest : (restLen (len - 1) h.decodeLen).toNat = body.length := by
    rw [restLen_toNat (by omega), hsub]
    omega
  have hbytes : h.bytes.length = h.decodeLen := by
    rw [ApduHeader.bytes, h.reply_length, hh.decodeLen]
  refine ⟨?_, hrest, ?_⟩
  · have hcons : [fttpProtocolVersion] ++ (h.bytes ++ body) <+: p.bytes := hp
    exact hbytes ▸ Ptr.prefix_add (Ptr.prefix_add hcons)
  · rw [handlerLen_of_lt (by omega), hrest]

theorem message_status {status : UInt8} (hb : body[0]? = some status) :
    (p.add 1).get h.decodeLen = some status := by
  have hfirst := Ptr.get_of_prefix (message_payload hh hp hlen).1 hb
  rwa [Ptr.add_get, Nat.add_zero] at hfirst

end

end Umtp
