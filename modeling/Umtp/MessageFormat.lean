import Umtp.Message
import Umtp.RequestRoundTrip

/-! Complete APDUs as values, and what a node decodes from the bytes of one. -/

set_option autoImplicit false

namespace Umtp
open CheckedBuffer StateExcept

/-- Every field the header announces is there, and an error has its status. -/
structure Apdu where
  header : ApduHeader
  body : List UInt8
  wellFormed : header.WellFormed
  status : header.type = umtpPduError → body ≠ []

def Apdu.bytes (a : Apdu) : List UInt8 := a.header.bytes ++ a.body

def Apdu.npdu (a : Apdu) : List UInt8 := fttpProtocolVersion :: a.bytes

def Apdu.parse : List UInt8 → Option Apdu
  | flag :: type :: service :: rest =>
    if ht : type < umtpPduTypeMax then
      if hf : apduHasSessionId flag = true then
        match rest with
        | [] => none
        | sessionId :: body =>
          if hs : type = umtpPduError → body ≠ [] then
            some ⟨⟨flag, type, service, sessionId, 4⟩, body,
              ⟨by simp [apduHeaderLen, hf], ht, fun h => absurd hf (by simp [h])⟩, hs⟩
          else none
      else if hs : type = umtpPduError → rest ≠ [] then
        some ⟨⟨flag, type, service, 0, 3⟩, rest, ⟨by simp [apduHeaderLen, hf], ht, fun _ => rfl⟩, hs⟩
      else none
    else none
  | _ => none

theorem Apdu.ext {a b : Apdu} (hheader : a.header = b.header) (hbody : a.body = b.body) : a = b := by
  cases a
  cases b
  simp_all

theorem Apdu.bytes_length (a : Apdu) :
    a.bytes.length = a.header.decodeLen + a.body.length := by
  rw [bytes, List.length_append, ApduHeader.bytes, ApduHeader.reply_length, a.wellFormed.decodeLen]

theorem Apdu.body_prefix {a : Apdu} {apdu : Ptr} (hp : a.bytes <+: apdu.bytes) :
    a.body <+: (apdu.add a.header.decodeLen).bytes := by
  have hbytes : a.header.bytes.length = a.header.decodeLen := by
    rw [ApduHeader.bytes, ApduHeader.reply_length, a.wellFormed.decodeLen]
  exact hbytes ▸ Ptr.prefix_add hp

theorem Apdu.restLen_eq {a : Apdu} {len : UInt16} (hlen : len.toNat = a.bytes.length) :
    restLen len a.header.decodeLen = UInt32.ofNat a.body.length ∧
      handlerLen (restLen len a.header.decodeLen) = a.body.length := by
  rw [a.bytes_length] at hlen
  have hlt := len.toNat_lt
  have hle : a.header.decodeLen ≤ len.toNat := by omega
  refine ⟨?_, ?_⟩
  · rw [← UInt32.toNat_inj, restLen_toNat hle, UInt32.toNat_ofNat', Nat.mod_eq_of_lt (by omega)]
    omega
  · rw [handlerLen_restLen hle]
    omega

theorem Apdu.parse_bytes (a : Apdu) : Apdu.parse a.bytes = some a := by
  obtain ⟨⟨flag, type, service, sessionId, decodeLen⟩, body, hh, hs⟩ := a
  have ht : type < umtpPduTypeMax := hh.type
  have hl : decodeLen = apduHeaderLen flag := hh.decodeLen
  have hs' : type = umtpPduError → body ≠ [] := hs
  by_cases hf : apduHasSessionId flag = true
  · have h4 : decodeLen = 4 := by simp [hl, apduHeaderLen, hf]
    subst h4
    simp only [bytes, ApduHeader.bytes, ApduHeader.reply, hf, if_true, List.cons_append,
      List.nil_append, parse, ht, dite_true]
    rw [dif_pos hs']
  · have h3 : decodeLen = 3 := by simp [hl, apduHeaderLen, hf]
    have hid : sessionId = 0 := hh.sessionId (by simpa using hf)
    subst h3 hid
    simp only [bytes, ApduHeader.bytes, ApduHeader.reply, hf, Bool.false_eq_true, if_false,
      List.cons_append, List.nil_append, parse, ht, dite_true, dite_false]
    rw [dif_pos hs']

theorem Apdu.bytes_of_parse {bytes : List UInt8} {a : Apdu} (h : Apdu.parse bytes = some a) :
    a.bytes = bytes := by
  unfold parse at h
  split at h
  · split at h
    · split at h
      · rename_i hf
        split at h
        · cases h
        · split at h
          · cases h
            simp [Apdu.bytes, ApduHeader.bytes, ApduHeader.reply, hf]
          · cases h
      · rename_i hf
        split at h
        · cases h
          simp [Apdu.bytes, ApduHeader.bytes, ApduHeader.reply, hf]
        · cases h
    · cases h
  · cases h

theorem Apdu.parse_eq_some {bytes : List UInt8} {a : Apdu} :
    Apdu.parse bytes = some a ↔ a.bytes = bytes :=
  ⟨bytes_of_parse, fun h => h ▸ a.parse_bytes⟩

theorem Apdu.bytes_injective {a b : Apdu} (h : a.bytes = b.bytes) : a = b := by
  have ha := a.parse_bytes
  rw [h, b.parse_bytes] at ha
  exact (Option.some.inj ha).symm

theorem Apdu.npdu_injective {a b : Apdu} (h : a.npdu = b.npdu) : a = b :=
  bytes_injective (List.cons.inj h).2

def ApduData.request (d : ApduData) (id : UInt8) : Apdu where
  header := d.requestHeader id
  body := d.payload
  wellFormed := d.requestHeader_wellFormed id
  status h := absurd h (show umtpPduRequest ≠ umtpPduError by decide)

theorem ApduData.request_bytes (d : ApduData) (id : UInt8) : (d.request id).bytes = d.apdu id := by
  rw [Apdu.bytes, request, d.requestHeader_bytes, apdu]

def ApduHeader.replied (h : ApduHeader) (type : UInt8) : ApduHeader := { h with type }

theorem ApduHeader.WellFormed.replied {h : ApduHeader} (hh : h.WellFormed) {type : UInt8}
    (ht : type < umtpPduTypeMax) : (h.replied type).WellFormed :=
  ⟨hh.decodeLen, ht, hh.sessionId⟩

/-- The header of an APDU as `apdu_handler` decodes it, whatever comes after. -/
structure Decoded (apdu : Ptr) (h : ApduHeader) : Prop where
  wellFormed : h.WellFormed
  flag : apdu.get 0 = some h.flag
  type : apdu.get 1 = some h.type
  service : apdu.get 2 = some h.service
  sessionId : apduHasSessionId h.flag = true → apdu.get 3 = some h.sessionId

variable {σ : Type}

theorem readPdu_final {pdu : Ptr} {i : Nat} {b : UInt8} {w w' : World σ}
    (h : (readPdu pdu i).run w = .ok b w') : pdu.get i = some b ∧ w' = w.read (pdu.off + i) := by
  cases hget : pdu.get i with
  | none => simp [readPdu, hget] at h
  | some c =>
    simp only [readPdu, hget] at h
    cases h
    exact ⟨rfl, rfl⟩

theorem apduDecode_final {apdu : Ptr} {r : Option ApduHeader} {w w' : World σ}
    (hrun : (apduDecode apdu).run w = .ok r w') :
    (∃ reads, w' = { w with reads }) ∧ ∀ h, r = some h → Decoded apdu h := by
  obtain ⟨flag, w₁, hflag, hrun⟩ := of_bind_ok hrun
  obtain ⟨hget0, rfl⟩ := readPdu_final hflag
  obtain ⟨type, w₂, htype, hrun⟩ := of_bind_ok hrun
  obtain ⟨hget1, rfl⟩ := readPdu_final htype
  split at hrun
  · cases hrun
    exact ⟨⟨_, rfl⟩, fun h he => by cases he⟩
  · rename_i hmax
    have ht : type < umtpPduTypeMax := UInt8.not_le.mp hmax
    obtain ⟨service, w₃, hservice, hrun⟩ := of_bind_ok hrun
    obtain ⟨hget2, rfl⟩ := readPdu_final hservice
    split at hrun
    · rename_i hf
      obtain ⟨id, w₄, hid, hrun⟩ := of_bind_ok hrun
      obtain ⟨hget3, rfl⟩ := readPdu_final hid
      cases hrun
      refine ⟨⟨_, rfl⟩, ?_⟩
      rintro _ ⟨⟩
      exact ⟨⟨by simp [apduHeaderLen, hf], ht, fun h => absurd hf (by simp [h])⟩, hget0, hget1,
        hget2, fun _ => hget3⟩
    · rename_i hf
      cases hrun
      refine ⟨⟨_, rfl⟩, ?_⟩
      rintro _ ⟨⟩
      exact ⟨⟨by simp [apduHeaderLen, hf], ht, fun _ => rfl⟩, hget0, hget1, hget2,
        fun h => absurd h hf⟩

/-- Of a complete message nothing but its header is decoded. -/
theorem Decoded.unique {p : Ptr} {a : Apdu} (hp : a.npdu <+: p.bytes) {h : ApduHeader}
    (hd : Decoded (p.add 1) h) : h = a.header := by
  have hmsg : fttpProtocolVersion :: (a.header.bytes ++ a.body) <+: p.bytes := hp
  obtain ⟨h0, h1, h2, h3⟩ := apduHeader_gets a.wellFormed hmsg
  obtain ⟨⟨hl, -, hid⟩, d0, d1, d2, d3⟩ := hd
  have ha := a.wellFormed.decodeLen
  obtain ⟨flag, type, service, sessionId, decodeLen⟩ := h
  obtain ⟨⟨flag', type', service', sessionId', decodeLen'⟩, body, hh, hs⟩ := a
  simp only at h0 h1 h2 h3 d0 d1 d2 d3 hl hid ha
  rw [h0, Option.some.injEq] at d0
  rw [h1, Option.some.injEq] at d1
  rw [h2, Option.some.injEq] at d2
  subst d0 d1 d2
  rw [← ha] at hl
  subst hl
  congr 1
  by_cases hf : apduHasSessionId flag' = true
  · rw [if_pos hf, d3 hf, Option.some.injEq] at h3
    exact h3
  · rw [if_neg hf] at h3
    rw [h3]
    exact hid (by simpa using hf)

end Umtp
