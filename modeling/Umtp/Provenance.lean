import Umtp.Answer
import Umtp.Node
import Umtp.PacketQueue
import Umtp.SessionClock

/-! Where the calls that a node makes come from. What it sends is a request it has been asked
for, or the answer to one it has heard; a callback goes back to a message it has heard, or to
a request of its own. -/

set_option autoImplicit false

namespace Umtp
open CheckedBuffer StateExcept

variable {σ α : Type}

/-- What has come to a node: requests, with the session ids they were given, and headers that
can be decoded from what has been received, with the APDUs they are decoded from. -/
structure Inputs where
  asked : UmtpAddr → ApduData → UInt8 → Prop
  heard : UmtpAddr → ApduHeader → Ptr → UInt16 → Prop

structure Inputs.Le (I J : Inputs) : Prop where
  asked : ∀ dst d id, I.asked dst d id → J.asked dst d id
  heard : ∀ src h apdu len, I.heard src h apdu len → J.heard src h apdu len

structure Inputs.Asked (I : Inputs) (dst : UmtpAddr) (d : ApduData) (id : UInt8) : Prop where
  asked : I.asked dst d id
  inRange : d.InRange
  fits : d.Fits

/-- Wherever these bytes are stored, what is decoded from them has been heard. -/
def Inputs.Accepts (I : Inputs) (src : UmtpAddr) (npdu : List UInt8) : Prop :=
  ∀ (p : Ptr) (len : UInt16) (h : ApduHeader), npdu <+: p.bytes → len.toNat = npdu.length →
    Decoded (p.add 1) h → I.heard src h (p.add 1) (len - 1)

/-- What a node may have to say to `dst`. -/
inductive Outgoing (I : Inputs) (types : List (ServiceType σ)) (trace : List Event)
    (dst : UmtpAddr) : List UInt8 → Prop where
  | request {d : ApduData} {id : UInt8} : I.Asked dst d id → Outgoing I types trace dst (d.apdu id)
  | reply {h : ApduHeader} {apdu : Ptr} {len : UInt16} {type : UInt8} {body : List UInt8} :
      h.WellFormed → I.heard dst h apdu len → h.type = umtpPduRequest →
      AnsweredBy types trace dst h.service.toNat (apdu.add h.decodeLen) (restLen len h.decodeLen)
        type body →
      (h.reply type ++ body).length ≤ maxApdu → Outgoing I types trace dst (h.reply type ++ body)

structure Session.KeepsRequest (x : Session) (d : ApduData) (id : UInt8) : Prop where
  confirmed : d.confirmed = true
  sessionId : x.sessionId = id
  timeout : x.timeout = some .apduTimeoutHandler
  pduLen : x.pduLen.toNat = (d.apdu id).length
  pdu : d.apdu id <+: x.pdu.cells

def Inputs.Stored (I : Inputs) (x : Session) : Prop :=
  ∃ d id, I.Asked x.dest d id ∧ x.KeepsRequest d id

def Inputs.Names (I : Inputs) (h : ApduHeader) (session : Option (Fin maxUmtpSession × Session)) :
    Prop :=
  ∀ i x, session = some (i, x) →
    apduHasSessionId h.flag = true ∧ x.sessionId = h.sessionId ∧ I.Stored x

def Justified (I : Inputs) (types : List (ServiceType σ)) (trace : List Event) : Event → Prop
  | .send dst npdu => ∃ apdu, npdu = fttpProtocolVersion :: apdu ∧ Outgoing I types trace dst apdu
  | .req service src data n => ∃ h apdu len, I.heard src h apdu len ∧ h.type = umtpPduRequest ∧
      service = h.service.toNat ∧ data = apdu.add h.decodeLen ∧
      n = handlerLen (restLen len h.decodeLen)
  | .rsp service src session data n => ∃ h apdu len, I.heard src h apdu len ∧
      h.type = umtpPduResponse ∧ I.Names h session ∧ service = h.service.toNat ∧
      data = apdu.add h.decodeLen ∧ n = handlerLen (restLen len h.decodeLen)
  | .error service src status session => ∃ h apdu len b, I.heard src h apdu len ∧
      h.type = umtpPduError ∧ I.Names h session ∧ service = h.service.toNat ∧
      apdu.get h.decodeLen = some b ∧ status = (b : UInt8).toNat
  | .timeout service dst serviceId data n => ∃ d id, I.Asked dst d id ∧ d.confirmed = true ∧
      service = d.serviceByte.toNat ∧ serviceId = service ∧ d.payload <+: data.bytes ∧
      n = d.payload.length

def PacketFrom (I : Inputs) (types : List (ServiceType σ)) (trace : List Event) (p : Packet) :
    QueueName → Prop
  | .recv => I.Accepts p.addr p.message.bytes
  | .send => Outgoing I types trace p.addr p.message.bytes

structure Traced (I : Inputs) (types : List (ServiceType σ)) (w : World σ) : Prop where
  services : w.services = types
  trace : ∀ e ∈ w.trace, Justified I types w.trace e
  sessions : ∀ i, (w.sessions.session i).waiting = true ∨ (w.sessions.session i).sessionId ≠ 0 →
    I.Stored (w.sessions.session i)
  queue : ∀ m, w.mpu = some m → ∀ q, (m.queue q).Valid ∧ ∀ p ∈ (m.queue q).contents,
    p.length.toNat ≤ maxMpuData ∧ PacketFrom I types w.trace p q

abbrev Ensures (P : α → World σ → Prop) (x : Proc σ α) (w : World σ) : Prop :=
  Safely (fun _ => False) P x w

section

variable {I J : Inputs} {types : List (ServiceType σ)} {trace trace' : List Event} {w : World σ}

theorem Inputs.Le.asked' (h : I.Le J) {dst : UmtpAddr} {d : ApduData} {id : UInt8}
    (ha : I.Asked dst d id) : J.Asked dst d id := ⟨h.asked _ _ _ ha.asked, ha.inRange, ha.fits⟩

theorem Inputs.Le.stored (h : I.Le J) {x : Session} (hx : I.Stored x) : J.Stored x := by
  obtain ⟨d, id, ha, hk⟩ := hx
  exact ⟨d, id, h.asked' ha, hk⟩

theorem Inputs.Le.names (h : I.Le J) {header : ApduHeader}
    {session : Option (Fin maxUmtpSession × Session)} (hn : I.Names header session) :
    J.Names header session := by
  intro i x hx
  obtain ⟨hflag, hid, hs⟩ := hn i x hx
  exact ⟨hflag, hid, h.stored hs⟩

theorem Inputs.Le.refl (I : Inputs) : I.Le I := ⟨fun _ _ _ h => h, fun _ _ _ _ h => h⟩

theorem Outgoing.mono (hle : I.Le J) (hsub : trace ⊆ trace') {dst : UmtpAddr} {apdu : List UInt8}
    (h : Outgoing I types trace dst apdu) : Outgoing J types trace' dst apdu := by
  cases h with
  | request ha => exact .request (hle.asked' ha)
  | reply hh hheard ht hans hfit =>
    exact .reply hh (hle.heard _ _ _ _ hheard) ht (hans.mono hsub) hfit

theorem Justified.mono (hle : I.Le J) (hsub : trace ⊆ trace') {e : Event}
    (h : Justified I types trace e) : Justified J types trace' e := by
  cases e with
  | send dst npdu =>
    obtain ⟨apdu, hn, ho⟩ := h
    exact ⟨apdu, hn, ho.mono hle hsub⟩
  | req service src data n =>
    obtain ⟨header, apdu, len, hheard, hrest⟩ := h
    exact ⟨header, apdu, len, hle.heard _ _ _ _ hheard, hrest⟩
  | rsp service src session data n =>
    obtain ⟨header, apdu, len, hheard, ht, hn, hrest⟩ := h
    exact ⟨header, apdu, len, hle.heard _ _ _ _ hheard, ht, hle.names hn, hrest⟩
  | error service src status session =>
    obtain ⟨header, apdu, len, b, hheard, ht, hn, hrest⟩ := h
    exact ⟨header, apdu, len, b, hle.heard _ _ _ _ hheard, ht, hle.names hn, hrest⟩
  | timeout service dst serviceId data n =>
    obtain ⟨d, id, ha, hrest⟩ := h
    exact ⟨d, id, hle.asked' ha, hrest⟩

theorem PacketFrom.mono (hle : I.Le J) (hsub : trace ⊆ trace') {p : Packet} {q : QueueName}
    (h : PacketFrom I types trace p q) : PacketFrom J types trace' p q := by
  cases q with
  | recv => exact fun ptr len header hp hlen hd => hle.heard _ _ _ _ (h ptr len header hp hlen hd)
  | send => exact Outgoing.mono hle hsub h

theorem Traced.mono (hle : I.Le J) (h : Traced I types w) : Traced J types w where
  services := h.services
  trace e he := (h.trace e he).mono hle (List.Subset.refl _)
  sessions i hi := hle.stored (h.sessions i hi)
  queue m hm q := by
    obtain ⟨hv, hp⟩ := h.queue m hm q
    exact ⟨hv, fun p hmem => ⟨(hp p hmem).1, (hp p hmem).2.mono hle (List.Subset.refl _)⟩⟩

theorem Outgoing.length {dst : UmtpAddr} {apdu : List UInt8}
    (h : Outgoing I types trace dst apdu) : 0 < apdu.length ∧ apdu.length ≤ maxApdu := by
  cases h with
  | @request d id ha =>
    have hhead := d.headerLen_le
    have h0 := ha.inRange.1
    have hfits := ha.fits
    unfold ApduData.Fits at hfits
    rw [d.apdu_length ha.inRange]
    omega
  | @reply header apdu len type body hh hheard ht hans hfit =>
    refine ⟨?_, hfit⟩
    have hge := apduHeaderLen_ge header.flag
    rw [List.length_append, header.reply_length]
    omega

end

section

variable {I : Inputs} {types : List (ServiceType σ)} {w : World σ} (h : Traced I types w)

include h

theorem Traced.emit {es : List Event} (hes : ∀ e ∈ es, Justified I types (w.trace ++ es) e)
    (app : σ) (blk : Buf UInt8 maxApdu) (reads : List Nat) :
    Traced I types { w with app, apduTransBlk := blk, reads, trace := w.trace ++ es } where
  services := h.services
  trace e he := by
    rcases List.mem_append.mp he with he | he
    · exact (h.trace e he).mono (.refl I) (List.subset_append_left _ _)
    · exact hes e he
  sessions := h.sessions
  queue m hm q := by
    obtain ⟨hv, hp⟩ := h.queue m hm q
    exact ⟨hv, fun p hmem =>
      ⟨(hp p hmem).1, (hp p hmem).2.mono (.refl I) (List.subset_append_left _ _)⟩⟩

theorem Traced.quiet (reads : List Nat) : Traced I types { w with reads } := by
  have hnone : ∀ e ∈ ([] : List Event), Justified I types (w.trace ++ []) e := by simp
  have hsame := h.emit hnone w.app w.apduTransBlk reads
  simpa using hsame

theorem Traced.callsOut {E : Event → Prop} (hE : ∀ e, E e → Justified I types w.trace e)
    {w' : World σ} (hcalls : CallsOut E w w') : Traced I types w' := by
  obtain ⟨es, app, hes, rfl⟩ := hcalls
  exact h.emit (fun e he => (hE e (hes e he)).mono (.refl I) (List.subset_append_left _ _)) app
    w.apduTransBlk w.reads

theorem Traced.setSessions {s : SessionState}
    (hs : ∀ i, (s.session i).waiting = true ∨ (s.session i).sessionId ≠ 0 →
      I.Stored (s.session i)) : Traced I types { w with sessions := s } :=
  ⟨h.services, h.trace, hs, h.queue⟩

theorem Traced.modifySlot (i : Fin maxUmtpSession) {f : Session → Session}
    (hf : (f (w.sessions.session i)).waiting = true ∨ (f (w.sessions.session i)).sessionId ≠ 0 →
      I.Stored (f (w.sessions.session i))) : Traced I types (w.modifySlot i f) := by
  apply h.setSessions
  intro j hj
  by_cases hji : j = i
  · subst hji
    rw [SessionState.modifySlot_same] at hj ⊢
    exact hf hj
  · rw [SessionState.modifySlot_other _ hji] at hj ⊢
    exact h.sessions j hj

theorem Traced.clear (id : UInt8) :
    Traced I types { w with sessions := umtpSessionClear id w.sessions } := by
  unfold umtpSessionClear
  split
  · rename_i i hi
    exact h.modifySlot i (by simp [Session.released])
  · exact h

theorem Traced.setQueue {m : Mpu} (hm : w.mpu = some m) {q : QueueName}
    {ring : RingBuffer Packet maxPduCount} (hv : ring.Valid)
    (hp : ∀ p ∈ ring.contents, p.length.toNat ≤ maxMpuData ∧ PacketFrom I types w.trace p q) :
    Traced I types (w.setQueue q ring) where
  services := h.services
  trace := h.trace
  sessions := h.sessions
  queue m' hm' q' := by
    simp only [World.setQueue, hm, Option.map_some, Option.some.injEq] at hm'
    subst hm'
    by_cases hq : q' = q
    · subst hq
      rw [Mpu.queue_setQueue]
      exact ⟨hv, hp⟩
    · rw [Mpu.queue_setQueue_ne _ hq]
      exact h.queue m hm q'

end

end Umtp
