import Umtp.Kit.FiniteRun
import Umtp.TracedCalls

/-! Any number of nodes over a network that may lose, delay, repeat and reorder what is sent.
Their calls interleave in any order. -/

set_option autoImplicit false

namespace Umtp
open CheckedBuffer StateExcept FiniteRun

variable {ι σ : Type}

structure Site where
  umtp : Ref
  host : Endian
  link : Dludp

/-- A request that the application of `node` has submitted, with the session id it was given
(or 0). -/
structure Submission (ι : Type) where
  node : ι
  dst : UmtpAddr
  data : ApduData
  id : UInt8

structure Net (ι σ : Type) where
  world : ι → World σ
  task : ι → TaskLocals
  submitted : List (Submission ι)

inductive NodeAct where
  | submit (dst : UmtpAddr) (d : ApduData)
  | receive (now : Int) (link : Dludp) (arrival : Arrival)
  | handleQueued
  | sendQueued

/-- One call of an application, one round of `umtp_task`, or one of the two halves of a round
of `mpu_task`. -/
def NodeAct.exec (site : Site) (t : TaskLocals) : NodeAct → Proc σ (Option TaskLocals)
  | .submit dst d => do
    let _ ← umtpApduSubmit site.umtp dst (some d)
    return some t
  | .receive now link arrival => umtpTaskRound site.umtp site.host link now arrival t
  | .handleQueued => do
    mpuMsgHandle .recv _umtpHandleMsg
    return some t
  | .sendQueued => do
    mpuMsgHandle .send _umtpSendMsg
    return some t

def NodeAct.Valid : NodeAct → Prop
  | .submit _ d => d.InRange
  | _ => True

def NodeAct.submission (i : ι) (w : World σ) : NodeAct → List (Submission ι)
  | .submit dst d => [⟨i, dst, d, w.grantedId d⟩]
  | _ => []

def Net.next [DecidableEq ι] (n : Net ι σ) (i : ι) (act : NodeAct) (t : TaskLocals) (w : World σ) :
    Net ι σ where
  world := Function.update n.world i w
  task := Function.update n.task i t
  submitted := n.submitted ++ act.submission i (n.world i)

/-- A call of node `i` that comes back. `arrives` says what the network may bring to a node,
over which link. -/
def NetStep [DecidableEq ι] (site : ι → Site) (arrives : Net ι σ → ι → Dludp → Arrival → Prop)
    (n : Net ι σ) (a : ι × NodeAct) (n' : Net ι σ) : Prop :=
  a.2.Valid ∧ (∀ now link arrival, a.2 = .receive now link arrival → arrives n a.1 link arrival) ∧
    ∃ t w, (a.2.exec (site a.1) (n.task a.1)).run (n.world a.1) = .ok (some t) w ∧
      n' = n.next a.1 a.2 t w

def Net.step [DecidableEq ι] (site : ι → Site) (n : Net ι σ) (a : ι × NodeAct) : Option (Net ι σ) :=
  match (a.2.exec (site a.1) (n.task a.1)).run (n.world a.1) with
  | .ok (some t) w => some (n.next a.1 a.2 t w)
  | _ => none

theorem netStep_of_step [DecidableEq ι] {site : ι → Site}
    {arrives : Net ι σ → ι → Dludp → Arrival → Prop} {n n' : Net ι σ} {a : ι × NodeAct}
    (hv : a.2.Valid)
    (harr : ∀ now link arrival, a.2 = .receive now link arrival → arrives n a.1 link arrival)
    (h : n.step site a = some n') : NetStep site arrives n a n' := by
  unfold Net.step at h
  split at h
  · rename_i t w hrun
    cases h
    exact ⟨hv, harr, t, w, hrun, rfl⟩
  · cases h

structure Net.Started (n : Net ι σ) (types : ι → List (ServiceType σ)) : Prop where
  submitted : n.submitted = []
  services : ∀ i, (n.world i).services = types i
  trace : ∀ i, (n.world i).trace = []
  sessions : ∀ i, (n.world i).sessions = .init
  mpu : ∀ i, (n.world i).mpu = none ∨
    ∃ recvBuffer sendBuffer, (n.world i).mpu = some (mpuCreate recvBuffer sendBuffer)

def Net.Sent (n : Net ι σ) (k : ι) (dst : UmtpAddr) (npdu : List UInt8) : Prop :=
  Event.send dst npdu ∈ (n.world k).trace

/-- What the link of node `i` may get out of an arrival: a message that some node has sent.
`auth k dst i src` is what is known of a message to `dst` from node `k` when node `i` has it
from `src`. -/
def Genuine (auth : ι → UmtpAddr → ι → UmtpAddr → Prop) (n : Net ι σ) (i : ι) (host : Endian)
    (link : Dludp) (arrival : Arrival) : Prop :=
  ∀ (src : UmtpAddr) (lpdu : Buf UInt8 maxPdu) (w : World σ),
    Ensures (fun (r : Int × UmtpAddr × Buf UInt8 maxPdu) _ => 0 < r.1 →
        ∃ k dst npdu, n.Sent k dst npdu ∧ auth k dst i r.2.1 ∧ r.1 = npdu.length ∧
          npdu <+: r.2.2.cells)
      (dludpRecvData host link src lpdu maxPdu arrival) w

def Net.AnsweredAt (n : Net ι σ) (types : ι → List (ServiceType σ)) (k : ι) (src : UmtpAddr)
    (d : ApduData) (type : UInt8) (body : List UInt8) : Prop :=
  ∃ data, d.payload <+: data.bytes ∧
    AnsweredBy (types k) (n.world k).trace src d.serviceByte.toNat data
      (UInt32.ofNat d.payload.length) type body

/-- The session that goes with the reply to `s` keeps a request of the node itself that was
given the same id. -/
def Net.SessionOf (n : Net ι σ) (i : ι) (s : Submission ι)
    (session : Option (Fin maxUmtpSession × Session)) : Prop :=
  ∀ slot x, session = some (slot, x) → s.data.confirmed = true ∧
    ∃ s' ∈ n.submitted, s'.node = i ∧ s'.dst = x.dest ∧ s'.id = s.id ∧ x.KeepsRequest s'.data s'.id

structure Causal (auth : ι → UmtpAddr → ι → UmtpAddr → Prop) (types : ι → List (ServiceType σ))
    (n : Net ι σ) (i : ι) : Prop where
  req : ∀ service src data len, Event.req service src data len ∈ (n.world i).trace →
    ∃ s ∈ n.submitted, auth s.node s.dst i src ∧ service = s.data.serviceByte.toNat ∧
      len = s.data.payload.length ∧ s.data.payload <+: data.bytes
  rsp : ∀ service src session data len,
    Event.rsp service src session data len ∈ (n.world i).trace →
    ∃ s ∈ n.submitted, ∃ k dst body, auth s.node s.dst k dst ∧ auth k dst i src ∧
      n.AnsweredAt types k dst s.data umtpPduResponse body ∧ service = s.data.serviceByte.toNat ∧
      len = body.length ∧ body <+: data.bytes ∧ n.SessionOf i s session
  error : ∀ service src status session,
    Event.error service src status session ∈ (n.world i).trace →
    ∃ s ∈ n.submitted, ∃ k dst b, auth s.node s.dst k dst ∧ auth k dst i src ∧
      n.AnsweredAt types k dst s.data umtpPduError [b] ∧ service = s.data.serviceByte.toNat ∧
      status = b.toNat ∧ n.SessionOf i s session
  timeout : ∀ service dst serviceId data len,
    Event.timeout service dst serviceId data len ∈ (n.world i).trace →
    ∃ s ∈ n.submitted, s.node = i ∧ s.dst = dst ∧ s.data.confirmed = true ∧
      service = s.data.serviceByte.toNat ∧ serviceId = service ∧ len = s.data.payload.length ∧
      s.data.payload <+: data.bytes

section

variable (auth : ι → UmtpAddr → ι → UmtpAddr → Prop)

def Net.inputs (n : Net ι σ) (i : ι) : Inputs where
  asked dst d id := ⟨i, dst, d, id⟩ ∈ n.submitted
  heard src h apdu len := ∃ k dst, ∃ a : Apdu, n.Sent k dst a.npdu ∧ auth k dst i src ∧
    a.header = h ∧ a.bytes <+: apdu.bytes ∧ len.toNat = a.bytes.length

def Net.Traced (types : ι → List (ServiceType σ)) (n : Net ι σ) : Prop :=
  ∀ i, Umtp.Traced (n.inputs auth i) (types i) (n.world i)

end

def TraceGrows (w w' : World σ) : Prop := w.trace ⊆ w'.trace

instance : Std.Refl (@TraceGrows σ) := ⟨fun _ => List.Subset.refl _⟩

instance : IsTrans (World σ) TraceGrows := ⟨fun _ _ _ h₁ h₂ => List.Subset.trans h₁ h₂⟩

theorem traceGrows_of_eq {w w' : World σ} (h : w'.trace = w.trace) : TraceGrows w w' := by
  rw [TraceGrows, h]
  exact List.Subset.refl _

theorem CallsOut.traceGrows {E : Event → Prop} {w w' : World σ} (h : CallsOut E w w') :
    TraceGrows w w' := by
  obtain ⟨es, app, -, rfl⟩ := h
  exact List.subset_append_left _ _

theorem handlerFrame_traceGrows : HandlerFrame (@TraceGrows σ) where
  refl := inferInstance
  trans := inferInstance
  callsOut _ _ _ h := h.traceGrows
  reads _ _ := traceGrows_of_eq rfl
  transBlk _ _ := traceGrows_of_eq rfl
  clear _ _ := traceGrows_of_eq rfl
  send _ _ := traceGrows_of_eq rfl

theorem umtpSessionProcess_traceGrows (ms : UInt16) :
    Moves (@TraceGrows σ) (umtpSessionProcess ms) := by
  apply moves_forM
  intro i _
  constructor
  intro w
  obtain ⟨x, es, app, -, hfinal⟩ := processSlot_effect ms i w
  rw [hfinal]
  exact List.subset_append_left _ _

theorem dludpRecvData_moves {τ : Type} {R : τ → τ → Prop} [Std.Refl R] [IsTrans τ R]
    (host : Endian) (dl : Dludp) (src : UmtpAddr) (lpdu : Buf UInt8 maxPdu) (arrival : Arrival) :
    Moves R (dludpRecvData host dl src lpdu maxPdu arrival) := by
  unfold dludpRecvData
  split
  · exact moves_pure _
  · cases arrival with
    | timeout => exact moves_pure _
    | failed => exact moves_pure _
    | datagram bytes sin =>
      apply moves_bind (memcpy_moves _ _ _ _ _)
      intro pdu
      split
      · exact moves_pure _
      · split
        · exact moves_pure _
        · split
          · exact moves_pure _
          · split
            · exact moves_pure _
            · apply moves_bind
              · apply moves_bind (memcpy_moves _ _ _ _ _)
                intro addr
                exact moves_bind (memcpy_moves _ _ _ _ _) (fun _ => moves_pure _)
              · intro src'
                apply moves_bind
                · unfold dludpDeliver
                  split
                  · exact moves_bind (memcpy_moves _ _ _ _ _) (fun _ => moves_pure _)
                  · exact moves_bind (memcpy_moves _ _ _ _ _) (fun _ => moves_pure _)
                · exact fun _ => moves_pure _

/-- A relation that the handlers and a pass over the sessions respect, and that does not look at
the receive queue, is respected by a round of `umtp_task`. -/
theorem umtpTaskRound_moves {R : World σ → World σ → Prop} (hR : HandlerFrame R)
    (hrecv : ∀ w ring, R w (w.setQueue .recv ring))
    (hprocess : ∀ ms, Moves R (umtpSessionProcess ms)) (umtp : Ref) (host : Endian) (dl : Dludp)
    (now : Int) (arrival : Arrival) (t : TaskLocals) :
    Moves R (umtpTaskRound umtp host dl now arrival t) := by
  have := hR.refl
  have := hR.trans
  constructor
  intro w
  rw [umtpTaskRound_run]
  apply Moves.rel
  apply moves_bind
  · apply moves_bind (dludpRecvData_moves _ _ _ _ _)
    rintro ⟨len, src, buf⟩
    dsimp only
    split
    · exact moves_pure _
    · split
      · apply moves_bind
        · apply moves_bind moves_get
          intro w
          split
          · exact mpuPut_moves hrecv _ _ _ _
          · exact npduHandler_moves hR _ _ _ _
        · exact fun _ => moves_pure _
      · exact moves_pure _
  · intro r
    split
    · unfold umtpTaskTimers
      split
      · exact moves_bind (hprocess _) (fun _ => moves_pure _)
      · exact moves_pure _
    · exact moves_pure _

theorem NodeAct.exec_moves {R : World σ → World σ → Prop} (hR : HandlerFrame R)
    (hmpu : ∀ (w : World σ) mpu, R w { w with mpu })
    (hprocess : ∀ ms, Moves R (umtpSessionProcess ms)) {act : NodeAct}
    (hact : ∀ dst d, act ≠ .submit dst d) (site : Site) (t : TaskLocals) :
    Moves R (act.exec site t) := by
  have := hR.refl
  have := hR.trans
  cases act with
  | submit dst d => exact absurd rfl (hact dst d)
  | receive now link arrival =>
    exact umtpTaskRound_moves hR (fun w ring => hmpu w _) hprocess _ _ _ _ _ _
  | handleQueued =>
    exact moves_bind (mpuMsgHandle_moves hmpu fun _ _ => npduHandler_moves hR _ _ _ _)
      (fun _ => moves_pure _)
  | sendQueued =>
    exact moves_bind (mpuMsgHandle_moves hmpu fun _ _ =>
      (npduSend_callsOut _ _ _ _).weaken fun _ _ h => hR.callsOut _ _ _ h) (fun _ => moves_pure _)

theorem umtpApduSubmit_traceGrows {umtp : Ref} {dst : UmtpAddr} {d : ApduData} (hd : d.InRange)
    {r : Int} {w w' : World σ} (hrun : (umtpApduSubmit umtp dst (some d)).run w = .ok r w') :
    TraceGrows w w' := by
  by_cases hu : umtp = 0
  · subst hu
    cases hrun
    exact refl_of TraceGrows w
  · obtain ⟨hg, hfits⟩ := umtpApduSubmit_ok hu hd hrun
    obtain ⟨s, -, tmp, -, hsubmit⟩ := umtpApduSubmit_stored hu dst hg hd hfits
    rw [hsubmit] at hrun
    have hgrows : TraceGrows { w with sessions := s } w' :=
      (_umtpApduSubmit_moves (fun _ _ h => h.traceGrows) (fun _ _ => traceGrows_of_eq rfl) umtp
        dst _ _).of_ok hrun
    exact hgrows

theorem NodeAct.exec_traceGrows {site : Site} {t t' : TaskLocals} {act : NodeAct} (hv : act.Valid)
    {w w' : World σ} (hrun : (act.exec site t).run w = .ok (some t') w') : TraceGrows w w' := by
  by_cases hact : ∃ dst d, act = .submit dst d
  · obtain ⟨dst, d, rfl⟩ := hact
    obtain ⟨r, u, hsubmit, hret⟩ := of_bind_ok hrun
    cases hret
    exact umtpApduSubmit_traceGrows hv hsubmit
  · exact (NodeAct.exec_moves handlerFrame_traceGrows (fun _ _ => traceGrows_of_eq rfl)
      umtpSessionProcess_traceGrows (fun dst d h => hact ⟨dst, d, h⟩) site t).of_ok hrun

section

variable {auth : ι → UmtpAddr → ι → UmtpAddr → Prop} {n n' : Net ι σ}

theorem Net.inputs_le (hsubmitted : n.submitted ⊆ n'.submitted)
    (htrace : ∀ k, TraceGrows (n.world k) (n'.world k)) (i : ι) :
    (n.inputs auth i).Le (n'.inputs auth i) where
  asked _ _ _ h := hsubmitted h
  heard := by
    rintro src h apdu len ⟨k, dst, a, hsent, hrest⟩
    exact ⟨k, dst, a, htrace k hsent, hrest⟩

theorem Net.next_grows [DecidableEq ι] {i : ι} {act : NodeAct} {t : TaskLocals} {w : World σ}
    (h : TraceGrows (n.world i) w) (k : ι) :
    TraceGrows (n.world k) ((n.next i act t w).world k) := by
  by_cases hk : k = i
  · subst hk
    simpa [Net.next] using h
  · simp only [Net.next, Function.update_of_ne hk]
    exact refl_of TraceGrows _

/-- What a link gets out of an arrival, when all that is decoded from it counts as heard. -/
def Inputs.Receives (I : Inputs) (site : Site) (link : Dludp) (arrival : Arrival) (t : TaskLocals)
    (w : World σ) : Prop :=
  Ensures (fun r u => w = u ∧ (0 < r.1 → r.1 ≤ (maxPdu : Int) ∧
      I.Accepts r.2.1 (r.2.2.cells.take r.1.toNat)))
    (dludpRecvData site.host link t.src t.buf maxPdu arrival) w

theorem NodeAct.exec_traced {I : Inputs} {types : List (ServiceType σ)} {site : Site}
    {t : TaskLocals} {act : NodeAct} {w : World σ} (h : Umtp.Traced I types w) (hv : act.Valid)
    (hasked : ∀ dst d, act = .submit dst d → I.asked dst d (w.grantedId d))
    (hrecv : ∀ now link arrival, act = .receive now link arrival →
      I.Receives site link arrival t w) :
    Ensures (fun _ => Umtp.Traced I types) (act.exec site t) w := by
  cases act with
  | submit dst d =>
    exact (umtpApduSubmit_traced h hv (hasked dst d rfl)).bind fun _ _ hu => safely_pure hu
  | receive now link arrival => exact umtpTaskRound_traced h (hrecv now link arrival rfl)
  | handleQueued => exact (recvQueued_traced h).bind fun _ _ hu => safely_pure hu
  | sendQueued => exact (sendQueued_traced h).bind fun _ _ hu => safely_pure hu

theorem Net.next_traced [DecidableEq ι] {types : ι → List (ServiceType σ)} {site : ι → Site}
    (I : ι → Inputs) {J : ι → Inputs} (h : ∀ k, Umtp.Traced (I k) (types k) (n.world k))
    (hle : ∀ k, (I k).Le (J k)) {i : ι} {act : NodeAct} (hv : act.Valid)
    (hasked : ∀ dst d, act = .submit dst d → (J i).asked dst d ((n.world i).grantedId d))
    (hrecv : ∀ now link arrival, act = .receive now link arrival →
      (J i).Receives (site i) link arrival (n.task i) (n.world i))
    {t : TaskLocals} {w : World σ}
    (hrun : (act.exec (site i) (n.task i)).run (n.world i) = .ok (some t) w) (k : ι) :
    Umtp.Traced (J k) (types k) ((n.next i act t w).world k) := by
  by_cases hk : k = i
  · subst hk
    have hw := (NodeAct.exec_traced ((h k).mono (hle k)) hv hasked hrecv).post _ _ hrun
    simpa [Net.next] using hw
  · have hw := (h k).mono (hle k)
    simpa [Net.next, Function.update_of_ne hk] using hw

theorem Outgoing.complete {I : Inputs} {types : List (ServiceType σ)} {trace : List Event}
    {dst : UmtpAddr} {apdu : List UInt8} (h : Outgoing I types trace dst apdu) :
    ∃ a : Apdu, a.bytes = apdu ∧ a.bytes.length ≤ maxApdu ∧
      ((∃ d id, I.Asked dst d id ∧ a = d.request id) ∨
        ∃ h apdu len, I.heard dst h apdu len ∧ h.type = umtpPduRequest ∧
          a.header.type ≠ umtpPduRequest ∧ a.header = h.replied a.header.type ∧
          AnsweredBy types trace dst h.service.toNat (apdu.add h.decodeLen)
            (restLen len h.decodeLen) a.header.type a.body) := by
  have hlen := h.length.2
  cases h with
  | @request d id ha =>
    exact ⟨d.request id, d.request_bytes id, by rw [d.request_bytes]; exact hlen,
      .inl ⟨d, id, ha, rfl⟩⟩
  | @reply h apdu len type body hh hheard ht hans hfit =>
    have hstatus : (h.replied type).type = umtpPduError → body ≠ [] := by
      intro he hnil
      have hone := hans.error he
      rw [hnil] at hone
      cases hone
    exact ⟨⟨h.replied type, body, hh.replied hans.type_lt, hstatus⟩, rfl, hfit,
      .inr ⟨h, apdu, len, hheard, ht, hans.type_ne, rfl, hans⟩⟩

variable {types : ι → List (ServiceType σ)}

theorem Net.Traced.sent (h : n.Traced auth types) {k : ι} {dst : UmtpAddr} {npdu : List UInt8}
    (hsent : n.Sent k dst npdu) :
    ∃ a : Apdu, a.npdu = npdu ∧ a.bytes.length ≤ maxApdu ∧
      ((∃ d id, (n.inputs auth k).Asked dst d id ∧ a = d.request id) ∨
        ∃ h apdu len, (n.inputs auth k).heard dst h apdu len ∧ h.type = umtpPduRequest ∧
          a.header.type ≠ umtpPduRequest ∧ a.header = h.replied a.header.type ∧
          AnsweredBy (types k) (n.world k).trace dst h.service.toNat (apdu.add h.decodeLen)
            (restLen len h.decodeLen) a.header.type a.body) := by
  obtain ⟨apdu, rfl, ho⟩ := (h k).trace _ hsent
  obtain ⟨a, rfl, hrest⟩ := ho.complete
  exact ⟨a, rfl, hrest⟩

theorem Net.Traced.accepts (h : n.Traced auth types) {i k : ι} {dst src : UmtpAddr}
    {npdu : List UInt8} (hsent : n.Sent k dst npdu) (hauth : auth k dst i src) :
    (n.inputs auth i).Accepts src npdu := by
  obtain ⟨a, rfl, -, -⟩ := h.sent hsent
  intro p len header hp hlen hd
  have hcons : [fttpProtocolVersion] ++ a.bytes <+: p.bytes := hp
  have hcount : len.toNat = a.bytes.length + 1 := hlen
  refine ⟨k, dst, a, hsent, hauth, (hd.unique hp).symm, Ptr.prefix_add hcons, ?_⟩
  rw [pduLen_sub_one (by omega)]
  omega

theorem Genuine.ensures (h : n.Traced auth types) {i : ι} {host : Endian} {link : Dludp}
    {arrival : Arrival} (hg : Genuine auth n i host link arrival) (t : TaskLocals) (w : World σ) :
    Ensures (fun r u => w = u ∧ (0 < r.1 → r.1 ≤ (maxPdu : Int) ∧
      (n.inputs auth i).Accepts r.2.1 (r.2.2.cells.take r.1.toNat)))
      (dludpRecvData host link t.src t.buf maxPdu arrival) w := by
  have hsame : Moves (fun w u : World σ => w = u)
      (dludpRecvData host link t.src t.buf maxPdu arrival) := by
    have : Std.Refl (fun w u : World σ => w = u) := ⟨fun _ => rfl⟩
    have : IsTrans (World σ) (fun w u => w = u) := ⟨fun _ _ _ h₁ h₂ => h₁.trans h₂⟩
    exact dludpRecvData_moves _ _ _ _ _
  refine ((hg t.src t.buf w).moves hsame).weaken fun r u hr => ⟨hr.2, fun hpos => ?_⟩
  obtain ⟨k, dst, npdu, hsent, hauth, hlen, hp⟩ := hr.1 hpos
  have hcount : r.1.toNat = npdu.length := by omega
  have hmax : maxPdu = 2049 := rfl
  have hbound := hp.length_le
  rw [Buf.length_cells] at hbound
  rw [hcount, ← List.prefix_iff_eq_take.mp hp]
  exact ⟨by omega, h.accepts hsent hauth⟩

theorem netStep_traced [DecidableEq ι] {site : ι → Site}
    {arrives : Net ι σ → ι → Dludp → Arrival → Prop}
    (harrives : ∀ n i link arrival, n.Traced auth types → arrives n i link arrival →
      Genuine auth n i (site i).host link arrival) {a : ι × NodeAct}
    (h : n.Traced auth types) (hstep : NetStep site arrives n a n') : n'.Traced auth types := by
  obtain ⟨i, act⟩ := a
  obtain ⟨hv, harr, t, w, hrun, rfl⟩ := hstep
  have hle : ∀ k, (n.inputs auth k).Le ((n.next i act t w).inputs auth k) :=
    Net.inputs_le (List.subset_append_left _ _) (Net.next_grows (NodeAct.exec_traceGrows hv hrun))
  apply Net.next_traced (fun k => n.inputs auth k) h hle hv
  · rintro dst d rfl
    exact List.mem_append_right _ (List.mem_singleton.mpr rfl)
  · intro now link arrival hact
    apply ((harrives n i link arrival h (harr _ _ _ hact)).ensures h (n.task i) _).weaken
    rintro r u ⟨hu, hr⟩
    refine ⟨hu, fun hpos => ⟨(hr hpos).1, ?_⟩⟩
    intro p len header hp hlen hd
    exact (hle i).heard _ _ _ _ ((hr hpos).2 p len header hp hlen hd)
  · exact hrun

theorem Net.Started.traced (h : n.Started types) (I : Inputs) (i : ι) :
    Umtp.Traced I (types i) (n.world i) := by
  refine ⟨h.services i, ?_, ?_, ?_⟩
  · rw [h.trace i]
    simp
  · rw [h.sessions i]
    rintro j (hj | hj)
    · simp [SessionState.init, Session.zero] at hj
    · exact absurd rfl hj
  · intro m hm q
    rcases h.mpu i with hnone | ⟨recvBuffer, sendBuffer, hmpu⟩
    · rw [hnone] at hm
      cases hm
    · rw [hmpu] at hm
      cases hm
      refine ⟨mpuCreate_valid _ _ _, ?_⟩
      rw [mpuCreate_contents]
      simp

theorem netRun_traced [DecidableEq ι] {site : ι → Site}
    {arrives : Net ι σ → ι → Dludp → Arrival → Prop}
    (harrives : ∀ n i link arrival, n.Traced auth types → arrives n i link arrival →
      Genuine auth n i (site i).host link arrival) {n₀ : Net ι σ} (h₀ : n₀.Started types)
    {acts : List (ι × NodeAct)} (hr : Run (NetStep site arrives) n₀ acts n) :
    n.Traced auth types :=
  hr.invariant (fun n => n.Traced auth types) (fun _ _ _ h hstep => netStep_traced harrives h hstep)
    (fun i => h₀.traced _ i)

theorem Net.Traced.request (h : n.Traced auth types) {i : ι} {src : UmtpAddr} {header : ApduHeader}
    {apdu : Ptr} {len : UInt16} (hheard : (n.inputs auth i).heard src header apdu len)
    (ht : header.type = umtpPduRequest) :
    ∃ s ∈ n.submitted, auth s.node s.dst i src ∧ header = s.data.requestHeader s.id ∧
      s.data.payload <+: (apdu.add header.decodeLen).bytes ∧
      restLen len header.decodeLen = UInt32.ofNat s.data.payload.length ∧
      handlerLen (restLen len header.decodeLen) = s.data.payload.length := by
  obtain ⟨k, dst, a, hsent, hauth, rfl, hp, hlen⟩ := hheard
  obtain ⟨a', hnpdu, -, hcase⟩ := h.sent hsent
  obtain rfl := Apdu.npdu_injective hnpdu
  rcases hcase with ⟨d, id, ha, rfl⟩ | ⟨-, -, -, -, -, hne, -⟩
  · exact ⟨⟨k, dst, d, id⟩, ha.asked, hauth, rfl, Apdu.body_prefix hp, Apdu.restLen_eq hlen⟩
  · exact absurd ht hne

/-- A reply that is heard answers a request that has been submitted. -/
theorem Net.Traced.reply (h : n.Traced auth types) {i : ι} {src : UmtpAddr} {header : ApduHeader}
    {apdu : Ptr} {len : UInt16} (hheard : (n.inputs auth i).heard src header apdu len)
    (ht : header.type ≠ umtpPduRequest) :
    ∃ s ∈ n.submitted, ∃ k dst body, auth s.node s.dst k dst ∧ auth k dst i src ∧
      n.AnsweredAt types k dst s.data header.type body ∧
      header = (s.data.requestHeader s.id).replied header.type ∧
      body <+: (apdu.add header.decodeLen).bytes ∧
      handlerLen (restLen len header.decodeLen) = body.length := by
  obtain ⟨k, dst, a, hsent, hauth, rfl, hp, hlen⟩ := hheard
  obtain ⟨a', hnpdu, -, hcase⟩ := h.sent hsent
  obtain rfl := Apdu.npdu_injective hnpdu
  rcases hcase with ⟨d, id, -, rfl⟩ | ⟨header, apdu', len', hheard', ht', -, hreplied, hans⟩
  · exact absurd rfl ht
  · obtain ⟨s, hs, hauth', rfl, hpayload, hrest, -⟩ := h.request hheard' ht'
    rw [hrest] at hans
    exact ⟨s, hs, k, dst, a'.body, hauth', hauth, ⟨_, hpayload, hans⟩, hreplied, Apdu.body_prefix hp,
      (Apdu.restLen_eq hlen).2⟩

theorem Net.sessionOf {i : ι} {s : Submission ι} {header : ApduHeader} {type : UInt8}
    (hheader : header = (s.data.requestHeader s.id).replied type)
    {session : Option (Fin maxUmtpSession × Session)}
    (hnames : (n.inputs auth i).Names header session) : n.SessionOf i s session := by
  intro slot x hx
  obtain ⟨hflag, hid, d, id, ha, hk⟩ := hnames slot x hx
  subst hheader
  have hc : s.data.confirmed = true := s.data.apduHasSessionId_flag.symm.trans hflag
  have hsame : x.sessionId = s.id := by
    rw [hid]
    simp [ApduHeader.replied, ApduData.requestHeader, hc]
  exact ⟨hc, ⟨i, x.dest, d, id⟩, ha.asked, rfl, rfl, hk.sessionId.symm.trans hsame, hk⟩

theorem Net.Traced.causal (h : n.Traced auth types) (i : ι) : Causal auth types n i where
  req service src data len he := by
    obtain ⟨header, apdu, pduLen, hheard, ht, rfl, rfl, rfl⟩ := (h i).trace _ he
    obtain ⟨s, hs, hauth, rfl, hpayload, -, hlen⟩ := h.request hheard ht
    exact ⟨s, hs, hauth, rfl, hlen, hpayload⟩
  rsp service src session data len he := by
    obtain ⟨header, apdu, pduLen, hheard, ht, hnames, rfl, rfl, rfl⟩ := (h i).trace _ he
    have hne : header.type ≠ umtpPduRequest := by
      rw [ht]
      decide
    obtain ⟨s, hs, k, dst, body, hauth, hauth', hans, hheader, hbody, hlen⟩ := h.reply hheard hne
    rw [ht] at hans
    refine ⟨s, hs, k, dst, body, hauth, hauth', hans, ?_, hlen, hbody, Net.sessionOf hheader hnames⟩
    rw [hheader]
    rfl
  error service src status session he := by
    obtain ⟨header, apdu, pduLen, b, hheard, ht, hnames, rfl, hget, rfl⟩ := (h i).trace _ he
    have hne : header.type ≠ umtpPduRequest := by
      rw [ht]
      decide
    obtain ⟨s, hs, k, dst, body, hauth, hauth', hans, hheader, hbody, -⟩ := h.reply hheard hne
    rw [ht] at hans
    have hone : body = [b] := by
      obtain ⟨data, hdata, hans⟩ := hans
      obtain ⟨c, rfl⟩ := List.length_eq_one_iff.mp (hans.error rfl)
      have hfirst : (apdu.add header.decodeLen).get 0 = some c := Ptr.get_of_prefix hbody rfl
      rw [Ptr.add_get, Nat.add_zero, hget, Option.some.injEq] at hfirst
      rw [hfirst]
    rw [hone] at hans
    refine ⟨s, hs, k, dst, b, hauth, hauth', hans, ?_, rfl, Net.sessionOf hheader hnames⟩
    rw [hheader]
    rfl
  timeout service dst serviceId data len he := by
    obtain ⟨d, id, ha, hc, hservice, hid, hdata, hlen⟩ := (h i).trace _ he
    exact ⟨⟨i, dst, d, id⟩, ha.asked, rfl, rfl, hc, hservice, hid, hlen, hdata⟩

end

theorem genuine_of_nonpos {auth : ι → UmtpAddr → ι → UmtpAddr → Prop} {n : Net ι σ} {i : ι}
    {host : Endian} {link : Dludp} {arrival : Arrival}
    (h : ∀ (src : UmtpAddr) (lpdu : Buf UInt8 maxPdu) (w : World σ), ∃ len,
      (dludpRecvData host link src lpdu maxPdu arrival).run w = .ok (len, src, lpdu) w ∧ len ≤ 0) :
    Genuine auth n i host link arrival := by
  intro src lpdu w
  obtain ⟨len, hrun, hle⟩ := h src lpdu w
  exact safely_of_ok hrun fun hpos => absurd hpos (Int.not_lt.mpr hle)

theorem dludpRecvData_quiet (host : Endian) (link : Dludp) {arrival : Arrival}
    (h : ∀ bytes sin, arrival ≠ .datagram bytes sin) (src : UmtpAddr) (lpdu : Buf UInt8 maxPdu)
    (w : World σ) : ∃ len, (dludpRecvData host link src lpdu maxPdu arrival).run w =
      .ok (len, src, lpdu) w ∧ len ≤ 0 := by
  by_cases hup : link.socket < 0
  · exact ⟨-einval, by simp [dludpRecvData, hup], by decide⟩
  · cases arrival with
    | timeout => exact ⟨-etimedout, by simp [dludpRecvData, hup], by decide⟩
    | failed => exact ⟨0, by simp [dludpRecvData, hup], Int.le_refl 0⟩
    | datagram bytes sin => exact absurd rfl (h bytes sin)

end Umtp
