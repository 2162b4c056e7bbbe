import Umtp.Correlation
import Umtp.SlotPass

/-! How often a confirmed request is answered for: by a response, an error or a timeout. -/

set_option autoImplicit false

namespace Umtp
open CheckedBuffer StateExcept FiniteRun

variable {σ : Type}

/-- `deliver k` is the arrival of a reply to the request at position `k`, from wherever and
however late. -/
inductive ClientCall where
  | submit (dst : UmtpAddr) (d : ApduData)
  | process (milliseconds : UInt16)
  | deliver (k : Nat) (h : ApduHeader) (body : List UInt8) (src : UmtpAddr) (npdu : Ptr)
      (len : UInt16)

def ClientCall.node : ClientCall → NodeCall
  | .submit dst d => .submit dst d
  | .process milliseconds => .process milliseconds
  | .deliver _ _ _ src npdu len => .handle src npdu len

def ClientCall.Valid (c : Client σ) : ClientCall → Prop
  | .submit _ d => d.confirmed = true
  | .process _ => True
  | .deliver k h body _ npdu len =>
    (∃ req, c.requests[k]? = some req ∧ h.RepliesTo req) ∧
      fttpProtocolVersion :: (h.bytes ++ body) <+: npdu.bytes ∧
      len.toNat = 1 + h.decodeLen + body.length ∧ (h.type = umtpPduError → body ≠ [])

def ClientCall.answered : ClientCall → Option Nat
  | .deliver k _ _ _ _ _ => some k
  | _ => none

def Event.IsReply : Event → Bool
  | .rsp .. => true
  | .error .. => true
  | _ => false

/-- The callback is made on account of request `r`: it is told of the slot of `r`, or it is
made for a reply to `r`. -/
def Client.OnAccount (c : Client σ) (call : ClientCall) (r : Nat) (e : Event) : Bool :=
  e.slot.bind c.owner = some r || (e.IsReply && call.answered = some r)

def newEvents (w w' : World σ) : List Event := w'.trace.drop w.trace.length

/-- A client, and how many callbacks there have been on account of each request. -/
structure Ledger (σ : Type) where
  client : Client σ
  callbacks : Nat → Nat

def Ledger.start (w : World σ) : Ledger σ := ⟨Client.start w, fun _ => 0⟩

def Ledger.made (a : Ledger σ) (call : ClientCall) (w' : World σ) (r : Nat) : Nat :=
  (newEvents a.client.world w').countP (a.client.OnAccount call r)

def LedgerStep (umtp : Ref) (a : Ledger σ) (call : ClientCall) (a' : Ledger σ) : Prop :=
  call.Valid a.client ∧ ClientStep umtp a.client call.node a'.client ∧
    a'.callbacks = fun r => a.callbacks r + a.made call a'.client.world r

/-- Exactly one callback when a request loses its slot, and one in all. -/
structure CompletesOnce (a : Ledger σ) (call : ClientCall) (a' : Ledger σ) : Prop where
  released : ∀ i r, a.client.owner i = some r → a'.client.owner i ≠ some r →
    a.made call a'.client.world r = 1
  once : ∀ r, a'.callbacks r ≤ 1

def CallsHandler (types : List (ServiceType σ)) (h : ApduHeader) (body : List UInt8) : Prop :=
  (serviceTypeGet types h.service.toNat).isSome ∧
    (h.type = umtpPduResponse ∧ body ≠ [] ∨ h.type = umtpPduError)

/-- A request that is given up has a service, a reply that goes to a handler answers a
request that still waits, and one that goes to none has an id that no request waits for. -/
def ClientCall.Good (c : Client σ) : ClientCall → Prop
  | .submit _ _ => True
  | .process milliseconds => ∀ i r req, c.owner i = some r → c.requests[r]? = some req →
      c.world.RunsOut milliseconds i →
      (serviceTypeGet c.world.services req.service.toNat).isSome
  | .deliver k h body _ _ _ =>
    (CallsHandler c.world.services h body → ∃ i, c.owner i = some k) ∧
      (¬ CallsHandler c.world.services h body →
        ∀ i r, c.owner i = some r → (c.world.sessions.session i).sessionId ≠ h.sessionId)

def Handled (types : List (ServiceType σ)) : Prop :=
  ∀ type ∈ types, type.rspHandler.isSome ∧ type.errorHandler.isSome ∧ type.timeoutHandler.isSome

structure Ledger.Inv (a : Ledger σ) : Prop where
  client : a.client.Inv
  handled : Handled a.client.world.services
  waiting : ∀ i r, a.client.owner i = some r → a.callbacks r = 0
  completed : ∀ r, r < a.client.requests.length → (∀ i, a.client.owner i ≠ some r) →
    a.callbacks r = 1
  future : ∀ r, a.client.requests.length ≤ r → a.callbacks r = 0

theorem Ledger.start_inv {w : World σ} (h : w.sessions = .init) (hs : Handled w.services) :
    (Ledger.start w).Inv where
  client := Client.start_inv h
  handled := hs
  waiting _ _ _ := rfl
  completed _ h := absurd h (Nat.not_lt_zero _)
  future _ _ := rfl

theorem Ledger.Inv.le_one {a : Ledger σ} (ha : a.Inv) (r : Nat) : a.callbacks r ≤ 1 := by
  by_cases hr : r < a.client.requests.length
  · by_cases hopen : ∃ i, a.client.owner i = some r
    · obtain ⟨i, hi⟩ := hopen
      rw [ha.waiting i r hi]
      omega
    · rw [ha.completed r hr (not_exists.mp hopen)]
  · rw [ha.future r (Nat.le_of_not_lt hr)]
    omega

theorem Client.Inv.owner_unique {c : Client σ} (hc : c.Inv) {i j : Fin maxUmtpSession} {r : Nat}
    (hi : c.owner i = some r) (hj : c.owner j = some r) : i = j := by
  obtain ⟨req, hr, hheld⟩ := hc.held i r hi
  obtain ⟨req', hr', hheld'⟩ := hc.held j r hj
  rw [hr] at hr'
  cases hr'
  apply hc.table.unique i j (hc.table.owned i hheld.waiting)
  rw [hheld.sessionId, hheld'.sessionId]

theorem Client.Inv.owner_lt {c : Client σ} (hc : c.Inv) {i : Fin maxUmtpSession} {r : Nat}
    (hi : c.owner i = some r) : r < c.requests.length := by
  obtain ⟨req, hr, -⟩ := hc.held i r hi
  exact (List.getElem?_eq_some_iff.mp hr).1

/-- Slots may be lost, but none changes hands; callbacks are for requests that lose their
slots, and they come once. -/
structure Settles (a : Ledger σ) (call : ClientCall) (a' : Ledger σ) : Prop where
  requests : a'.client.requests = a.client.requests
  owner : ∀ i r, a'.client.owner i = some r → a.client.owner i = some r
  released : ∀ i r, a.client.owner i = some r → a'.client.owner i ≠ some r →
    a.made call a'.client.world r = 1
  kept : ∀ r, (∀ i, a.client.owner i = some r → a'.client.owner i = some r) →
    a.made call a'.client.world r = 0

theorem Settles.completesOnce {umtp : Ref} {a a' : Ledger σ} {call : ClientCall} (ha : a.Inv)
    (h : Settles a call a') (hstep : LedgerStep umtp a call a') : CompletesOnce a call a' := by
  refine ⟨h.released, fun r => ?_⟩
  have hcount := congrFun hstep.2.2 r
  by_cases hlost : ∃ i, a.client.owner i = some r ∧ a'.client.owner i ≠ some r
  · obtain ⟨i, hi, hi'⟩ := hlost
    rw [hcount, ha.waiting i r hi, h.released i r hi hi']
  · have hkept : ∀ i, a.client.owner i = some r → a'.client.owner i = some r := by
      intro i hi
      by_contra hi'
      exact hlost ⟨i, hi, hi'⟩
    rw [hcount, h.kept r hkept]
    exact ha.le_one r

theorem Settles.inv {umtp : Ref} (hu : umtp ≠ 0) {a a' : Ledger σ} {call : ClientCall} (ha : a.Inv)
    (h : Settles a call a') (hstep : LedgerStep umtp a call a')
    (hservices : a'.client.world.services = a.client.world.services) : a'.Inv := by
  obtain ⟨-, hclient, hcallbacks⟩ := hstep
  have hinv := clientStep_inv hu ha.client hclient
  have hkept : ∀ r, (∀ i, a.client.owner i = some r → a'.client.owner i = some r) →
      a'.callbacks r = a.callbacks r := by
    intro r hr
    have hcount := congrFun hcallbacks r
    rw [hcount, h.kept r hr, Nat.add_zero]
  refine ⟨hinv, by rw [hservices]; exact ha.handled, ?_, ?_, ?_⟩
  · intro i r hi
    have hi₀ := h.owner i r hi
    rw [hkept r fun j hj => ha.client.owner_unique hi₀ hj ▸ hi]
    exact ha.waiting i r hi₀
  · intro r hr hclosed
    rw [h.requests] at hr
    by_cases hopen : ∃ i, a.client.owner i = some r
    · obtain ⟨i, hi⟩ := hopen
      have hcount := congrFun hcallbacks r
      rw [hcount, ha.waiting i r hi, h.released i r hi (hclosed i)]
    · rw [hkept r fun j hj => absurd ⟨j, hj⟩ hopen]
      exact ha.completed r hr (not_exists.mp hopen)
  · intro r hr
    rw [h.requests] at hr
    rw [hkept r fun j hj => absurd (ha.client.owner_lt hj) (Nat.not_lt.mpr hr)]
    exact ha.future r hr

theorem newEvents_append {w w' : World σ} {es : List Event} (h : w'.trace = w.trace ++ es) :
    newEvents w w' = es := by rw [newEvents, h, List.drop_left]

theorem Client.next_owner {c : Client σ} {call : NodeCall} {w' : World σ} (h : Fades c.world w')
    (i : Fin maxUmtpSession) :
    (c.next call w').owner i = if (w'.sessions.session i).waiting then c.owner i else none := by
  simp only [next]
  split
  · rename_i hw
    rw [if_pos ((h i).waiting hw).1]
  · rfl

theorem Ledger.made_silent {a : Ledger σ} {call : ClientCall} {w' : World σ}
    (h : ∃ es, w'.trace = a.client.world.trace ++ es ∧ ∀ e ∈ es, e.IsSend) (r : Nat) :
    a.made call w' r = 0 := by
  obtain ⟨es, htrace, hes⟩ := h
  rw [made, newEvents_append htrace, List.countP_eq_zero]
  intro e he
  have hsend := hes e he
  cases e with
  | send dst npdu => simp [Client.OnAccount, Event.slot, Event.IsReply]
  | _ => cases hsend

theorem submit_inv {umtp : Ref} (hu : umtp ≠ 0) {a a' : Ledger σ} (ha : a.Inv) {dst : UmtpAddr}
    {d : ApduData} (hstep : LedgerStep umtp a (.submit dst d) a') :
    a'.Inv ∧ CompletesOnce a (.submit dst d) a' := by
  obtain ⟨hconf, ⟨⟨hvalid, hrun⟩, hnext⟩, hcallbacks⟩ := hstep
  obtain ⟨r, u, hsubmit, hret⟩ := of_bind_ok hrun
  cases hret
  obtain ⟨i, x, counter, hfree, hne, hunused, hx, htable, hservices, hsends⟩ :=
    umtpApduSubmit_table hu hvalid hsubmit hconf
  obtain ⟨hinv, howner, howners⟩ :=
    ha.client.submit hvalid hconf hfree hne hunused hx htable
  have hmade : ∀ r, a.made (.submit dst d) a'.client.world r = 0 :=
    a.made_silent hsends
  have hsame : a'.callbacks = a.callbacks := by
    rw [hcallbacks]
    funext k
    rw [hmade, Nat.add_zero]
  have hlen : a'.client.requests.length = a.client.requests.length + 1 := by
    rw [hnext]
    have hconf' : d.confirmed = true := hconf
    simp [Client.next, NodeCall.request, ClientCall.node, hconf']
  have hi : a'.client.owner i = some a.client.requests.length := by
    rw [hnext]
    exact howner
  have hothers : ∀ j, j ≠ i → a'.client.owner j = a.client.owner j := by
    rw [hnext]
    exact howners
  have hidle : a.client.owner i = none := by
    cases howned : a.client.owner i with
    | none => rfl
    | some k =>
      obtain ⟨req, -, hheld⟩ := ha.client.held i k howned
      have hw := hheld.waiting
      rw [ha.client.table.free hfree] at hw
      cases hw
  refine ⟨⟨?_, ?_, ?_, ?_, ?_⟩, ⟨?_, ?_⟩⟩
  · rw [hnext]
    exact hinv
  · rw [hservices]
    exact ha.handled
  · intro j k hj
    rw [hsame]
    by_cases hji : j = i
    · subst hji
      rw [hi] at hj
      cases hj
      exact ha.future _ (Nat.le_refl _)
    · rw [hothers j hji] at hj
      exact ha.waiting j k hj
  · intro k hk hclosed
    rw [hsame]
    have hnew : k ≠ a.client.requests.length := by
      rintro rfl
      exact hclosed i hi
    apply ha.completed k (by omega)
    intro j hj
    by_cases hji : j = i
    · subst hji
      rw [hidle] at hj
      cases hj
    · exact hclosed j ((hothers j hji).trans hj)
  · intro k hk
    rw [hsame]
    exact ha.future k (by omega)
  · intro j k hj hj'
    by_cases hji : j = i
    · subst hji
      rw [hidle] at hj
      cases hj
    · exact absurd ((hothers j hji).trans hj) hj'
  · intro k
    rw [hsame]
    exact ha.le_one k

theorem Client.Inv.owner_slot {c : Client σ} (hc : c.Inv) {i : Fin maxUmtpSession} {r : Nat}
    (hi : c.owner i = some r) (e : Event) : e.slot.bind c.owner = some r ↔ e.slot = some i := by
  constructor
  · intro h
    obtain ⟨j, hslot, hj⟩ := Option.bind_eq_some_iff.mp h
    rw [hslot, hc.owner_unique hj hi]
  · intro h
    rw [h]
    exact hi

/-- What a pass does to the slots in use: each is reported as it runs out. -/
structure Passes (ms : UInt16) (a a' : Ledger σ) : Prop where
  requests : a'.client.requests = a.client.requests
  services : a'.client.world.services = a.client.world.services
  owner : ∀ i r, a'.client.owner i = some r → a.client.owner i = some r
  expires : ∀ i r, a.client.owner i = some r →
    (a'.client.owner i ≠ some r ↔ a.client.world.RunsOut ms i)
  reports : ∀ i r, a.client.owner i = some r →
    a.made (.process ms) a'.client.world r = a.client.world.reports ms i
  closed : ∀ r, (∀ i, a.client.owner i ≠ some r) → a.made (.process ms) a'.client.world r = 0

theorem process_passes {umtp : Ref} {a a' : Ledger σ} (ha : a.Inv) {ms : UInt16}
    (hstep : LedgerStep umtp a (.process ms) a') : Passes ms a a' := by
  obtain ⟨-, ⟨⟨-, hrun⟩, hnext⟩, -⟩ := hstep
  have hfades : Fades a.client.world a'.client.world :=
    (umtpSessionProcess_fades ms).of_ok hrun
  have hto : ∀ i, (a.client.world.sessions.session i).waiting = true →
      (a.client.world.sessions.session i).timeout = some .apduTimeoutHandler := by
    intro i hw
    obtain ⟨r, hr⟩ := ha.client.owned i hw
    obtain ⟨req, -, hheld⟩ := ha.client.held i r hr
    exact hheld.timeout
  obtain ⟨⟨es, htrace, hcount⟩, hservices, hwaiting⟩ := umtpSessionProcess_reports hrun hto
  have howner : ∀ i, a'.client.owner i =
      if (a'.client.world.sessions.session i).waiting then a.client.owner i else none := by
    rw [hnext]
    exact Client.next_owner hfades
  have hmade : ∀ r, a.made (.process ms) a'.client.world r =
      es.countP (fun e => e.slot.bind a.client.owner = some r) := by
    intro r
    rw [Ledger.made, newEvents_append htrace]
    congr 1
    funext e
    simp [Client.OnAccount, ClientCall.answered]
  refine ⟨?_, hservices, ?_, ?_, ?_, ?_⟩
  · rw [hnext]
    simp [Client.next, NodeCall.request, ClientCall.node]
  · intro i r hi
    rw [howner] at hi
    split at hi
    · exact hi
    · cases hi
  · intro i r hi
    obtain ⟨req, -, hheld⟩ := ha.client.held i r hi
    rw [howner]
    by_cases hout : a.client.world.RunsOut ms i
    · have hw : ¬ (a'.client.world.sessions.session i).waiting = true :=
        fun hw => ((hwaiting i).mp hw).2 hout
      simp [hw, hout]
    · have hw : (a'.client.world.sessions.session i).waiting = true :=
        (hwaiting i).mpr ⟨hheld.waiting, hout⟩
      simp [hw, hi, hout]
  · intro i r hi
    rw [hmade, ← hcount]
    apply List.countP_congr
    intro e _
    rw [decide_eq_true_iff, decide_eq_true_iff]
    exact ha.client.owner_slot hi e
  · intro r hclosed
    rw [hmade, List.countP_eq_zero]
    intro e _ h
    obtain ⟨i, -, hi⟩ := Option.bind_eq_some_iff.mp (of_decide_eq_true h)
    exact hclosed i hi

theorem process_settles {umtp : Ref} {a a' : Ledger σ} (ha : a.Inv) {ms : UInt16}
    (hstep : LedgerStep umtp a (.process ms) a')
    (hgood : (ClientCall.process ms).Good a.client) : Settles a (.process ms) a' := by
  have hpass := process_passes ha hstep
  refine ⟨hpass.requests, hpass.owner, ?_, ?_⟩
  · intro i r hi hi'
    have hout := (hpass.expires i r hi).mp hi'
    obtain ⟨req, hr, hheld⟩ := ha.client.held i r hi
    have hservice : (a.client.world.sessions.session i).service = req.service := by
      rw [Session.service, hheld.service, Option.getD_some]
    obtain ⟨type, htype⟩ := Option.isSome_iff_exists.mp (hgood i r req hi hr hout)
    obtain ⟨-, -, hhandler⟩ := ha.handled type (serviceTypeGet_mem htype)
    rw [hpass.reports i r hi, World.reports, hservice, htype]
    simp [hout, hhandler]
  · intro r hkept
    by_cases hopen : ∃ i, a.client.owner i = some r
    · obtain ⟨i, hi⟩ := hopen
      have hin : ¬ a.client.world.RunsOut ms i :=
        fun hout => (hpass.expires i r hi).mpr hout (hkept i hi)
      rw [hpass.reports i r hi, World.reports]
      simp [hin]
    · exact hpass.closed r (not_exists.mp hopen)

theorem process_good {umtp : Ref} {a a' : Ledger σ} (ha : a.Inv) {ms : UInt16}
    (hstep : LedgerStep umtp a (.process ms) a') (h : CompletesOnce a (.process ms) a') :
    (ClientCall.process ms).Good a.client := by
  have hpass := process_passes ha hstep
  intro i r req hi hr hout
  obtain ⟨req', hr', hheld⟩ := ha.client.held i r hi
  rw [hr] at hr'
  cases hr'
  have hservice : (a.client.world.sessions.session i).service = req.service := by
    rw [Session.service, hheld.service, Option.getD_some]
  have hone := h.released i r hi ((hpass.expires i r hi).mpr hout)
  rw [hpass.reports i r hi, World.reports, hservice] at hone
  split at hone
  · rename_i hreported
    cases htype : serviceTypeGet a.client.world.services req.service.toNat with
    | none => simp [htype] at hreported
    | some type => rfl
  · cases hone

/-- A delivery that has a handler to go to makes one callback, about the slot that the reply
names, and any other makes none. -/
theorem deliver_run {umtp : Ref} (hu : umtp ≠ 0) {w : World σ} (hs : Handled w.services)
    {h : ApduHeader} (hh : h.WellFormed) (hreq : h.type ≠ umtpPduRequest) {body : List UInt8}
    {p : Ptr} (hp : fttpProtocolVersion :: (h.bytes ++ body) <+: p.bytes) {len : UInt16}
    (hlen : len.toNat = 1 + h.decodeLen + body.length) (herr : h.type = umtpPduError → body ≠ [])
    (src : UmtpAddr) :
    ∃ u es, (npduHandler umtp src p len).run w = .ok 0 u ∧
      u.sessions = clearedTable h w.sessions ∧ u.services = w.services ∧
      u.trace = w.trace ++ es ∧
      (CallsHandler w.services h body → ∃ e, es = [e] ∧ e.IsReply = true ∧
        e.slot = (replySession h w.sessions).map Prod.fst) ∧
      (¬ CallsHandler w.services h body → es = []) := by
  cases hget : serviceTypeGet w.services h.service.toNat with
  | none =>
    obtain ⟨u, hrun, hsessions, hservices, htrace⟩ :=
      npduHandler_absent hu hh hp hlen src hget hreq herr
    refine ⟨u, [], hrun, hsessions, hservices, by simp [htrace], ?_, fun _ => rfl⟩
    rintro ⟨hsome, -⟩
    simp [hget] at hsome
  | some type =>
    obtain ⟨hrsp, herror, -⟩ := hs type (serviceTypeGet_mem hget)
    rcases replyType hh.type hreq with htype | htype | htype
    · by_cases hbody : body = []
      · refine ⟨_, [], npduHandler_emptyResponse hu hh hp hlen src htype hbody, rfl, rfl,
          by simp, ?_, fun _ => rfl⟩
        rintro ⟨-, ⟨-, hne⟩ | hne⟩
        · exact absurd hbody hne
        · rw [htype] at hne
          cases hne
      · obtain ⟨g, hg⟩ := Option.isSome_iff_exists.mp hrsp
        obtain ⟨data, -, hrun⟩ := npduHandler_response hu hh hp hlen src htype hbody hget hg
        refine ⟨_, _, hrun, rfl, rfl, rfl, fun _ => ⟨_, rfl, rfl, rfl⟩, fun hnot => ?_⟩
        exact absurd ⟨by simp [hget], .inl ⟨htype, hbody⟩⟩ hnot
    · obtain ⟨status, rest, hbody⟩ := List.exists_cons_of_ne_nil (herr htype)
      obtain ⟨g, hg⟩ := Option.isSome_iff_exists.mp herror
      refine ⟨_, _, npduHandler_error hu hh hp hlen src htype hbody hget hg, rfl, rfl, rfl,
        fun _ => ⟨_, rfl, rfl, rfl⟩, fun hnot => ?_⟩
      exact absurd ⟨by simp [hget], .inr htype⟩ hnot
    · refine ⟨_, [], npduHandler_reject hu hh hp hlen src htype, rfl, rfl, by simp, ?_,
        fun _ => rfl⟩
      rintro ⟨-, ⟨hne, -⟩ | hne⟩
      · rw [htype] at hne
        cases hne
      · rw [htype] at hne
        cases hne

/-- What a reply to request `k` does: the slot with its id is lost, and there is one callback
if there is a handler. -/
structure Delivers (k : Nat) (h : ApduHeader) (body : List UInt8) (call : ClientCall)
    (a a' : Ledger σ) : Prop where
  requests : a'.client.requests = a.client.requests
  services : a'.client.world.services = a.client.world.services
  owner : ∀ i r, a'.client.owner i = some r → a.client.owner i = some r
  named : ∀ i r, a.client.owner i = some r →
    (a'.client.owner i ≠ some r ↔
      (a.client.world.sessions.session i).sessionId = h.sessionId)
  answered : k < a.client.requests.length
  answers : ∀ i, a.client.owner i = some k →
    (a.client.world.sessions.session i).sessionId = h.sessionId
  called : CallsHandler a.client.world.services h body → a.made call a'.client.world k = 1
  others : (∃ i, a.client.owner i = some k) → ∀ r, r ≠ k → a.made call a'.client.world r = 0
  silent : ¬ CallsHandler a.client.world.services h body → ∀ r, a.made call a'.client.world r = 0

section

variable {umtp : Ref} (hu : umtp ≠ 0) {a a' : Ledger σ} (ha : a.Inv) {k : Nat} {h : ApduHeader}
  {body : List UInt8} {src : UmtpAddr} {p : Ptr} {len : UInt16}
  (hstep : LedgerStep umtp a (.deliver k h body src p len) a')

include hu ha hstep

theorem deliver_delivers : Delivers k h body (.deliver k h body src p len) a a' := by
  obtain ⟨⟨⟨req, hk, hreplies⟩, hp, hlen, herr⟩, ⟨⟨-, hrun⟩, hnext⟩, -⟩ := hstep
  obtain ⟨u, es, hdeliver, hsessions, hservices, htrace, hcalled, hsilent⟩ :=
    deliver_run hu ha.handled hreplies.wellFormed hreplies.type hp hlen herr src
  obtain ⟨_, v, hhandle, hret⟩ := of_bind_ok hrun
  rw [hdeliver] at hhandle
  cases hhandle
  cases hret
  have hfades : Fades a.client.world a'.client.world :=
    (npduHandler_moves handlerFrame_fades umtp src p len).of_ok hdeliver
  have howner : ∀ i, a'.client.owner i =
      if (a'.client.world.sessions.session i).waiting then a.client.owner i else none := by
    rw [hnext]
    exact Client.next_owner hfades
  have hmade : ∀ r, a.made (.deliver k h body src p len) a'.client.world r =
      es.countP (a.client.OnAccount (.deliver k h body src p len) r) := by
    intro r
    rw [Ledger.made, newEvents_append htrace]
  have hanswers : ∀ i, a.client.owner i = some k →
      (a.client.world.sessions.session i).sessionId = h.sessionId := by
    intro i hi
    obtain ⟨req', hk', hheld⟩ := ha.client.held i k hi
    rw [hk] at hk'
    cases hk'
    rw [hheld.sessionId, hreplies.sessionId]
  refine ⟨?_, hservices, ?_, ?_, (List.getElem?_eq_some_iff.mp hk).1, hanswers, ?_, ?_, ?_⟩
  · rw [hnext]
    simp [Client.next, NodeCall.request, ClientCall.node]
  · intro i r hi
    rw [howner] at hi
    split at hi
    · exact hi
    · cases hi
  · intro i r hi
    obtain ⟨req', -, hheld⟩ := ha.client.held i r hi
    have hid := ha.client.table.owned i hheld.waiting
    rw [howner, hsessions]
    by_cases hn : (a.client.world.sessions.session i).sessionId = h.sessionId
    · rw [clearedTable_named ha.client.table ⟨hreplies.hasSessionId, hn ▸ hid, hn⟩]
      simp [Session.released, hn]
    · rw [clearedTable_other ha.client.table fun hnamed => hn hnamed.2.2]
      simp [hheld.waiting, hi, hn]
  · intro hcalls
    obtain ⟨e, rfl, hreply, -⟩ := hcalled hcalls
    rw [hmade]
    simp [Client.OnAccount, ClientCall.answered, hreply]
  · rintro ⟨i, hi⟩ r hrk
    rw [hmade]
    by_cases hcalls : CallsHandler a.client.world.services h body
    · obtain ⟨e, rfl, -, hslot⟩ := hcalled hcalls
      have hnot : e.slot.bind a.client.owner ≠ some r := by
        intro he
        obtain ⟨j, hj, howned⟩ := Option.bind_eq_some_iff.mp he
        rw [hslot] at hj
        obtain ⟨⟨j', x⟩, hx, rfl⟩ := Option.map_eq_some_iff.mp hj
        obtain ⟨⟨-, hne, hheld⟩, -⟩ := replySession_names hx
        have hji := ha.client.table.unique j' i (hheld ▸ hne) (hheld.trans (hanswers i hi).symm)
        dsimp only at howned
        rw [hji, hi] at howned
        exact hrk (Option.some.inj howned).symm
      have hkr : k ≠ r := fun hkr => hrk hkr.symm
      simp [Client.OnAccount, ClientCall.answered, hnot, hkr]
    · rw [hsilent hcalls]
      rfl
  · intro hcalls r
    rw [hmade, hsilent hcalls]
    rfl

theorem deliver_settles (hgood : (ClientCall.deliver k h body src p len).Good a.client) :
    Settles a (.deliver k h body src p len) a' := by
  have hdel := deliver_delivers hu ha hstep
  obtain ⟨hanswered, hunanswered⟩ := hgood
  refine ⟨hdel.requests, hdel.owner, ?_, ?_⟩
  · intro i r hi hi'
    have hid := (hdel.named i r hi).mp hi'
    by_cases hcalls : CallsHandler a.client.world.services h body
    · obtain ⟨j, hj⟩ := hanswered hcalls
      obtain ⟨req, -, hheld⟩ := ha.client.held i r hi
      have hij := ha.client.table.unique i j (ha.client.table.owned i hheld.waiting)
        (hid.trans (hdel.answers j hj).symm)
      rw [hij, hj] at hi
      cases hi
      exact hdel.called hcalls
    · exact absurd hid (hunanswered hcalls i r hi)
  · intro r hkept
    by_cases hcalls : CallsHandler a.client.world.services h body
    · obtain ⟨j, hj⟩ := hanswered hcalls
      by_cases hrk : r = k
      · subst hrk
        exact absurd (hkept j hj) ((hdel.named j r hj).mpr (hdel.answers j hj))
      · exact hdel.others ⟨j, hj⟩ r hrk
    · exact hdel.silent hcalls r

theorem deliver_good (honce : CompletesOnce a (.deliver k h body src p len) a') :
    (ClientCall.deliver k h body src p len).Good a.client := by
  have hdel := deliver_delivers hu ha hstep
  constructor
  · intro hcalls
    by_contra hclosed
    have hcount := congrFun hstep.2.2 k
    rw [ha.completed k hdel.answered (not_exists.mp hclosed), hdel.called hcalls] at hcount
    have hle := honce.once k
    omega
  · intro hcalls i r hi hid
    have hone := honce.released i r hi ((hdel.named i r hi).mpr hid)
    rw [hdel.silent hcalls r] at hone
    cases hone

end

theorem ledgerStep_good {umtp : Ref} (hu : umtp ≠ 0) {a a' : Ledger σ} (ha : a.Inv)
    {call : ClientCall} (hstep : LedgerStep umtp a call a') (hgood : call.Good a.client) :
    a'.Inv ∧ CompletesOnce a call a' := by
  cases call with
  | submit dst d => exact submit_inv hu ha hstep
  | process ms =>
    have h := process_settles ha hstep hgood
    exact ⟨h.inv hu ha hstep (process_passes ha hstep).services, h.completesOnce ha hstep⟩
  | deliver k h body src p len =>
    have h := deliver_settles hu ha hstep hgood
    exact ⟨h.inv hu ha hstep (deliver_delivers hu ha hstep).services, h.completesOnce ha hstep⟩

theorem ledgerStep_once {umtp : Ref} (hu : umtp ≠ 0) {a a' : Ledger σ} (ha : a.Inv)
    {call : ClientCall} (hstep : LedgerStep umtp a call a') (honce : CompletesOnce a call a') :
    call.Good a.client := by
  cases call with
  | submit dst d => trivial
  | process ms => exact process_good ha hstep honce
  | deliver k h body src p len => exact deliver_good hu ha hstep honce

theorem goodRun_inv {umtp : Ref} (hu : umtp ≠ 0) {a₀ a : Ledger σ} (h₀ : a₀.Inv)
    {calls : List ClientCall}
    (hr : Run (fun a call a' => LedgerStep umtp a call a' ∧ call.Good a.client) a₀ calls a) :
    a.Inv :=
  hr.invariant Ledger.Inv (fun _ _ _ ha h => (ledgerStep_good hu ha h.1 h.2).1) h₀

/-- The runs in which every request is completed once are those whose every step is good. -/
theorem exactly_once_completion {umtp : Ref} (hu : umtp ≠ 0) {w₀ : World σ}
    (h₀ : w₀.sessions = .init) (hs : Handled w₀.services) (calls : List ClientCall)
    (a : Ledger σ) :
    Run (fun a call a' => LedgerStep umtp a call a' ∧ CompletesOnce a call a')
        (Ledger.start w₀) calls a ↔
      Run (fun a call a' => LedgerStep umtp a call a' ∧ call.Good a.client)
        (Ledger.start w₀) calls a := by
  have hstart := Ledger.start_inv h₀ hs
  constructor
  · intro hr
    induction hr with
    | nil => exact .nil
    | snoc _ h ih =>
      have ha := goodRun_inv hu hstart ih
      exact ih.snoc ⟨h.1, ledgerStep_once hu ha h.1 h.2⟩
  · intro hr
    induction hr with
    | nil => exact .nil
    | snoc hr h ih =>
      have ha := goodRun_inv hu hstart hr
      exact ih.snoc ⟨h.1, (ledgerStep_good hu ha h.1 h.2).2⟩

def attentiveService : ServiceType Wire :=
  ⟨5, some silentHandler, some fun wire _ _ _ _ => wire, some fun wire _ _ _ => wire,
    some fun wire _ _ _ _ => wire⟩

theorem attentiveService_handled : Handled [attentiveService] := by
  simp [Handled, attentiveService]

def firstReply (id : UInt8) : ApduHeader := ⟨1, umtpPduResponse, 5, id, 4⟩

def firstResponse (id : UInt8) (body : List UInt8) : ClientCall :=
  .deliver 0 (firstReply id) body UmtpAddr.zero
    ⟨.taskBuf, fttpProtocolVersion :: ((firstReply id).bytes ++ body), 0⟩
    (UInt16.ofNat (5 + body.length))

theorem firstReply_repliesTo (id : UInt8) : (firstReply id).RepliesTo ⟨id, 5, UmtpAddr.zero⟩ where
  wellFormed := by
    refine ⟨show 4 = apduHeaderLen 1 by decide, show umtpPduResponse < umtpPduTypeMax by decide, ?_⟩
    intro hflag
    have hhas : apduHasSessionId (firstReply id).flag = true :=
      show apduHasSessionId 1 = true by decide
    rw [hhas] at hflag
    cases hflag
  hasSessionId := show apduHasSessionId 1 = true by decide
  type := show umtpPduResponse ≠ umtpPduRequest by decide
  service := rfl
  sessionId := rfl

theorem syncNode_responds {body : List UInt8} (hbody : body.length ≤ 1) :
    ∃ (a a' : Ledger Wire) (i : Fin maxUmtpSession) (id : UInt8),
      LedgerStep 1 (Ledger.start (syncNode [attentiveService]))
        (.submit UmtpAddr.zero (zeroData true 1)) a ∧
      LedgerStep 1 a (firstResponse id body) a' ∧
      a.client.world.services = [attentiveService] ∧ a.client.owner i = some 0 := by
  obtain ⟨c, i, id, hclient, hservices, hid, howner, hrequests⟩ :=
    syncNode_submits [attentiveService]
  let a₀ := Ledger.start (syncNode [attentiveService])
  let submit := ClientCall.submit UmtpAddr.zero (zeroData true 1)
  let a : Ledger Wire := ⟨c, fun r => a₀.callbacks r + a₀.made submit c.world r⟩
  let p : Ptr := ⟨.taskBuf, fttpProtocolVersion :: ((firstReply id).bytes ++ body), 0⟩
  let len := UInt16.ofNat (5 + body.length)
  have hreplies := firstReply_repliesTo id
  have hp : fttpProtocolVersion :: ((firstReply id).bytes ++ body) <+: p.bytes :=
    List.prefix_refl _
  have hlen : len.toNat = 1 + (firstReply id).decodeLen + body.length := by
    show (UInt16.ofNat (5 + body.length)).toNat = 1 + 4 + body.length
    rw [UInt16.toNat_ofNat']
    omega
  have herr : (firstReply id).type = umtpPduError → body ≠ [] := by
    intro hc
    exact absurd hc (show umtpPduResponse ≠ umtpPduError by decide)
  obtain ⟨u, es, hrun, -⟩ := deliver_run Nat.one_ne_zero (w := c.world)
    (hservices ▸ attentiveService_handled) hreplies.wellFormed hreplies.type hp hlen herr
    UmtpAddr.zero
  have hnode : NodeStep 1 c.world (firstResponse id body).node u := by
    refine ⟨trivial, ?_⟩
    show EStateM.run (do let _ ← npduHandler 1 UmtpAddr.zero p len) c.world = _
    simp [hrun]
  refine ⟨a, ⟨c.next (firstResponse id body).node u, fun r => a.callbacks r +
    a.made (firstResponse id body) u r⟩, i, id, ⟨rfl, hclient, rfl⟩, ?_, hservices, howner⟩
  exact ⟨⟨⟨_, by rw [hrequests]; rfl, hreplies⟩, hp, hlen, herr⟩, ⟨hnode, rfl⟩, rfl⟩

theorem exactly_once_completion_byte :
    ∃ (id : UInt8) (a : Ledger Wire),
      Run (fun a call a' => LedgerStep 1 a call a' ∧ CompletesOnce a call a')
        (Ledger.start (syncNode [attentiveService]))
        [.submit UmtpAddr.zero (zeroData true 1), firstResponse id [0]] a := by
  obtain ⟨a, a', i, id, hsubmit, hstep, hservices, howner⟩ :=
    syncNode_responds (show [(0 : UInt8)].length ≤ 1 by decide)
  have hgood : (firstResponse id [0]).Good a.client := by
    refine ⟨fun _ => ⟨i, howner⟩, fun hnot => absurd ?_ hnot⟩
    rw [hservices]
    exact ⟨rfl, .inl ⟨rfl, by simp⟩⟩
  have hr : Run (fun a call a' => LedgerStep 1 a call a' ∧ call.Good a.client)
      (Ledger.start (syncNode [attentiveService]))
      ([.submit UmtpAddr.zero (zeroData true 1)] ++ [firstResponse id [0]]) a' :=
    (Run.nil.snoc ⟨hsubmit, trivial⟩).snoc ⟨hstep, hgood⟩
  exact ⟨id, a', (exactly_once_completion Nat.one_ne_zero rfl attentiveService_handled _ a').mpr hr⟩

/-- An empty response frees the slot of the request, and nobody is told. -/
theorem empty_response_uncompleted :
    ∃ (a a' : Ledger Wire) (i : Fin maxUmtpSession) (id : UInt8),
      Handled [attentiveService] ∧
      Run (LedgerStep 1) (Ledger.start (syncNode [attentiveService]))
        [.submit UmtpAddr.zero (zeroData true 1), firstResponse id []] a' ∧
      LedgerStep 1 a (firstResponse id []) a' ∧ a.client.owner i = some 0 ∧
      a'.client.owner i = none ∧ a.made (firstResponse id []) a'.client.world 0 = 0 := by
  obtain ⟨a, a', i, id, hsubmit, hstep, hservices, howner⟩ :=
    syncNode_responds (show [].length ≤ 1 by decide)
  have ha : a.Inv := (submit_inv Nat.one_ne_zero
    (Ledger.start_inv rfl attentiveService_handled) hsubmit).1
  have hdel := deliver_delivers Nat.one_ne_zero ha hstep
  have hlost := (hdel.named i 0 howner).mpr (hdel.answers i howner)
  have hr : Run (LedgerStep 1) (Ledger.start (syncNode [attentiveService]))
      ([.submit UmtpAddr.zero (zeroData true 1)] ++ [firstResponse id []]) a' :=
    (Run.nil.snoc hsubmit).snoc hstep
  refine ⟨a, a', i, id, attentiveService_handled, hr, hstep, howner, ?_, ?_⟩
  · cases hi : a'.client.owner i with
    | none => rfl
    | some r =>
      have hsame := hdel.owner i r hi
      rw [howner] at hsame
      cases hsame
      exact absurd hi hlost
  · apply hdel.silent
    rintro ⟨-, ⟨-, hne⟩ | hne⟩
    · exact hne rfl
    · exact absurd hne (show umtpPduResponse ≠ umtpPduError by decide)

end Umtp
