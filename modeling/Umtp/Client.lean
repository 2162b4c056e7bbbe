import Umtp.Message
import Umtp.Node

set_option autoImplicit false

namespace Umtp
open CheckedBuffer StateExcept FiniteRun

variable {σ : Type}

structure Request where
  id : UInt8
  service : UInt8
  dst : UmtpAddr
  deriving DecidableEq

structure ApduHeader.RepliesTo (h : ApduHeader) (r : Request) : Prop where
  wellFormed : h.WellFormed
  hasSessionId : apduHasSessionId h.flag = true
  type : h.type ≠ umtpPduRequest
  service : h.service = r.service
  sessionId : h.sessionId = r.id

structure Session.Holds (x : Session) (r : Request) : Prop where
  waiting : x.waiting = true
  sessionId : x.sessionId = r.id
  service : x.pdu.cells[2]? = some r.service
  dest : x.dest = r.dst
  timeout : x.timeout = some .apduTimeoutHandler

/-- A node, the requests it has submitted so far, oldest first, and for each slot the
position in that list of the request it waits for. -/
structure Client (σ : Type) where
  world : World σ
  requests : List Request
  owner : Fin maxUmtpSession → Option Nat

def Client.start (w : World σ) : Client σ := ⟨w, [], fun _ => none⟩

def NodeCall.request (w : World σ) : NodeCall → List Request
  | .submit dst d => if d.confirmed then [⟨w.grantedId d, d.serviceByte, dst⟩] else []
  | _ => []

/-- A slot that begins to wait is the new request's, and one that waits no more is no one's. -/
def Client.next (c : Client σ) (call : NodeCall) (w' : World σ) : Client σ where
  world := w'
  requests := c.requests ++ call.request c.world
  owner i :=
    if (w'.sessions.session i).waiting then
      if (c.world.sessions.session i).waiting then c.owner i else some c.requests.length
    else none

def ClientStep (umtp : Ref) (c : Client σ) (call : NodeCall) (c' : Client σ) : Prop :=
  NodeStep umtp c.world call c'.world ∧ c' = c.next call c'.world

/-- The slot goes on as it was, but for its timer and retries, or it is free. -/
def Session.Fades (x y : Session) : Prop :=
  y.waiting = x.waiting ∧ y.sessionId = x.sessionId ∧ y.pdu = x.pdu ∧ y.dest = x.dest ∧
      y.timeout = x.timeout ∨
    y.waiting = false ∧ y.sessionId = 0

theorem Session.Fades.refl (x : Session) : x.Fades x := .inl ⟨rfl, rfl, rfl, rfl, rfl⟩

theorem Session.Fades.trans {x y z : Session} (h : x.Fades y) (h' : y.Fades z) : x.Fades z := by
  rcases h' with ⟨hw, hi, hp, hd, ht⟩ | hfree
  · rcases h with ⟨hw', hi', hp', hd', ht'⟩ | ⟨hw', hi'⟩
    · exact .inl ⟨hw.trans hw', hi.trans hi', hp.trans hp', hd.trans hd', ht.trans ht'⟩
    · exact .inr ⟨hw.trans hw', hi.trans hi'⟩
  · exact .inr hfree

theorem SlotPass.fades {x y : Session} (h : SlotPass x y) : x.Fades y := by
  cases h with
  | ticked => exact .inl ⟨rfl, rfl, rfl, rfl, rfl⟩
  | released => exact .inr ⟨rfl, rfl⟩

def Fades (w w' : World σ) : Prop :=
  ∀ i, (w.sessions.session i).Fades (w'.sessions.session i)

theorem fades_of_eq {w w' : World σ} (h : w'.sessions = w.sessions) : Fades w w' := by
  intro i
  rw [h]
  exact .refl _

instance : Std.Refl (@Fades σ) := ⟨fun _ => fades_of_eq rfl⟩

instance : IsTrans (World σ) Fades := ⟨fun _ _ _ h h' i => (h i).trans (h' i)⟩

theorem umtpSessionClear_fades (w : World σ) (id : UInt8) :
    Fades w { w with sessions := umtpSessionClear id w.sessions } := by
  intro i
  unfold umtpSessionClear
  split
  · rename_i k hk
    by_cases hik : i = k
    · subst hik
      dsimp only
      rw [SessionState.modifySlot_same]
      exact .inr ⟨rfl, rfl⟩
    · dsimp only
      rw [SessionState.modifySlot_other _ hik]
      exact .refl _
  · exact .refl _

theorem handlerFrame_fades : HandlerFrame (@Fades σ) where
  refl := inferInstance
  trans := inferInstance
  callsOut _ _ _ h := fades_of_eq h.sessions
  reads _ _ := fades_of_eq rfl
  transBlk _ _ := fades_of_eq rfl
  clear := umtpSessionClear_fades
  send _ _ := fades_of_eq rfl

theorem umtpSessionProcess_fades (ms : UInt16) : Moves (@Fades σ) (umtpSessionProcess ms) := by
  apply moves_forM
  intro i _
  constructor
  intro w j
  obtain ⟨x, hx, hfinal⟩ := processSlot_sessions ms i w
  rw [hfinal]
  by_cases hj : j = i
  · subst hj
    rw [SessionState.modifySlot_same]
    exact hx.fades
  · rw [SessionState.modifySlot_other _ hj]
    exact .refl _

theorem nodeStep_fades {umtp : Ref} (hu : umtp ≠ 0) {w w' : World σ} {call : NodeCall}
    (hstep : NodeStep umtp w call w') (hcall : call.request w = []) : Fades w w' := by
  obtain ⟨hvalid, hrun⟩ := hstep
  cases call with
  | submit dst d =>
    cases hc : d.confirmed with
    | true => simp [NodeCall.request, hc] at hcall
    | false =>
      obtain ⟨r, u, hsubmit, hret⟩ := of_bind_ok hrun
      cases hret
      obtain ⟨hg, hfits⟩ := umtpApduSubmit_ok hu hvalid hsubmit
      obtain ⟨tmp, -, heq⟩ := umtpApduSubmit_unconfirmed hu dst hg hvalid hfits hc
      rw [heq] at hsubmit
      have hmoves := _umtpApduSubmit_moves (R := @Fades σ) (fun _ _ h => fades_of_eq h.sessions)
        (fun _ _ => fades_of_eq rfl) umtp dst ⟨.submitTmp, tmp.cells, 0⟩ (d.apdu 0).length
      exact hmoves.of_ok hsubmit
  | process ms => exact (umtpSessionProcess_fades ms).of_ok hrun
  | handle src npdu len =>
    obtain ⟨r, u, hhandle, hret⟩ := of_bind_ok hrun
    cases hret
    exact (npduHandler_moves handlerFrame_fades umtp src npdu len).of_ok hhandle
  | sendQueued =>
    have hmoves := mpuMsgHandle_moves (q := .send) (R := @Fades σ) (fun _ _ => fades_of_eq rfl)
      (f := _umtpSendMsg) (fun slot pkt => (npduSend_callsOut _ _ _ _).weaken
        fun _ _ h => fades_of_eq h.sessions)
    exact hmoves.of_ok hrun

structure Client.Inv (c : Client σ) : Prop where
  table : c.world.sessions.Inv
  idle : ∀ i, (c.world.sessions.session i).waiting = false →
    (c.world.sessions.session i).sessionId = 0
  owned : ∀ i, (c.world.sessions.session i).waiting = true → ∃ r, c.owner i = some r
  held : ∀ i r, c.owner i = some r →
    ∃ req, c.requests[r]? = some req ∧ (c.world.sessions.session i).Holds req
  latest : ∀ i r, c.owner i = some r → ∀ k req, r < k → c.requests[k]? = some req →
    req.id ≠ (c.world.sessions.session i).sessionId

theorem Client.start_inv {w : World σ} (h : w.sessions = .init) : (Client.start w).Inv where
  table := by
    rw [start, h]
    exact SessionState.init_inv
  idle i _ := by
    rw [start, h]
    rfl
  owned i hi := by
    rw [start, h] at hi
    cases hi
  held i r h := by cases h
  latest i r h := by cases h

theorem Session.Fades.waiting {x y : Session} (h : x.Fades y) (hy : y.waiting = true) :
    x.waiting = true ∧ y.sessionId = x.sessionId ∧ y.pdu = x.pdu ∧ y.dest = x.dest ∧
      y.timeout = x.timeout := by
  rcases h with ⟨hw, hsame⟩ | ⟨hw, -⟩
  · exact ⟨hw ▸ hy, hsame⟩
  · rw [hw] at hy
    cases hy

theorem SessionState.Inv.fades {s t : SessionState} (hs : s.Inv)
    (h : ∀ i, (s.session i).Fades (t.session i)) : t.Inv := by
  have hid : ∀ i, (t.session i).sessionId ≠ 0 →
      (t.session i).sessionId = (s.session i).sessionId := by
    intro i hi
    rcases h i with ⟨-, hsame, -⟩ | ⟨-, h0⟩
    · exact hsame
    · exact absurd h0 hi
  constructor
  · intro i j hi hij
    have hj : (t.session j).sessionId ≠ 0 := hij ▸ hi
    rw [hid i hi, hid j hj] at hij
    exact hs.unique i j (hid i hi ▸ hi) hij
  · intro i hi
    obtain ⟨hw, hsame, -⟩ := (h i).waiting hi
    rw [hsame]
    exact hs.owned i hw

theorem Client.Inv.fades {c : Client σ} (hc : c.Inv) {call : NodeCall}
    (hcall : call.request c.world = []) {w' : World σ} (h : Fades c.world w') :
    (c.next call w').Inv := by
  have hreq : (c.next call w').requests = c.requests := by simp [next, hcall]
  have howner : ∀ i r, (c.next call w').owner i = some r →
      (w'.sessions.session i).waiting = true ∧ c.owner i = some r := by
    intro i r hi
    simp only [next] at hi
    split at hi
    · rename_i hw
      rw [if_pos ((h i).waiting hw).1] at hi
      exact ⟨hw, hi⟩
    · cases hi
  constructor
  · exact hc.table.fades h
  · intro i hi
    rcases h i with ⟨hw, hsame, -⟩ | ⟨-, h0⟩
    · show (w'.sessions.session i).sessionId = 0
      rw [hsame]
      exact hc.idle i (hw ▸ hi)
    · exact h0
  · intro i hi
    obtain ⟨hw, -⟩ := (h i).waiting hi
    obtain ⟨r, hr⟩ := hc.owned i hw
    have hi' : (w'.sessions.session i).waiting = true := hi
    exact ⟨r, by simp only [next, hi', hw, if_true, hr]⟩
  · intro i r hi
    obtain ⟨hw, hr⟩ := howner i r hi
    obtain ⟨req, hget, hheld⟩ := hc.held i r hr
    obtain ⟨-, hid, hpdu, hdest, hto⟩ := (h i).waiting hw
    refine ⟨req, hreq ▸ hget, hw, hid.trans hheld.sessionId, ?_, hdest.trans hheld.dest,
      hto.trans hheld.timeout⟩
    show (w'.sessions.session i).pdu.cells[2]? = some req.service
    rw [hpdu]
    exact hheld.service
  · intro i r hi k req hk hget
    obtain ⟨hw, hr⟩ := howner i r hi
    obtain ⟨-, hid, -⟩ := (h i).waiting hw
    show req.id ≠ (w'.sessions.session i).sessionId
    rw [hid]
    exact hc.latest i r hr k req hk (hreq ▸ hget)

theorem Client.Inv.submit {c : Client σ} (hc : c.Inv) {umtp : Ref} {dst : UmtpAddr} {d : ApduData}
    (hd : d.InRange) (hconf : d.confirmed = true) {w' : World σ} {i : Fin maxUmtpSession}
    {x : Session} {counter : UInt32} (hfree : (c.world.sessions.session i).sessionId = 0)
    (hne : c.world.grantedId d ≠ 0)
    (hunused : ∀ j, (c.world.sessions.session j).sessionId ≠ c.world.grantedId d)
    (hx : x.Awaits umtp dst (c.world.grantedId d) c.world.apduTimeout
      (d.apdu (c.world.grantedId d)))
    (hw' : w'.sessions = { c.world.sessions.modifySlot i (fun _ => x) with sessionId := counter }) :
    (c.next (.submit dst d) w').Inv ∧ (c.next (.submit dst d) w').owner i = some c.requests.length ∧
      ∀ j, j ≠ i → (c.next (.submit dst d) w').owner j = c.owner j := by
  have hidle := hc.table.free hfree
  have hat : w'.sessions.session i = x := by
    rw [hw']
    simp [SessionState.modifySlot]
  have hother : ∀ j, j ≠ i → w'.sessions.session j = c.world.sessions.session j := by
    intro j hj
    rw [hw']
    exact c.world.sessions.modifySlot_other hj (fun _ => x)
  have hreq : (c.next (.submit dst d) w').requests =
      c.requests ++ [⟨c.world.grantedId d, d.serviceByte, dst⟩] := by
    simp [next, NodeCall.request, hconf]
  have howner : (c.next (.submit dst d) w').owner i = some c.requests.length := by
    simp [next, hat, hx.waiting, hidle]
  have howners : ∀ j, j ≠ i → (c.next (.submit dst d) w').owner j = c.owner j := by
    intro j hj
    simp only [next, hother j hj]
    split
    · rfl
    · rename_i hw
      cases hr : c.owner j with
      | none => rfl
      | some r =>
        obtain ⟨req, -, hheld⟩ := hc.held j r hr
        exact absurd hheld.waiting hw
  refine ⟨?_, howner, howners⟩
  constructor
  · show w'.sessions.Inv
    rw [hw']
    exact (hc.table.modifySlot i _ (.inr (.inr fun j => hx.sessionId ▸ hunused j))
      (fun _ => hx.sessionId ▸ hne)).setCounter _
  · intro j hj
    by_cases hji : j = i
    · subst hji
      have hw : (w'.sessions.session j).waiting = false := hj
      rw [hat, hx.waiting] at hw
      cases hw
    · show (w'.sessions.session j).sessionId = 0
      rw [hother j hji]
      apply hc.idle j
      rw [← hother j hji]
      exact hj
  · intro j hj
    by_cases hji : j = i
    · exact ⟨_, hji ▸ howner⟩
    · rw [howners j hji]
      apply hc.owned j
      rw [← hother j hji]
      exact hj
  · intro j r hr
    rw [hreq]
    by_cases hji : j = i
    · subst hji
      rw [howner] at hr
      cases hr
      refine ⟨⟨c.world.grantedId d, d.serviceByte, dst⟩, by simp, ?_⟩
      obtain ⟨hservice, -, hlen⟩ := ApduData.apdu_confirmed hd hconf (c.world.grantedId d)
      show (w'.sessions.session j).Holds _
      rw [hat]
      refine ⟨hx.waiting, hx.sessionId, ?_, hx.dest, hx.timeout⟩
      rw [← hservice, ← hx.pdu, List.getElem?_take_of_lt (by omega)]
    · rw [howners j hji] at hr
      obtain ⟨req, hget, hheld⟩ := hc.held j r hr
      have hlt := (List.getElem?_eq_some_iff.mp hget).1
      refine ⟨req, by rw [List.getElem?_append_left hlt]; exact hget, ?_⟩
      show (w'.sessions.session j).Holds req
      rw [hother j hji]
      exact hheld
  · intro j r hr k req hk hget
    rw [hreq] at hget
    by_cases hji : j = i
    · subst hji
      rw [howner] at hr
      cases hr
      have hlt := (List.getElem?_eq_some_iff.mp hget).1
      simp at hlt
      omega
    · rw [howners j hji] at hr
      show req.id ≠ (w'.sessions.session j).sessionId
      rw [hother j hji]
      by_cases hlast : k < c.requests.length
      · rw [List.getElem?_append_left hlast] at hget
        exact hc.latest j r hr k req hk hget
      · have hlt := (List.getElem?_eq_some_iff.mp hget).1
        simp at hlt
        have hk' : k = c.requests.length := by omega
        subst hk'
        simp at hget
        subst hget
        exact fun h => hunused j h.symm

theorem clientStep_inv {umtp : Ref} (hu : umtp ≠ 0) {c c' : Client σ} {call : NodeCall}
    (hc : c.Inv) (hstep : ClientStep umtp c call c') : c'.Inv := by
  obtain ⟨hnode, hnext⟩ := hstep
  rw [hnext]
  cases hcall : call.request c.world with
  | nil => exact hc.fades hcall (nodeStep_fades hu hnode hcall)
  | cons req rest =>
    cases call with
    | submit dst d =>
      cases hconf : d.confirmed with
      | false => simp [NodeCall.request, hconf] at hcall
      | true =>
        obtain ⟨hvalid, hrun⟩ := hnode
        obtain ⟨r, u, hsubmit, hret⟩ := of_bind_ok hrun
        cases hret
        obtain ⟨i, x, counter, hfree, hne, hunused, hx, htable, -⟩ :=
          umtpApduSubmit_table hu hvalid hsubmit hconf
        exact (hc.submit hvalid hconf hfree hne hunused hx htable).1
    | process ms => cases hcall
    | handle src npdu len => cases hcall
    | sendQueued => cases hcall

theorem clientRun_inv {umtp : Ref} (hu : umtp ≠ 0) {w₀ : World σ} (h₀ : w₀.sessions = .init)
    {calls : List NodeCall} {c : Client σ}
    (hr : Run (ClientStep umtp) (Client.start w₀) calls c) : c.Inv :=
  hr.invariant Client.Inv (fun _ _ _ hc hstep => clientStep_inv hu hc hstep)
    (Client.start_inv h₀)

end Umtp
