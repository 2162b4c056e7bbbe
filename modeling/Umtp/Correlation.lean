import Umtp.Client
import Umtp.ReplyHandling
import Umtp.RequestRoundTrip

/-! Which request a reply completes. Neither the source of a datagram nor its service is
compared with anything: all that links a reply to a request is the session id. -/

set_option autoImplicit false

namespace Umtp
open CheckedBuffer StateExcept FiniteRun

variable {σ : Type}

def Event.session : Event → Option (Fin maxUmtpSession × Session)
  | .rsp _ _ session _ _ => session
  | .error _ _ _ session => session
  | _ => none

/-- The table is left alone, and only events of `E` happen. -/
def Calls (E : Event → Prop) (w w' : World σ) : Prop :=
  w'.sessions = w.sessions ∧ ∃ es, w'.trace = w.trace ++ es ∧ ∀ e ∈ es, E e

theorem calls_of_eq {E : Event → Prop} {w w' : World σ} (hs : w'.sessions = w.sessions)
    (ht : w'.trace = w.trace) : Calls E w w' := ⟨hs, [], by simp [ht], by simp⟩

instance (E : Event → Prop) : Std.Refl (@Calls σ E) := ⟨fun _ => calls_of_eq rfl rfl⟩

instance (E : Event → Prop) : IsTrans (World σ) (Calls E) where
  trans := by
    rintro w₁ w₂ w₃ ⟨hs, es, ht, hes⟩ ⟨hs', fs, ht', hfs⟩
    refine ⟨hs'.trans hs, es ++ fs, by simp [ht', ht], ?_⟩
    intro e he
    exact (List.mem_append.mp he).elim (hes e) (hfs e)

theorem CallsOut.calls {E F : Event → Prop} (hEF : ∀ e, E e → F e) {w w' : World σ}
    (h : CallsOut E w w') : Calls F w w' := by
  obtain ⟨es, app, hes, rfl⟩ := h
  exact ⟨rfl, es, rfl, fun e he => hEF e (hes e he)⟩

/-- What a message with header `h` may do to the table and hand to the services. -/
structure Answers (h : ApduHeader) (w w' : World σ) : Prop where
  hands : ∃ es, w'.trace = w.trace ++ es ∧ ∀ e ∈ es, ∀ i x, e.session = some (i, x) →
    (h.type = umtpPduResponse ∨ h.type = umtpPduError) ∧ h.Names w.sessions i ∧
      x = w.sessions.session i
  clears : w'.sessions = w.sessions ∨
    h.type ≠ umtpPduRequest ∧ w'.sessions = clearedTable h w.sessions

theorem answers_of_calls {h : ApduHeader} {w u v : World σ} (ht : h.type ≠ umtpPduRequest)
    {E : Event → Prop} (hu : Calls E w u)
    (hE : ∀ e, E e → ∀ i x, e.session = some (i, x) →
      (h.type = umtpPduResponse ∨ h.type = umtpPduError) ∧ replySession h w.sessions = some (i, x))
    (hv : v.trace = u.trace)
    (hs : v.sessions = u.sessions ∨ v.sessions = clearedTable h u.sessions) :
    Answers h w v := by
  obtain ⟨hsame, es, htrace, hes⟩ := hu
  constructor
  · refine ⟨es, hv.trans htrace, fun e he i x hx => ?_⟩
    obtain ⟨htype, hreply⟩ := hE e (hes e he) i x hx
    exact ⟨htype, replySession_names hreply⟩
  · rw [hsame] at hs
    exact hs.imp_right fun hs => ⟨ht, hs⟩

theorem final_bind_clear {α : Type} {x : Proc σ α} (h : ApduHeader) (w : World σ) :
    let u := final (x.run w)
    let v := final ((do let _ ← x; clearReplySession h; return (0 : Int)).run w)
    v.trace = u.trace ∧ (v.sessions = u.sessions ∨ v.sessions = clearedTable h u.sessions) := by
  simp only [EStateM.run_bind]
  cases x.run w with
  | error e u => exact ⟨rfl, .inl rfl⟩
  | ok a u =>
    simp only [clearReplySession_run]
    exact ⟨rfl, .inr rfl⟩

theorem apduSwitch_answers (umtp : Ref) (src : UmtpAddr) (apdu : Ptr) (pduLen : UInt16)
    (h : ApduHeader) (w : World σ) :
    Answers h w (final ((apduSwitch umtp src apdu pduLen h).run w)) := by
  unfold apduSwitch
  split
  · have hsend : ∀ w w' : World σ, CallsOut Event.IsSend w w' →
        Calls (fun e => e.session = none) w w' := by
      intro w w' hc
      apply hc.calls
      intro e he
      cases e <;> first | rfl | cases he
    have hreq : ∀ w w' : World σ, CallsOut (· = .req h.service.toNat src (apdu.add h.decodeLen)
        (handlerLen (restLen pduLen h.decodeLen))) w w' →
          Calls (fun e => e.session = none) w w' := by
      intro w w' hc
      apply hc.calls
      rintro e rfl
      rfl
    obtain ⟨hs, es, htrace, hes⟩ := (apduRequest_moves hsend (fun _ _ => calls_of_eq rfl rfl)
      (fun _ _ => calls_of_eq rfl rfl) umtp src apdu pduLen h hreq).rel w
    refine ⟨⟨es, htrace, fun e he i x hx => ?_⟩, .inl hs⟩
    rw [hes e he] at hx
    cases hx
  · rename_i hreq
    split
    · rename_i htype
      have hcalls := (serviceRspHandler_callsOut src h.service.toNat (replySession h w.sessions)
        (apdu.add h.decodeLen) (restLen pduLen h.decodeLen)).rel w
      obtain ⟨htrace, hs⟩ := final_bind_clear (x := serviceRspHandler src h.service.toNat
        (replySession h w.sessions) (apdu.add h.decodeLen) (restLen pduLen h.decodeLen)) h w
      refine answers_of_calls hreq (hcalls.calls fun _ he => he) ?_ htrace hs
      rintro e rfl i x hx
      exact ⟨.inl htype, hx⟩
    · split
      · rename_i htype
        have hread : Moves (Calls fun e => e.session = replySession h w.sessions)
            (@readPdu σ apdu h.decodeLen) := readPdu_moves fun _ => calls_of_eq rfl rfl
        have hcalls : Moves (Calls fun e => e.session = replySession h w.sessions) (do
            let status ← readPdu apdu h.decodeLen
            serviceErrorHandler (σ := σ) src h.service.toNat status.toNat
              (replySession h w.sessions)) := by
          apply moves_bind hread
          intro status
          apply (serviceErrorHandler_callsOut _ _ _ _).weaken
          intro u v hc
          apply hc.calls
          rintro e rfl
          rfl
        obtain ⟨htrace, hs⟩ := final_bind_clear (x := do
          let status ← readPdu apdu h.decodeLen
          serviceErrorHandler (σ := σ) src h.service.toNat status.toNat
            (replySession h w.sessions)) h w
        have hassoc : apduError src apdu h = (do
            let session := replySession h (← get).sessions
            (do
              let status ← readPdu apdu h.decodeLen
              serviceErrorHandler (σ := σ) src h.service.toNat status.toNat session)
            clearReplySession h
            return 0) := by simp [apduError]
        rw [hassoc]
        refine answers_of_calls hreq (hcalls.rel w) ?_ htrace hs
        intro e he i x hx
        rw [he] at hx
        exact ⟨.inr htype, hx⟩
      · obtain ⟨htrace, hs⟩ := final_bind_clear (x := (pure () : Proc σ Unit)) h w
        exact answers_of_calls (E := fun _ => False) hreq (calls_of_eq rfl rfl)
          (fun _ he => absurd he not_false) htrace hs

def Ptr.RepliesTo (apdu : Ptr) (s : SessionState) (i : Fin maxUmtpSession) : Prop :=
  ∃ flag type, apdu.get 0 = some flag ∧ apdu.get 1 = some type ∧ apduHasSessionId flag = true ∧
    (type = umtpPduResponse ∨ type = umtpPduError ∨ type = umtpPduReject) ∧
    (s.session i).sessionId ≠ 0 ∧ apdu.get 3 = some (s.session i).sessionId

/-- Only the slot whose id the APDU has is handed to a service or changes. -/
structure Correlated (apdu : Ptr) (w w' : World σ) : Prop where
  hands : ∃ es, w'.trace = w.trace ++ es ∧ ∀ e ∈ es, ∀ i x, e.session = some (i, x) →
    x = w.sessions.session i ∧ apdu.RepliesTo w.sessions i
  clears : ∀ i, w'.sessions.session i ≠ w.sessions.session i → apdu.RepliesTo w.sessions i

theorem correlated_of_eq {apdu : Ptr} {w w' : World σ} (hs : w'.sessions = w.sessions)
    (ht : w'.trace = w.trace) : Correlated apdu w w' :=
  ⟨⟨[], by simp [ht], by simp⟩, fun i hi => absurd (by rw [hs]) hi⟩

theorem readPdu_ok {pdu : Ptr} {i : Nat} {b : UInt8} {w v : World σ}
    (h : (readPdu pdu i).run w = .ok b v) : pdu.get i = some b := by
  cases hget : pdu.get i with
  | none => simp [readPdu, hget] at h
  | some c =>
    simp [readPdu, hget] at h
    rw [h.1]

theorem apduDecode_ok {apdu : Ptr} {h : ApduHeader} {w v : World σ}
    (hrun : (apduDecode apdu).run w = .ok (some h) v) :
    apdu.get 0 = some h.flag ∧ apdu.get 1 = some h.type ∧ h.type < umtpPduTypeMax ∧
      (apduHasSessionId h.flag = true → apdu.get 3 = some h.sessionId) := by
  obtain ⟨flag, u, hflag, hrun⟩ := of_bind_ok hrun
  obtain ⟨type, u, htype, hrun⟩ := of_bind_ok hrun
  split at hrun
  · cases hrun
  · rename_i hlt
    obtain ⟨service, u, -, hrun⟩ := of_bind_ok hrun
    split at hrun
    · obtain ⟨sessionId, u, hid, hrun⟩ := of_bind_ok hrun
      cases hrun
      exact ⟨readPdu_ok hflag, readPdu_ok htype, UInt8.not_le.mp hlt, fun _ => readPdu_ok hid⟩
    · rename_i hnot
      cases hrun
      exact ⟨readPdu_ok hflag, readPdu_ok htype, UInt8.not_le.mp hlt, fun h => absurd h hnot⟩

theorem apduHandler_correlated (umtp : Ref) (src : UmtpAddr) (apdu : Ptr) (pduLen : UInt16)
    {w : World σ} (hs : w.sessions.Inv) :
    Correlated apdu w (final ((apduHandler umtp src apdu pduLen).run w)) := by
  unfold apduHandler
  split
  · exact correlated_of_eq rfl rfl
  · have hdecode := (apduDecode_moves (R := Calls fun _ => False) (fun _ _ => calls_of_eq rfl rfl)
      apdu).rel w
    rw [EStateM.run_bind]
    cases hrun : (apduDecode apdu).run w with
    | error e v =>
      rw [hrun] at hdecode
      obtain ⟨hsame, es, htrace, hes⟩ := hdecode
      rw [List.eq_nil_iff_forall_not_mem.mpr hes, List.append_nil] at htrace
      exact correlated_of_eq hsame htrace
    | ok header v =>
      rw [hrun] at hdecode
      obtain ⟨hsame, es, htrace, hes⟩ := hdecode
      rw [List.eq_nil_iff_forall_not_mem.mpr hes, List.append_nil] at htrace
      rw [final_ok] at hsame htrace
      cases header with
      | none => exact correlated_of_eq hsame htrace
      | some h =>
        obtain ⟨hflag, htype, hlt, hid⟩ := apduDecode_ok hrun
        have hanswers := apduSwitch_answers umtp src apdu pduLen h v
        have hnames : ∀ i, h.Names w.sessions i →
            (h.type = umtpPduResponse ∨ h.type = umtpPduError ∨ h.type = umtpPduReject) →
              apdu.RepliesTo w.sessions i := by
          rintro i ⟨hhas, hne, hheld⟩ hreply
          refine ⟨h.flag, h.type, hflag, htype, hhas, hreply, hheld ▸ hne, ?_⟩
          rw [hheld]
          exact hid hhas
        obtain ⟨⟨fs, hfs, hhands⟩, hclears⟩ := hanswers
        rw [hsame] at hhands hclears
        constructor
        · refine ⟨fs, by rw [← htrace]; exact hfs, fun e he i x hx => ?_⟩
          obtain ⟨hreply, hn, rfl⟩ := hhands e he i x hx
          exact ⟨rfl, hnames i hn (hreply.imp_right .inl)⟩
        · intro i hi
          rcases hclears with hstay | ⟨hne, hcleared⟩
          · exact absurd (congrArg (fun s => s.session i) hstay) hi
          · apply hnames i _ (replyType hlt hne)
            by_contra hn
            apply hi
            exact (congrArg (fun s => s.session i) hcleared).trans (clearedTable_other hs hn)

/-- The request that waits in slot `i` is completed: the slot is handed to a service, or it
does not stay as it is. -/
def Reaches (i : Fin maxUmtpSession) (w w' : World σ) : Prop :=
  (∃ e ∈ w'.trace.drop w.trace.length, ∃ x, e.session = some (i, x)) ∨
    w'.sessions.session i ≠ w.sessions.session i

/-- Whichever requests are outstanding, a reply reaches no other than its own or one that was
granted the same id after its own had been released. -/
theorem reply_reaches {c : Client σ} (hc : c.Inv) {umtp : Ref} (hu : umtp ≠ 0) {k : Nat}
    {req : Request} (hk : c.requests[k]? = some req) {h : ApduHeader} (hh : h.RepliesTo req)
    {p : Ptr} {body : List UInt8} (hp : fttpProtocolVersion :: (h.bytes ++ body) <+: p.bytes)
    {len : UInt16} (hlen : len.toNat = 1 + h.decodeLen + body.length) (src : UmtpAddr)
    {i : Fin maxUmtpSession} {r : Nat} (hi : c.owner i = some r)
    (hreach : Reaches i c.world (final ((npduHandler umtp src p len).run c.world))) :
    r = k ∨ k < r ∧ (∀ j, c.owner j ≠ some k) ∧
      ∃ req', c.requests[r]? = some req' ∧ req'.id = req.id := by
  obtain ⟨-, -, -, h3⟩ := apduHeader_gets hh.wellFormed hp
  rw [if_pos hh.hasSessionId, hh.sessionId] at h3
  have hge := apduHeaderLen_ge h.flag
  have hlong : 1 < len.toNat := by
    rw [hlen, hh.wellFormed.decodeLen]
    omega
  rw [npduHandler_apdu hu (Ptr.get_of_prefix hp rfl) hlong] at hreach
  obtain ⟨⟨es, htrace, hhands⟩, hclears⟩ := apduHandler_correlated umtp src (p.add 1) (len - 1)
    (w := (c.world.read p.off).read p.off) hc.table
  have hnamed : (p.add 1).RepliesTo c.world.sessions i := by
    rcases hreach with ⟨e, he, x, hx⟩ | hchange
    · rw [htrace, World.read_trace, World.read_trace, List.drop_left] at he
      exact (hhands e he i x hx).2
    · exact hclears i hchange
  obtain ⟨-, -, -, -, -, -, -, hid⟩ := hnamed
  rw [h3] at hid
  have hsame : req.id = (c.world.sessions.session i).sessionId := Option.some.inj hid
  obtain ⟨req', hr, hheld⟩ := hc.held i r hi
  by_cases hrk : r = k
  · exact .inl hrk
  · refine .inr ⟨?_, ?_, req', hr, ?_⟩
    · by_contra hle
      exact hc.latest i r hi k req (by omega) hk hsame
    · intro j hj
      obtain ⟨req'', hk', hheld'⟩ := hc.held j k hj
      rw [hk] at hk'
      cases hk'
      have hids : (c.world.sessions.session j).sessionId =
          (c.world.sessions.session i).sessionId := by
        rw [hheld'.sessionId, hsame]
      have hji := hc.table.unique j i (hc.table.owned j hheld'.waiting) hids
      rw [hji, hi] at hj
      exact hrk (Option.some.inj hj)
    · rw [hsame, hheld.sessionId]

theorem reply_correlation {umtp : Ref} (hu : umtp ≠ 0) {w₀ : World σ} (h₀ : w₀.sessions = .init)
    {calls : List NodeCall} {c : Client σ}
    (hr : Run (ClientStep umtp) (Client.start w₀) calls c) :
    (∀ (src : UmtpAddr) (apdu : Ptr) (pduLen : UInt16),
        Correlated apdu c.world (final ((apduHandler umtp src apdu pduLen).run c.world))) ∧
      ∀ (k : Nat) (req : Request) (h : ApduHeader) (body : List UInt8) (src : UmtpAddr) (p : Ptr)
        (len : UInt16), c.requests[k]? = some req → h.RepliesTo req →
        fttpProtocolVersion :: (h.bytes ++ body) <+: p.bytes →
        len.toNat = 1 + h.decodeLen + body.length →
        ∀ i r, c.owner i = some r →
          Reaches i c.world (final ((npduHandler umtp src p len).run c.world)) →
          r = k ∨ k < r ∧ (∀ j, c.owner j ≠ some k) ∧
            ∃ req', c.requests[r]? = some req' ∧ req'.id = req.id := by
  have hc := clientRun_inv hu h₀ hr
  exact ⟨fun src apdu pduLen => apduHandler_correlated umtp src apdu pduLen hc.table,
    fun k req h body src p len hk hh hp hlen i r hi hreach =>
      reply_reaches hc hu hk hh hp hlen src hi hreach⟩

def syncNode (types : List (ServiceType Wire)) : World Wire :=
  { startedNode with syncMode := true, services := types }

theorem syncNode_submits (types : List (ServiceType Wire)) :
    ∃ c i id, ClientStep 1 (Client.start (syncNode types))
        (.submit UmtpAddr.zero (zeroData true 1)) c ∧ c.world.services = types ∧
      id ≠ 0 ∧ c.owner i = some 0 ∧ c.requests = [⟨id, 5, UmtpAddr.zero⟩] := by
  have hd : (zeroData true 1).InRange := ⟨by decide, by decide⟩
  have hg : (syncNode types).Grants (zeroData true 1) :=
    (World.grants_iff _ _).mpr (.inr ⟨0, rfl⟩)
  have hfits : (zeroData true 1).Fits := show (4 : Int) + 1 ≤ maxApdu by decide
  obtain ⟨w', ⟨r, hrun, -⟩, -⟩ := umtpApduSubmit_sync (w := syncNode types) Nat.one_ne_zero
    UmtpAddr.zero hg hd hfits startedNode_started.dl rfl (by decide) rfl
  obtain ⟨i, x, counter, hfree, hne, hunused, hx, htable, hsends⟩ :=
    umtpApduSubmit_table Nat.one_ne_zero hd hrun rfl
  have hstep : NodeStep 1 (syncNode types) (.submit UmtpAddr.zero (zeroData true 1)) w' := by
    refine ⟨hd, ?_⟩
    simp [NodeCall.exec, hrun]
  obtain ⟨-, howner, -⟩ := (Client.start_inv (w := syncNode types) rfl).submit hd rfl hfree hne
    hunused hx htable
  exact ⟨(Client.start (syncNode types)).next (.submit UmtpAddr.zero (zeroData true 1)) w', i,
    (syncNode types).grantedId (zeroData true 1), ⟨hstep, rfl⟩, hsends.1, hne, howner, rfl⟩

def listeningNode : World Wire :=
  { startedNode with
    syncMode := true
    services := [⟨6, some silentHandler, some fun wire _ _ _ _ => wire, none, none⟩] }

def stranger : UmtpAddr := ⟨1, Buf.fill maxMacLen 9⟩

theorem listeningNode_submits :
    ∃ c i id, Run (ClientStep 1) (Client.start listeningNode)
        [.submit UmtpAddr.zero (zeroData true 1)] c ∧ c.world.services = listeningNode.services ∧
      id ≠ 0 ∧ c.owner i = some 0 ∧ c.requests = [⟨id, 5, UmtpAddr.zero⟩] := by
  obtain ⟨c, i, id, hstep, hsubmitted⟩ := syncNode_submits listeningNode.services
  exact ⟨c, i, id, Run.nil.snoc hstep, hsubmitted⟩

theorem reply_correlation_listening :
    ∃ c, Run (ClientStep 1) (Client.start listeningNode)
        [.submit UmtpAddr.zero (zeroData true 1)] c ∧
      ∀ (src : UmtpAddr) (apdu : Ptr) (pduLen : UInt16),
        Correlated apdu c.world (final ((apduHandler 1 src apdu pduLen).run c.world)) := by
  obtain ⟨c, -, -, hr, -⟩ := listeningNode_submits
  exact ⟨c, hr, (reply_correlation Nat.one_ne_zero rfl hr).1⟩

/-- A response of another service from another address completes it. -/
theorem reply_uncorrelated :
    ∃ c i id data, Run (ClientStep 1) (Client.start listeningNode)
        [.submit UmtpAddr.zero (zeroData true 1)] c ∧
      (c.world.sessions.session i).waiting = true ∧
      (c.world.sessions.session i).dest ≠ stranger ∧
      (c.world.sessions.session i).pdu.cells[2]? ≠ some 6 ∧
      let w' := final ((apduHandler 1 stranger
        ⟨.taskBuf, [1, umtpPduResponse, 6, id, 0], 0⟩ 5).run c.world)
      w'.trace = c.world.trace ++
          [.rsp 6 stranger (some (i, c.world.sessions.session i)) data 1] ∧
        (w'.sessions.session i).waiting = false := by
  obtain ⟨c, i, id, hr, hservices, hid, howner, hrequests⟩ := listeningNode_submits
  have hc := clientRun_inv Nat.one_ne_zero rfl hr
  obtain ⟨req, hreq, hheld⟩ := hc.held i 0 howner
  rw [hrequests] at hreq
  cases hreq
  let h : ApduHeader := ⟨1, umtpPduResponse, 6, id, 4⟩
  let apdu : Ptr := ⟨.taskBuf, [1, umtpPduResponse, 6, id, 0], 0⟩
  let v := c.world.readFirst apdu 4
  have hn : h.Names c.world.sessions i :=
    ⟨show apduHasSessionId 1 = true by decide, hid, hheld.sessionId⟩
  have hget : serviceTypeGet v.services ((6 : UInt8).toNat : Int) =
      some ⟨6, some silentHandler, some fun wire _ _ _ _ => wire, none, none⟩ := by
    show serviceTypeGet c.world.services 6 = _
    rw [hservices]
    rfl
  have hknown : (apduHandler 1 stranger apdu 5).run c.world =
      (apduSwitch 1 stranger apdu 5 h).run v :=
    apduHandler_known Nat.one_ne_zero rfl rfl rfl (by decide)
      (show if apduHasSessionId 1 then apdu.get 3 = some id else id = 0 from rfl) stranger 5 c.world
  have hsession : replySession h v.sessions = some (i, c.world.sessions.session i) :=
    replySession_of_names hc.table hn
  have hrsp := serviceRspHandler_run stranger hget rfl (replySession h v.sessions) (apdu.add 4)
    (show restLen 5 4 ≠ 0 by decide)
  have hlen : handlerLen (restLen 5 4) = 1 := by decide
  rw [hlen] at hrsp
  have hswitch : apduSwitch (σ := Wire) 1 stranger apdu 5 h = apduResponse stranger apdu 5 h := rfl
  have hrun := hknown.trans (congrArg (fun x => EStateM.run x v) hswitch)
  refine ⟨c, i, id, apdu.add 4, hr, hheld.waiting, ?_, ?_, ?_⟩
  · rw [hheld.dest]
    show UmtpAddr.zero ≠ stranger
    decide
  · rw [hheld.service]
    show some (5 : UInt8) ≠ some 6
    decide
  · dsimp only
    rw [hrun]
    simp only [apduResponse, EStateM.run_bind, EStateM.run_get]
    rw [hrsp]
    simp only [clearReplySession_run, hsession]
    constructor
    · rfl
    · exact congrArg Session.waiting (clearedTable_named hc.table hn)

end Umtp
