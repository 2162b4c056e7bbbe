import Umtp.Completion
import Umtp.Network

set_option autoImplicit false

namespace Umtp
open CheckedBuffer StateExcept FiniteRun

variable {ι σ : Type}

section

variable (site : ι → Site) (address : ι → SockAddr) (route : SockAddr → ι → Prop)

/-- What may come to node `i`: a datagram that a node has sent to an address that is routed to
`i`, no matter when and how often, or one of another protocol. -/
def Plain (n : Net ι σ) (i : ι) (link : Dludp) : Arrival → Prop
  | .datagram bytes sin => link = (site i).link ∧
      (¬ link.Delivers (site i).host bytes sin ∨
        ∃ k dst npdu, n.Sent k dst npdu ∧ sin = address k ∧
          route (dludpDest (site k).host (site k).link dst) i ∧ bytes = umtpSignature :: npdu)
  | _ => link = (site i).link

def Routed (k : ι) (dst : UmtpAddr) (i : ι) (src : UmtpAddr) : Prop :=
  src.Names (address k) ∧ route (dludpDest (site k).host (site k).link dst) i

end

section

variable {site : ι → Site} {address : ι → SockAddr} {route : SockAddr → ι → Prop}
  {types : ι → List (ServiceType σ)}

theorem plain_genuine (hplain : ∀ i, (site i).link.decrypt = none) {n : Net ι σ}
    (h : n.Traced (Routed site address route) types) {i : ι} {link : Dludp} {arrival : Arrival}
    (harr : Plain site address route n i link arrival) :
    Genuine (Routed site address route) n i (site i).host link arrival := by
  cases arrival with
  | timeout =>
    exact genuine_of_nonpos (dludpRecvData_quiet _ _ fun _ _ he => Arrival.noConfusion he)
  | failed =>
    exact genuine_of_nonpos (dludpRecvData_quiet _ _ fun _ _ he => Arrival.noConfusion he)
  | datagram bytes sin =>
    obtain ⟨rfl, harr⟩ := harr
    by_cases hdelivers : (site i).link.Delivers (site i).host bytes sin
    · rcases harr with hnot | ⟨k, dst, npdu, hsent, rfl, hroute, rfl⟩
      · exact absurd hdelivers hnot
      · intro src lpdu w
        obtain ⟨src', buf, hrun, hnames, hbuf⟩ :=
          dludpRecvData_delivers src lpdu (hplain i) hdelivers w
        obtain ⟨a, rfl, hfit, -⟩ := h.sent hsent
        have hmax : maxApdu = 1024 := rfl
        have hpdu : maxPdu = 2049 := rfl
        have hbody : datagramBody (umtpSignature :: a.npdu) = a.npdu := by
          rw [datagramBody, List.take_of_length_le]
          · rfl
          · simp only [Apdu.npdu, List.length_cons]
            omega
        rw [hbody] at hrun hbuf
        exact safely_of_ok hrun fun _ =>
          ⟨k, dst, a.npdu, hsent, ⟨hnames, hroute⟩, rfl, List.prefix_iff_eq_take.mpr hbuf.symm⟩
    · exact genuine_of_nonpos fun src lpdu w => dludpRecvData_dropped src lpdu hdelivers w

theorem dludpDest_names {a : UmtpAddr} {sin : SockAddr} (h : a.Names sin) (host : Endian)
    (dl : Dludp) : dludpDest host dl a = sin := by
  obtain ⟨hlen, hcells⟩ := h
  have hne : ¬ a.addrLen = 0 := by
    rw [hlen]
    decide
  have haddr : a.addr.cells.take 4 = sin.addr.cells := by
    have htake : a.addr.cells.take 4 = (a.addr.cells.take 6).take 4 := by rw [List.take_take]; rfl
    rw [htake, hcells, List.take_left' sin.addr.length_cells]
  have hport : (a.addr.cells.drop 4).take 2 = sin.port.cells := by
    have hdrop : (a.addr.cells.drop 4).take 2 = (a.addr.cells.take 6).drop 4 := by rw [List.drop_take]
    rw [hdrop, hcells, List.drop_left' sin.addr.length_cells]
  obtain ⟨addr, port⟩ := sin
  rw [dludpDest, if_neg hne, dlumtpDecodeAddress]
  congr 1
  · exact Buf.ext haddr
  · exact Buf.ext hport

theorem Routed.back (hroute : ∀ i j, route (address j) i → i = j) {j k i : ι}
    {dst dst' src : UmtpAddr} (hthere : Routed site address route j dst k dst')
    (hhere : Routed site address route k dst' i src) : j = i := by
  have hto := hhere.2
  rw [dludpDest_names hthere.1] at hto
  exact (hroute i j hto).symm

end

def pairAddress (i : Bool) : SockAddr :=
  if i then peerAddr else ⟨localLink.addr, peerAddr.port⟩

def pairSite (i : Bool) : Site :=
  ⟨1, .little, { localLink with addr := (pairAddress i).addr }⟩

def pairTypes (i : Bool) : List (ServiceType Wire) :=
  if i then [⟨5, some fun wire _ _ _ _ => (wire, ⟨0, [], 1, some [7]⟩), none, none, none⟩]
  else [attentiveService]

def pairNet : Net Bool Wire where
  world i := { startedNode with syncMode := true, services := pairTypes i }
  task _ := taskStart
  submitted := []

def clientAddr : UmtpAddr := ⟨6, ⟨[10, 0, 0, 1, 0x2E, 0x08, 0], rfl⟩⟩

def serverAddr : UmtpAddr := ⟨6, ⟨[10, 0, 0, 2, 0x2E, 0x08, 0], rfl⟩⟩

def pairRequest : List UInt8 := [fttpProtocolVersion, 1, umtpPduRequest, 5, 1, 0]

def pairReply : List UInt8 := [fttpProtocolVersion, 1, umtpPduResponse, 5, 1, 7]

def pairSubmit : Bool × NodeAct := (false, .submit serverAddr (zeroData true 1))

def pairServe : Bool × NodeAct :=
  (true, .receive 0 (pairSite true).link
    (.datagram (umtpSignature :: pairRequest) (pairAddress false)))

def pairHear : Bool × NodeAct :=
  (false, .receive 0 (pairSite false).link
    (.datagram (umtpSignature :: pairReply) (pairAddress true)))

abbrev PairPlain : Net Bool Wire → Bool → Dludp → Arrival → Prop :=
  Plain pairSite pairAddress fun sin i => sin = pairAddress i

instance (n : Net Bool Wire) (k : Bool) (dst : UmtpAddr) (npdu : List UInt8) :
    Decidable (n.Sent k dst npdu) := inferInstanceAs (Decidable (_ ∈ _))

theorem pair_steps : ∃ n₁ n₂ n₃, pairNet.step pairSite pairSubmit = some n₁ ∧
    n₁.Sent false serverAddr pairRequest ∧ n₁.step pairSite pairServe = some n₂ ∧
    n₂.Sent true clientAddr pairReply ∧ n₂.step pairSite pairHear = some n₃ ∧
    ∃ e ∈ (n₃.world false).trace, e.IsReply ∧ e.slot.isSome := by
  have h : (pairNet.step pairSite pairSubmit).any (fun n₁ =>
      n₁.Sent false serverAddr pairRequest && (n₁.step pairSite pairServe).any fun n₂ =>
      n₂.Sent true clientAddr pairReply && (n₂.step pairSite pairHear).any fun n₃ =>
      (n₃.world false).trace.any fun e => e.IsReply && e.slot.isSome) = true := by
    decide +kernel
  simp only [Option.any_eq_true, Bool.and_eq_true, decide_eq_true_eq, List.any_eq_true] at h
  obtain ⟨n₁, h₁, hsent₁, n₂, h₂, hsent₂, n₃, h₃, he⟩ := h
  exact ⟨n₁, n₂, n₃, h₁, hsent₁, h₂, hsent₂, h₃, he⟩

theorem pairNet_started : pairNet.Started pairTypes :=
  ⟨rfl, fun _ => rfl, fun _ => rfl, fun _ => rfl, fun _ => .inr ⟨_, _, rfl⟩⟩

theorem pair_run : ∃ n, Run (NetStep pairSite PairPlain) pairNet [pairSubmit, pairServe, pairHear] n ∧
    ∃ e ∈ (n.world false).trace, e.IsReply ∧ e.slot.isSome := by
  obtain ⟨n₁, n₂, n₃, h₁, hsent₁, h₂, hsent₂, h₃, he⟩ := pair_steps
  have hsubmit : NetStep pairSite PairPlain pairNet pairSubmit n₁ :=
    netStep_of_step ⟨by decide, by decide⟩ (fun _ _ _ h => by cases h) h₁
  have hserve : NetStep pairSite PairPlain n₁ pairServe n₂ := by
    refine netStep_of_step (show pairServe.2.Valid from trivial) ?_ h₂
    rintro _ _ _ ⟨⟩
    exact ⟨rfl, .inr ⟨false, serverAddr, pairRequest, hsent₁, rfl, rfl, rfl⟩⟩
  have hhear : NetStep pairSite PairPlain n₂ pairHear n₃ := by
    refine netStep_of_step (show pairHear.2.Valid from trivial) ?_ h₃
    rintro _ _ _ ⟨⟩
    exact ⟨rfl, .inr ⟨true, clientAddr, pairReply, hsent₂, rfl, rfl, rfl⟩⟩
  exact ⟨n₃, ((Run.nil.snoc hsubmit).snoc hserve).snoc hhear, he⟩

theorem pairAddress_injective {i j : Bool} (h : pairAddress j = pairAddress i) : i = j := by
  cases i <;> cases j <;> first | rfl | exact absurd h (by decide)

end Umtp
