import Umtp.EncryptedNetwork
import Umtp.SendBounds
import Umtp.Stopping

/-! A network on which anybody may send a node anything, from any address. -/

set_option autoImplicit false

namespace Umtp
open CheckedBuffer StateExcept FiniteRun

variable {ι σ : Type}

/-- A hook that does not promise more bytes than it has stored. -/
def Dludp.DecryptStores (link : Dludp) : Prop :=
  ∀ decrypt text, link.decrypt = some decrypt → (decrypt text).1 ≤ (decrypt text).2.length

theorem memcpy_fits {store : Store} {n : Nat} (h : ¬ store.OnSendPath)
    (dst : Buf UInt8 n) (off len : Nat) (src : Ptr) (s : World σ) :
    Ensures (fun _ _ => off + len ≤ n) (memcpy store dst off src len) s :=
  ⟨fun a t hr => ((memcpy_safely dst src (.inr h)).post a t hr).2, fun _ _ _ he => he⟩

section

variable {s : World σ}

theorem dludpDeliver_fits {dl : Dludp} (hdec : dl.DecryptStores) (pdu : Buf UInt8 maxPdu)
    {recvBytes : Nat} (hlen : recvBytes ≤ maxPdu) (lpdu : Buf UInt8 maxPdu) :
    Ensures (fun r _ => r.1 ≤ (maxPdu : Int)) (dludpDeliver dl pdu recvBytes lpdu) s := by
  unfold dludpDeliver
  cases hd : dl.decrypt with
  | none =>
    apply (safely_true _).bind
    intro lpdu' t _
    apply safely_pure
    simp only
    omega
  | some decrypt =>
    have hstores := hdec decrypt ((pdu.cells.drop 1).take (recvBytes - 1)) hd
    apply (memcpy_fits (show ¬ Store.OnSendPath .taskBuf from id) _ _ _ _ _).bind
    intro lpdu' t hfit
    apply safely_pure
    simp only
    split <;> omega

theorem dludpRecvData_fits (host : Endian) {dl : Dludp} (hdec : dl.DecryptStores) (src : UmtpAddr)
    (lpdu : Buf UInt8 maxPdu) (arrival : Arrival) :
    Ensures (fun r _ => r.1 ≤ (maxPdu : Int)) (dludpRecvData host dl src lpdu maxPdu arrival) s := by
  have hinval : -einval ≤ (maxPdu : Int) := by decide
  have htimedout : -etimedout ≤ (maxPdu : Int) := by decide
  have hnomem : -enomem ≤ (maxPdu : Int) := by decide
  have hzero : 0 ≤ (maxPdu : Int) := by decide
  unfold dludpRecvData
  split
  · exact safely_pure hinval
  · cases arrival with
    | timeout => exact safely_pure htimedout
    | failed => exact safely_pure hzero
    | datagram bytes sin =>
      apply (safely_true _).bind
      intro pdu t _
      split
      · exact safely_pure hzero
      · split
        · exact safely_pure hnomem
        · split
          · exact safely_pure hzero
          · split
            · exact safely_pure hzero
            · apply (safely_true _).bind
              intro src' u _
              apply (dludpDeliver_fits hdec pdu (Nat.min_le_left _ _) lpdu).bind
              rintro ⟨pduLen, lpdu'⟩ v hle
              exact safely_pure hle

end

def Net.openInputs (n : Net ι σ) (i : ι) : Inputs where
  asked dst d id := ⟨i, dst, d, id⟩ ∈ n.submitted
  heard _ h apdu _ := Decoded apdu h

/-- Any arrival over a link of which the hook stores what it says. -/
def Anything (_ : Net ι σ) (_ : ι) (link : Dludp) (_ : Arrival) : Prop := link.DecryptStores

theorem openInputs_receives (n : Net ι σ) (i : ι) (site : Site) {link : Dludp}
    (hdec : link.DecryptStores) (arrival : Arrival) (t : TaskLocals) (w : World σ) :
    (n.openInputs i).Receives site link arrival t w := by
  have : Std.Refl (fun w u : World σ => w = u) := ⟨fun _ => rfl⟩
  have : IsTrans (World σ) (fun w u => w = u) := ⟨fun _ _ _ h₁ h₂ => h₁.trans h₂⟩
  apply ((dludpRecvData_fits site.host hdec t.src t.buf arrival).moves
    (dludpRecvData_moves (R := fun w u : World σ => w = u) _ _ _ _ _)).weaken
  rintro r u ⟨hfit, hu⟩
  exact ⟨hu, fun _ => ⟨hfit, fun _ _ _ _ _ hd => hd⟩⟩

section

variable [DecidableEq ι] {site : ι → Site} {types : ι → List (ServiceType σ)}

theorem openStep_traced {n n' : Net ι σ} {a : ι × NodeAct}
    (h : ∀ i, Umtp.Traced (n.openInputs i) (types i) (n.world i))
    (hstep : NetStep site Anything n a n') (i : ι) :
    Umtp.Traced (n'.openInputs i) (types i) (n'.world i) := by
  obtain ⟨k, act⟩ := a
  obtain ⟨hv, harr, t, w, hrun, rfl⟩ := hstep
  have hle : ∀ j, (n.openInputs j).Le ((n.next k act t w).openInputs j) := fun j =>
    ⟨fun _ _ _ hd => List.subset_append_left _ _ hd, fun _ _ _ _ hd => hd⟩
  apply Net.next_traced n.openInputs h hle hv
  · rintro dst d rfl
    exact List.mem_append_right _ (List.mem_singleton.mpr rfl)
  · intro now link arrival hact
    exact openInputs_receives _ _ _ (harr now link arrival hact) _ _ _
  · exact hrun

end

def strangerAddr : SockAddr := ⟨⟨[10, 0, 0, 9], rfl⟩, peerAddr.port⟩

def strangerName : UmtpAddr := ⟨6, ⟨[10, 0, 0, 9, 0x2E, 0x08, 0], rfl⟩⟩

def forgedServe : Bool × NodeAct :=
  (true, .receive 0 (pairSite true).link
    (.datagram [umtpSignature, fttpProtocolVersion, 0, umtpPduRequest, 5, 9] strangerAddr))

def forgedReply : List UInt8 := [fttpProtocolVersion, 0, umtpPduResponse, 5, 7]

theorem forged_step : ∃ n, pairNet.step pairSite forgedServe = some n ∧ n.submitted = [] ∧
    n.Sent true strangerName forgedReply := by
  have h : (pairNet.step pairSite forgedServe).any
      (fun n => n.submitted.isEmpty && n.Sent true strangerName forgedReply) = true := by
    decide +kernel
  simp only [Option.any_eq_true, Bool.and_eq_true, List.isEmpty_iff, decide_eq_true_eq] at h
  exact h

theorem forged_run : ∃ n, Run (NetStep pairSite Anything) pairNet [forgedServe] n ∧
    n.submitted = [] ∧ n.Sent true strangerName forgedReply := by
  obtain ⟨n, hn, hnone, hsent⟩ := forged_step
  refine ⟨n, Run.nil.snoc (netStep_of_step (show forgedServe.2.Valid from trivial) ?_ hn), hnone,
    hsent⟩
  rintro _ _ _ ⟨⟩ _ _ ⟨⟩

end Umtp
