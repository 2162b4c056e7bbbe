import Umtp.EncryptedLink
import Umtp.PlainNetwork

/-! A network whose nodes share a key, and where everybody else may send what they like from any
address: replay, redirect and make up datagrams, but not frames of that key. -/

set_option autoImplicit false

namespace Umtp
open CheckedBuffer StateExcept FiniteRun SealedText

variable {ι σ : Type}

/-- What may come to node `i`, with any success of the calls of OpenSSL. A frame of the key has
been made by some node, out of a message it has handed to its link; and no datagram is one of
those that `dludp_decrypt` does not refuse in time. -/
def Attacked (evp : Evp) (key : Buf UInt8 keySize) (site : ι → Site) (n : Net ι σ) (i : ι)
    (link : Dludp) (arrival : Arrival) : Prop :=
  ∃ calls iv stale, link = (site i).link.crypted evp calls key iv stale ∧
    ∀ bytes sin, arrival = .datagram bytes sin →
      Whole (site i).host evp calls key link bytes sin ∧
        (Produced evp key bytes → ∃ k dst npdu iv', n.Sent k dst npdu ∧
          bytes = umtpSignature :: sealedFrame evp key iv' npdu)

def Unaddressed (_ : ι) (_ : UmtpAddr) (_ : ι) (_ : UmtpAddr) : Prop := True

section

variable {evp : Evp} {key : Buf UInt8 keySize} {site : ι → Site}
  {types : ι → List (ServiceType σ)}

theorem attacked_genuine {n : Net ι σ} (h : n.Traced Unaddressed types) {i : ι} {link : Dludp}
    {arrival : Arrival} (harr : Attacked evp key site n i link arrival) :
    Genuine Unaddressed n i (site i).host link arrival := by
  obtain ⟨calls, iv, stale, rfl, harr⟩ := harr
  cases arrival with
  | timeout =>
    exact genuine_of_nonpos (dludpRecvData_quiet _ _ fun _ _ he => Arrival.noConfusion he)
  | failed =>
    exact genuine_of_nonpos (dludpRecvData_quiet _ _ fun _ _ he => Arrival.noConfusion he)
  | datagram bytes sin =>
    obtain ⟨hwhole, hmade⟩ := harr bytes sin rfl
    by_cases hdelivers :
        ((site i).link.crypted evp calls key iv stale).Delivers (site i).host bytes sin
    · obtain ⟨hlen, hcut⟩ := hwhole hdelivers
      obtain ⟨iv', tag, text, hbody⟩ := exists_fields hlen
      intro src lpdu w
      obtain ⟨src', buf, hrun, -, hbuf⟩ := dludpRecvData_decrypted rfl hdelivers
        (dludpDecryptHook_length evp calls key hbody) src lpdu w
      refine safely_of_ok hrun fun hpos => ?_
      dsimp only at hpos ⊢
      split at hpos
      · exact absurd hpos (Int.lt_irrefl 0)
      · rename_i hnonpos
        obtain ⟨rfl, hcutoff⟩ :=
          dludpDecryptHook_pos (site i).host evp calls key hdelivers hbody (Int.not_le.mp hnonpos)
        obtain ⟨k, dst, npdu, iv'', hsent, rfl⟩ := hmade (hcut rfl hcutoff)
        obtain ⟨a, rfl, hfit, -⟩ := h.sent hsent
        have hmax : maxApdu = 1024 := rfl
        have hpdu : maxPdu = 2049 := rfl
        have hsizes : ivSize + tagSize = 32 := rfl
        have hframe := sealedFrame_length evp key iv'' a.npdu
        have hsealed : datagramBody (umtpSignature :: sealedFrame evp key iv'' a.npdu) =
            sealedFrame evp key iv'' a.npdu := by
          rw [datagramBody, List.take_of_length_le]
          · rfl
          · have hcount : a.npdu.length = a.bytes.length + 1 := rfl
            rw [List.length_cons]
            omega
        rw [hsealed, dludpDecryptHook_frame] at hbuf hnonpos ⊢
        rw [if_neg hnonpos]
        exact ⟨k, dst, a.npdu, hsent, trivial, rfl, List.prefix_iff_eq_take.mpr hbuf.symm⟩
    · exact genuine_of_nonpos fun src lpdu w => dludpRecvData_dropped src lpdu hdelivers w

end

def Event.IsRequest : Event → Bool
  | .req .. => true
  | _ => false

def sealedNet : Net Bool Wire where
  world i :=
    { startedNode with
      dl := some (sampleLink.link .little wireSendto)
      syncMode := true
      services := pairTypes i }
  task _ := taskStart
  submitted := []

def sealedRequest : List UInt8 :=
  umtpSignature :: sealedFrame sampleEvp sampleKey sampleIv pairRequest

def sealedServe : Bool × NodeAct :=
  (true, .receive 0 ((pairSite true).link.crypted sampleEvp .all sampleKey sampleIv
    (Buf.fill tagSize 0)) (.datagram sealedRequest peerAddr))

theorem sealed_steps : ∃ n₁ n₂, sealedNet.step pairSite pairSubmit = some n₁ ∧
    n₁.Sent false serverAddr pairRequest ∧ n₁.step pairSite sealedServe = some n₂ ∧
    ∃ e ∈ (n₂.world true).trace, e.IsRequest := by
  have h : (sealedNet.step pairSite pairSubmit).any (fun n₁ =>
      n₁.Sent false serverAddr pairRequest && (n₁.step pairSite sealedServe).any fun n₂ =>
      (n₂.world true).trace.any Event.IsRequest) = true := by decide +kernel
  simp only [Option.any_eq_true, Bool.and_eq_true, decide_eq_true_eq, List.any_eq_true] at h
  obtain ⟨n₁, h₁, hsent, n₂, h₂, he⟩ := h
  exact ⟨n₁, n₂, h₁, hsent, h₂, he⟩

theorem sealed_run : ∃ n, Run (NetStep pairSite (Attacked sampleEvp sampleKey pairSite)) sealedNet
    [pairSubmit, sealedServe] n ∧ ∃ e ∈ (n.world true).trace, e.IsRequest := by
  obtain ⟨n₁, n₂, h₁, hsent, h₂, he⟩ := sealed_steps
  have hsubmit : NetStep pairSite (Attacked sampleEvp sampleKey pairSite) sealedNet pairSubmit n₁ :=
    netStep_of_step ⟨by decide, by decide⟩ (fun _ _ _ h => by cases h) h₁
  have hserve : NetStep pairSite (Attacked sampleEvp sampleKey pairSite) n₁ sealedServe n₂ := by
    refine netStep_of_step (show sealedServe.2.Valid from trivial) ?_ h₂
    rintro _ _ _ ⟨⟩
    refine ⟨.all, sampleIv, Buf.fill tagSize 0, rfl, ?_⟩
    rintro _ _ ⟨⟩
    refine ⟨fun _ => ⟨by decide +kernel, fun _ h => ?_⟩,
      fun _ => ⟨false, serverAddr, pairRequest, sampleIv, hsent, rfl⟩⟩
    rwa [List.take_of_length_le (by decide +kernel)] at h
  exact ⟨n₂, (Run.nil.snoc hsubmit).snoc hserve, he⟩

end Umtp
