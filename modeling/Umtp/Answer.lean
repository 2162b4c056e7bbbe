import Umtp.MessageFormat
import Umtp.Reply

/-! What a server may answer to a request, and that a reply that comes back from
`apdu_handler` is such an answer. -/

set_option autoImplicit false

namespace Umtp
open CheckedBuffer StateExcept

variable {σ : Type}

/-- The body of a success reply: as many bytes as the handler says. Those it has not stored
are whatever the reply block has there. -/
def ReqReply.Yields (reply : ReqReply) (body : List UInt8) : Prop :=
  body.length = reply.dataLen.toNat ∧
    match reply.own with
    | some bytes => body <+: bytes
    | none => body <+: reply.stored ∨ reply.stored <+: body

/-- The type and the body of the reply to a request, with the handler's call among those
made. `s` is the state of the application at that call. -/
inductive AnsweredBy (types : List (ServiceType σ)) (trace : List Event) (src : UmtpAddr)
    (service : Int) (data : Ptr) (len : UInt32) : UInt8 → List UInt8 → Prop where
  | empty : len = 0 →
      AnsweredBy types trace src service data len umtpPduError [UInt8.ofInt (-einval)]
  | absent : len ≠ 0 → serviceTypeGet types service = none →
      AnsweredBy types trace src service data len umtpPduError [UInt8.ofInt (-enoent)]
  | silent {type : ServiceType σ} : len ≠ 0 → serviceTypeGet types service = some type →
      type.reqHandler = none → AnsweredBy types trace src service data len umtpPduResponse []
  | failed {type : ServiceType σ} {f : σ → UmtpAddr → Int → Ptr → Int → σ × ReqReply} {s : σ} :
      len ≠ 0 → serviceTypeGet types service = some type → type.reqHandler = some f →
      Event.req service src data (handlerLen len) ∈ trace →
      (f s src service data (handlerLen len)).2.status ≠ 0 →
      AnsweredBy types trace src service data len umtpPduError
        [UInt8.ofInt (f s src service data (handlerLen len)).2.status]
  | done {type : ServiceType σ} {f : σ → UmtpAddr → Int → Ptr → Int → σ × ReqReply} {s : σ}
      {body : List UInt8} :
      len ≠ 0 → serviceTypeGet types service = some type → type.reqHandler = some f →
      Event.req service src data (handlerLen len) ∈ trace →
      (f s src service data (handlerLen len)).2.status = 0 →
      (f s src service data (handlerLen len)).2.Yields body →
      AnsweredBy types trace src service data len umtpPduResponse body

section

variable {types : List (ServiceType σ)} {trace trace' : List Event} {src : UmtpAddr}
  {service : Int} {data : Ptr} {len : UInt32} {type : UInt8} {body : List UInt8}

theorem AnsweredBy.mono (h : AnsweredBy types trace src service data len type body)
    (hsub : trace ⊆ trace') : AnsweredBy types trace' src service data len type body := by
  cases h with
  | empty hlen => exact .empty hlen
  | absent hlen hget => exact .absent hlen hget
  | silent hlen hget hf => exact .silent hlen hget hf
  | failed hlen hget hf hreq hs => exact .failed hlen hget hf (hsub hreq) hs
  | done hlen hget hf hreq hs hy => exact .done hlen hget hf (hsub hreq) hs hy

theorem AnsweredBy.type_eq (h : AnsweredBy types trace src service data len type body) :
    type = umtpPduResponse ∨ type = umtpPduError := by
  cases h with
  | silent => exact .inl rfl
  | done => exact .inl rfl
  | empty => exact .inr rfl
  | absent => exact .inr rfl
  | failed => exact .inr rfl

theorem AnsweredBy.type_lt (h : AnsweredBy types trace src service data len type body) :
    type < umtpPduTypeMax := by
  rcases h.type_eq with rfl | rfl <;> decide

theorem AnsweredBy.type_ne (h : AnsweredBy types trace src service data len type body) :
    type ≠ umtpPduRequest := by
  rcases h.type_eq with rfl | rfl <;> decide

theorem AnsweredBy.error (h : AnsweredBy types trace src service data len type body)
    (ht : type = umtpPduError) : body.length = 1 := by
  cases h with
  | silent => exact absurd ht (by decide)
  | done => exact absurd ht (by decide)
  | empty => rfl
  | absent => rfl
  | failed => rfl

end

section

variable {src : UmtpAddr} {service : Int} {data : Ptr} {len : UInt32} {k : Nat} {w v : World σ}
  {ret : Int} {sd : ServiceData}

theorem ReqReply.yields_of_prefix {reply : ReqReply} {b blk : Buf UInt8 maxApdu}
    (hblk : b.write k reply.stored = some blk) {body : List UInt8}
    (hlen : body.length = reply.dataLen.toNat)
    (hbody : body <+: ((reply.own.elim (ReplyData.block k) .own).ptr blk).bytes) :
    reply.Yields body := by
  refine ⟨hlen, ?_⟩
  cases hown : reply.own with
  | some bytes =>
    rw [hown] at hbody
    exact hbody
  | none =>
    rw [hown] at hbody
    have hstored : reply.stored <+: blk.cells.drop k := by
      have hread := Buf.read_write hblk
      exact hread ▸ List.take_prefix _ _
    exact List.prefix_or_prefix_of_prefix hbody hstored

theorem serviceHandler_answers
    (hrun : (serviceHandler src ⟨service, 0, .block k⟩ data len).run w = .ok (ret, sd) v) :
    ∃ es app blk, v = { w with app, apduTransBlk := blk, trace := w.trace ++ es } ∧
      (∀ e ∈ es, e = .req service src data (handlerLen len)) ∧
      (∀ off, sd.data = .block off → off = k) ∧
      (ret ≠ 0 → AnsweredBy w.services v.trace src service data len umtpPduError
        [UInt8.ofInt ret]) ∧
      (ret = 0 → ∀ body, body.length = sd.dataLen.toNat → body <+: (sd.data.ptr blk).bytes →
        AnsweredBy w.services v.trace src service data len umtpPduResponse body) := by
  have hstay : ∀ u : World σ, u = { u with trace := u.trace ++ [] } := fun u => by
    rw [List.append_nil]
  by_cases hlen : len = 0
  · rw [serviceHandler_empty hlen] at hrun
    cases hrun
    exact ⟨[], _, _, hstay w, by simp, by simp, fun _ => .empty hlen, fun h => by cases h⟩
  · cases hget : serviceTypeGet w.services service with
    | none =>
      rw [serviceHandler_absent hlen hget] at hrun
      cases hrun
      exact ⟨[], _, _, hstay w, by simp, by simp, fun _ => .absent hlen hget, fun h => by cases h⟩
    | some type =>
      cases hf : type.reqHandler with
      | none =>
        rw [serviceHandler_noHandler hlen hget hf] at hrun
        cases hrun
        refine ⟨[], _, _, hstay w, by simp, by simp, fun h => absurd rfl h, fun _ body hbody _ => ?_⟩
        have hnil : body = [] := List.length_eq_zero_iff.mp hbody
        exact hnil ▸ .silent hlen hget hf
      | some f =>
        rcases hcall : f w.app src service data (handlerLen len) with ⟨app, reply⟩
        cases hw : w.apduTransBlk.write k reply.stored with
        | none =>
          simp [serviceHandler, hlen, hget, hf, hcall, storeReply, memcpy, Ptr.bytes, hw] at hrun
        | some blk =>
          rw [serviceHandler_run ⟨service, 0, .block k⟩ hlen hget hf hcall rfl hw] at hrun
          cases hrun
          have hreply : (f w.app src service data (handlerLen len)).2 = reply := by rw [hcall]
          have hreq : Event.req service src data (handlerLen len) ∈
              w.trace ++ [.req service src data (handlerLen len)] := by simp
          refine ⟨_, app, blk, rfl, by simp, fun off ho => ?_, fun hne => ?_, fun h0 body hb hp => ?_⟩
          · cases hown : reply.own with
            | some bytes =>
              rw [hown] at ho
              cases ho
            | none =>
              rw [hown] at ho
              cases ho
              rfl
          · have hans := AnsweredBy.failed (s := w.app) hlen hget hf hreq (hreply ▸ hne)
            rwa [hreply] at hans
          · exact .done (s := w.app) hlen hget hf hreq (hreply ▸ h0)
              (hreply ▸ ReqReply.yields_of_prefix hw hb hp)

end

theorem encodeReplyBody_inside {sd : ServiceData} {k : Nat} {w u : World σ} {n : UInt16}
    (hrun : (encodeReplyBody 0 sd k).run w = .ok n u) :
    (sd.data.ptr w.apduTransBlk).off + sd.dataLen.toNat ≤ (sd.data.ptr w.apduTransBlk).obj.length ∧
      k + sd.dataLen.toNat ≤ maxApdu := by
  by_cases hread : (sd.data.ptr w.apduTransBlk).off + sd.dataLen.toNat ≤
      (sd.data.ptr w.apduTransBlk).obj.length
  · have hlen : ((sd.data.ptr w.apduTransBlk).bytes.take sd.dataLen.toNat).length =
        sd.dataLen.toNat := by
      simp [Ptr.bytes]
      omega
    cases hw : w.apduTransBlk.write k
        ((sd.data.ptr w.apduTransBlk).bytes.take sd.dataLen.toNat) with
    | none => simp [encodeReplyBody, memcpy, hread, hw] at hrun
    | some blk =>
      have hfit := (Buf.write_some hw).1
      exact ⟨hread, hlen ▸ hfit⟩
  · simp [encodeReplyBody, memcpy, hread] at hrun

theorem apduReply_answered {src : UmtpAddr} {apdu : Ptr} {pduLen : UInt16} {h : ApduHeader}
    (hl : h.decodeLen = apduHeaderLen h.flag) {w u : World σ} {n : UInt16}
    (hrun : (apduReply src apdu pduLen h).run w = .ok n u) :
    ∃ es app blk type body,
      u = { w with app, apduTransBlk := blk, trace := w.trace ++ es } ∧
      (∀ e ∈ es, e = .req h.service.toNat src (apdu.add h.decodeLen)
        (handlerLen (restLen pduLen h.decodeLen))) ∧
      AnsweredBy w.services u.trace src h.service.toNat (apdu.add h.decodeLen)
        (restLen pduLen h.decodeLen) type body ∧
      n.toNat = (h.reply type ++ body).length ∧ n.toNat ≤ maxApdu ∧
      h.reply type ++ body <+: blk.cells := by
  have hmax : maxApdu = 1024 := rfl
  have hle := apduHeaderLen_le h.flag
  obtain ⟨⟨ret, sd⟩, v, hservice, hrest⟩ := of_bind_ok hrun
  obtain ⟨es, app, blk, hv, hes, hoff, hfail, hdone⟩ := serviceHandler_answers hservice
  by_cases hret : ret = 0
  · subst hret
    obtain ⟨blk₁, hblk₁⟩ := encodeReplyHeader_exists h umtpPduResponse v
    have hhead := encodeReplyHeader_run h umtpPduResponse hblk₁
    obtain ⟨k, v₁, hrunhead, hbody⟩ := of_bind_ok hrest
    simp only [ne_eq, not_true_eq_false, if_false] at hrunhead
    rw [hhead] at hrunhead
    cases hrunhead
    obtain ⟨hread, hfit⟩ := encodeReplyBody_inside hbody
    obtain ⟨ho, hobj⟩ := sd.data.ptr_off v.apduTransBlk blk₁
    rw [ho, hobj] at hread
    rw [← hl] at hfit
    obtain ⟨blk₂, hreply, hcells⟩ := apduReply_response hl hservice
      (fun off h => Nat.le_of_eq (hoff off h).symm) hread hfit
    rw [hrun] at hreply
    cases hreply
    have hvblk : v.apduTransBlk = blk := by rw [hv]
    have hlen : ((sd.data.ptr v.apduTransBlk).bytes.take sd.dataLen.toNat).length =
        sd.dataLen.toNat := by
      simp [Ptr.bytes]
      omega
    have hans := hdone rfl _ hlen (hvblk ▸ List.take_prefix _ _)
    refine ⟨es, app, blk₂, _, _, by rw [hv], hes, hans, ?_, ?_, ?_⟩
    · rw [UInt16.toNat_ofNat', Nat.mod_eq_of_lt (by omega), List.length_append, h.reply_length, hlen,
        hl]
    · rw [UInt16.toNat_ofNat', Nat.mod_eq_of_lt (by omega)]
      exact hfit
    · rw [← hcells]
      exact List.take_prefix _ _
  · obtain ⟨blk₂, hreply, hcells⟩ := apduReply_error hl hret hservice
    rw [hrun] at hreply
    cases hreply
    refine ⟨es, app, blk₂, _, _, by rw [hv], hes, hfail hret, ?_, ?_, ?_⟩
    · rw [UInt16.toNat_ofNat', Nat.mod_eq_of_lt (by omega), List.length_append, h.reply_length, hl]
      rfl
    · rw [UInt16.toNat_ofNat', Nat.mod_eq_of_lt (by omega)]
      omega
    · rw [← hcells]
      exact List.take_prefix _ _

end Umtp
