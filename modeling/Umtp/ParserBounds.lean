import Umtp.Receive

/-! Which indexes of a message `npdu_handler` and `apdu_handler` read, and what they hand to
the services, for every message and every length. -/

set_option autoImplicit false

namespace Umtp
open CheckedBuffer StateExcept

variable {σ : Type}

def Event.IsCallback : Event → Prop
  | .send _ _ => False
  | _ => True

/-- The payload handed over is what follows the header, up to the end of the message. -/
def HandsOver (pdu : Ptr) (flag : UInt8) (pduLen : Nat) : Event → Prop
  | .req _ _ data len =>
    data = pdu.add (1 + apduHeaderLen flag) ∧ 0 ≤ len ∧ 1 + apduHeaderLen flag + len = pduLen
  | .rsp _ _ _ data len =>
    data = pdu.add (1 + apduHeaderLen flag) ∧ 0 ≤ len ∧ 1 + apduHeaderLen flag + len = pduLen
  | _ => True

/-- The APDU in the message ends before its header does, or before an error's status. -/
def ApduTooShort (pdu : Ptr) (pduLen : Nat) : Prop :=
  pduLen < 4 ∨ ∃ flag, pdu.get 1 = some flag ∧
    (pduLen < 1 + apduHeaderLen flag ∨
      pdu.get 2 = some umtpPduError ∧ pduLen < 2 + apduHeaderLen flag)

structure ParsesInside (pdu : Ptr) (pduLen : Nat) (w w' : World σ) : Prop where
  reads : ∀ i ∈ w'.reads.drop w.reads.length, i < pdu.off + pduLen
  data : ∀ flag, pdu.get 1 = some flag →
    ∀ e ∈ w'.trace.drop w.trace.length, HandsOver pdu flag pduLen e
  short : ApduTooShort pdu pduLen →
    (∀ e ∈ w'.trace.drop w.trace.length, ¬ e.IsCallback) ∧ w'.sessions = w.sessions

/-- The messages that are handled inside their bounds: refused at once by their version or
their type, without an APDU, or long enough for all that their first bytes announce. -/
def Announced (umtp : Ref) (pdu : Ptr) (pduLen : Nat) : Prop :=
  umtp = 0 ∨ pdu.get 0 ≠ some fttpProtocolVersion ∨ pduLen = 1 ∨
    3 ≤ pduLen ∧ (∃ type, pdu.get 2 = some type ∧ umtpPduTypeMax ≤ type) ∨
    ¬ ApduTooShort pdu pduLen

/-- From `w` to `w'` only indexes below `bound` are read, and only events of `E` happen. -/
def Within (bound : Nat) (E : Event → Prop) (w w' : World σ) : Prop :=
  ∃ is es, (∀ i ∈ is, i < bound) ∧ (∀ e ∈ es, E e) ∧ w'.reads = w.reads ++ is ∧
    w'.trace = w.trace ++ es

instance (bound : Nat) (E : Event → Prop) : Std.Refl (@Within σ bound E) :=
  ⟨fun w => ⟨[], [], by simp, by simp, by simp, by simp⟩⟩

instance (bound : Nat) (E : Event → Prop) : IsTrans (World σ) (Within bound E) where
  trans := by
    rintro w₁ w₂ w₃ ⟨is, es, his, hes, hr, ht⟩ ⟨js, fs, hjs, hfs, hr', ht'⟩
    refine ⟨is ++ js, es ++ fs, ?_, ?_, by simp [hr', hr], by simp [ht', ht]⟩
    · intro i hi
      exact (List.mem_append.mp hi).elim (his i) (hjs i)
    · intro e he
      exact (List.mem_append.mp he).elim (hes e) (hfs e)

theorem CallsOut.within {bound : Nat} {E F : Event → Prop} (hEF : ∀ e, E e → F e)
    {w w' : World σ} (h : CallsOut E w w') : Within bound F w w' := by
  obtain ⟨es, app, hes, rfl⟩ := h
  exact ⟨[], es, by simp, fun e he => hEF e (hes e he), by simp, rfl⟩

theorem within_of_eq {bound : Nat} {E : Event → Prop} {w w' : World σ}
    (hr : w'.reads = w.reads) (ht : w'.trace = w.trace) : Within bound E w w' :=
  ⟨[], [], by simp, by simp, by simp [hr], by simp [ht]⟩

theorem within_read {bound : Nat} {E : Event → Prop} {i : Nat} (hi : i < bound) (w : World σ) :
    Within bound E w (w.read i) := ⟨[i], [], by simpa using hi, by simp, by simp, by simp⟩

theorem within_readFirst {bound : Nat} {E : Event → Prop} {p : Ptr} {n : Nat}
    (hn : p.off + n ≤ bound) (w : World σ) : Within bound E w (w.readFirst p n) := by
  refine ⟨(List.range n).map (p.off + ·), [], ?_, by simp, rfl, by simp⟩
  intro i hi
  obtain ⟨k, hk, rfl⟩ := List.mem_map.mp hi
  rw [List.mem_range] at hk
  omega

theorem within_headers {E : Event → Prop} {pdu : Ptr} {n pduLen : Nat} (hn : 1 + n ≤ pduLen)
    (w : World σ) :
    Within (pdu.off + pduLen) E w
      (((w.read pdu.off).read pdu.off).readFirst (pdu.add 1) n) := by
  have h1 : Within (pdu.off + pduLen) E w (w.read pdu.off) := within_read (by omega) w
  have h2 : Within (pdu.off + pduLen) E (w.read pdu.off) ((w.read pdu.off).read pdu.off) :=
    within_read (by omega) _
  have hfit : (pdu.add 1).off + n ≤ pdu.off + pduLen := by
    simp only [Ptr.add_off]
    omega
  exact trans_of _ h1 (trans_of _ h2 (within_readFirst hfit _))

theorem apduSwitch_within (pdu : Ptr) {pduLen : UInt16} (h : ApduHeader)
    (hl : h.decodeLen = apduHeaderLen h.flag) (hfit : 1 + h.decodeLen ≤ pduLen.toNat)
    (hstatus : h.type = umtpPduError → 2 + h.decodeLen ≤ pduLen.toNat) (umtp : Ref)
    (src : UmtpAddr) :
    Moves (@Within σ (pdu.off + pduLen.toNat) (HandsOver pdu h.flag pduLen.toNat))
      (apduSwitch umtp src (pdu.add 1) (pduLen - 1) h) := by
  have hsub := pduLen_sub_one (show 1 ≤ pduLen.toNat by omega)
  have hdata : (pdu.add 1).add h.decodeLen = pdu.add (1 + apduHeaderLen h.flag) := by
    rw [← hl]
    simp [Ptr.add, Nat.add_assoc]
  have hlen : handlerLen (restLen (pduLen - 1) h.decodeLen) =
      pduLen.toNat - (1 + apduHeaderLen h.flag : Nat) := by
    rw [handlerLen_restLen (by omega), hsub, ← hl]
    omega
  have hover : (pdu.add 1).add h.decodeLen = pdu.add (1 + apduHeaderLen h.flag) ∧
      0 ≤ handlerLen (restLen (pduLen - 1) h.decodeLen) ∧
      1 + apduHeaderLen h.flag + handlerLen (restLen (pduLen - 1) h.decodeLen) = pduLen.toNat := by
    rw [hlen]
    exact ⟨hdata, by omega, by omega⟩
  have hsend : ∀ e, Event.IsSend e → HandsOver pdu h.flag pduLen.toNat e := by
    intro e he
    cases e <;> trivial
  unfold apduSwitch
  split
  · apply apduRequest_moves
    · exact fun _ _ h => h.within hsend
    · exact fun w ring => within_of_eq rfl rfl
    · exact fun w b => within_of_eq rfl rfl
    · exact fun _ _ h => h.within fun e he => he ▸ hover
  · split
    · apply moves_bind moves_get
      intro w
      apply moves_bind
      · exact (serviceRspHandler_callsOut _ _ _ _ _).weaken fun _ _ h =>
          h.within fun e he => he ▸ hover
      · intro _
        apply moves_bind (clearReplySession_moves _ _) (fun _ => moves_pure _)
        exact fun w s => within_of_eq rfl rfl
    · split
      · rename_i herr
        apply moves_bind moves_get
        intro w
        apply moves_bind (readPdu_moves _)
        · intro status
          apply moves_bind
          · exact (serviceErrorHandler_callsOut _ _ _ _).weaken fun _ _ h =>
              h.within fun e he => he ▸ trivial
          · intro _
            apply moves_bind (clearReplySession_moves _ _) (fun _ => moves_pure _)
            exact fun w s => within_of_eq rfl rfl
        · have := hstatus herr
          exact within_read (by simp; omega)
      · apply moves_bind (clearReplySession_moves _ _) (fun _ => moves_pure _)
        exact fun w s => within_of_eq rfl rfl

section

variable {pdu : Ptr} {pduLen : Nat} {w w' : World σ}

theorem ParsesInside.of_reads (hs : w'.sessions = w.sessions)
    (hw : Within (pdu.off + pduLen) (fun _ => False) w w') : ParsesInside pdu pduLen w w' := by
  obtain ⟨is, es, his, hes, hr, ht⟩ := hw
  have hes' : es = [] := List.eq_nil_iff_forall_not_mem.mpr hes
  subst hes'
  constructor
  · simpa [hr] using his
  · simp [ht]
  · exact fun _ => ⟨by simp [ht], hs⟩

theorem ParsesInside.of_long (hlong : ¬ ApduTooShort pdu pduLen)
    (hw : ∀ flag, pdu.get 1 = some flag →
      Within (pdu.off + pduLen) (HandsOver pdu flag pduLen) w w') {flag : UInt8}
    (hflag : pdu.get 1 = some flag) : ParsesInside pdu pduLen w w' := by
  constructor
  · obtain ⟨is, es, his, -, hr, -⟩ := hw flag hflag
    simpa [hr] using his
  · intro flag' hflag'
    obtain ⟨is, es, -, hes, -, ht⟩ := hw flag' hflag'
    simpa [ht] using hes
  · exact fun h => absurd h hlong

end

theorem Ptr.get_some {p : Ptr} {n i : Nat} (hn : p.off + n ≤ p.obj.length) (hi : i < n) :
    ∃ b, p.get i = some b := by
  have hlt : p.off + i < p.obj.length := by omega
  exact ⟨p.obj[p.off + i], List.getElem?_eq_getElem hlt⟩

section

variable {pdu : Ptr} {pduLen : UInt16} (hobj : pdu.off + pduLen.toNat ≤ pdu.obj.length)

include hobj

theorem npduHandler_unknown_inside {umtp : Ref} (hu : umtp ≠ 0)
    (hversion : pdu.get 0 = some fttpProtocolVersion) (hl : 3 ≤ pduLen.toNat) {type : UInt8}
    (htype : pdu.get 2 = some type) (hmax : umtpPduTypeMax ≤ type) (src : UmtpAddr)
    (w : World σ) :
    ParsesInside pdu pduLen.toNat w (final ((npduHandler umtp src pdu pduLen).run w)) := by
  obtain ⟨flag, hflag⟩ := Ptr.get_some hobj (show 1 < pduLen.toNat by omega)
  rw [npduHandler_apdu hu hversion (by omega)]
  rw [apduHandler_unknown hu (by rw [Ptr.add_get]; exact hflag) (by rw [Ptr.add_get]; exact htype)
    hmax]
  apply ParsesInside.of_reads
  · rfl
  · exact within_headers (by omega) w

theorem npduHandler_long_inside {umtp : Ref} (hu : umtp ≠ 0)
    (hversion : pdu.get 0 = some fttpProtocolVersion)
    (hlong : ¬ ApduTooShort pdu pduLen.toNat) {type : UInt8} (htype : pdu.get 2 = some type)
    (hmax : type < umtpPduTypeMax) (src : UmtpAddr) (w : World σ) :
    ParsesInside pdu pduLen.toNat w (final ((npduHandler umtp src pdu pduLen).run w)) := by
  have hl : 4 ≤ pduLen.toNat := Nat.not_lt.mp fun h => hlong (.inl h)
  obtain ⟨flag, hflag⟩ := Ptr.get_some hobj (show 1 < pduLen.toNat by omega)
  obtain ⟨service, hservice⟩ := Ptr.get_some hobj (show 3 < pduLen.toNat by omega)
  have hheader : 1 + apduHeaderLen flag ≤ pduLen.toNat :=
    Nat.not_lt.mp fun h => hlong (.inr ⟨flag, hflag, .inl h⟩)
  obtain ⟨sessionId, hid⟩ : ∃ sessionId, if apduHasSessionId flag then
      (pdu.add 1).get 3 = some sessionId else sessionId = 0 := by
    split
    · rename_i h
      rw [Ptr.add_get]
      exact Ptr.get_some hobj (by simp [apduHeaderLen, h] at hheader; omega)
    · exact ⟨0, rfl⟩
  apply ParsesInside.of_long hlong _ hflag
  intro flag' hflag'
  obtain rfl := Option.some.inj (hflag.symm.trans hflag')
  rw [npduHandler_apdu hu hversion (by omega)]
  rw [apduHandler_known hu (by rw [Ptr.add_get]; exact hflag) (by rw [Ptr.add_get]; exact htype)
    (by rw [Ptr.add_get]; exact hservice) hmax hid]
  have hstatus : type = umtpPduError → 2 + apduHeaderLen flag ≤ pduLen.toNat := fun herr =>
    Nat.not_lt.mp fun hshort => hlong (.inr ⟨flag, hflag, .inr ⟨herr ▸ htype, hshort⟩⟩)
  have hswitch := (apduSwitch_within pdu ⟨flag, type, service, sessionId, apduHeaderLen flag⟩
    rfl hheader hstatus umtp src).rel
    (((w.read pdu.off).read pdu.off).readFirst (pdu.add 1) (apduHeaderLen flag))
  exact trans_of _ (within_headers hheader w) hswitch

theorem npduHandler_inside {umtp : Ref} (hl : 1 ≤ pduLen.toNat)
    (hann : Announced umtp pdu pduLen.toNat) (src : UmtpAddr) (w : World σ) :
    ParsesInside pdu pduLen.toNat w (final ((npduHandler umtp src pdu pduLen).run w)) := by
  by_cases hu : umtp = 0
  · apply ParsesInside.of_reads <;> simp [npduHandler, hu]
    exact refl_of _ w
  obtain ⟨version, hversion⟩ := Ptr.get_some hobj (show 0 < pduLen.toNat by omega)
  by_cases hv : version = fttpProtocolVersion
  · subst hv
    by_cases h1 : pduLen.toNat = 1
    · rw [npduHandler_header hu hversion (by omega)]
      apply ParsesInside.of_reads
      · rfl
      · exact trans_of _ (within_read (by omega) w) (within_read (by omega) _)
    · by_cases hlong : ApduTooShort pdu pduLen.toNat
      · rcases hann with h | h | h | ⟨h3, type, htype, hmax⟩ | h
        · exact absurd h hu
        · exact absurd hversion h
        · exact absurd h h1
        · exact npduHandler_unknown_inside hobj hu hversion h3 htype hmax src w
        · exact absurd hlong h
      · have h4 : 4 ≤ pduLen.toNat := Nat.not_lt.mp fun h => hlong (.inl h)
        obtain ⟨type, htype⟩ := Ptr.get_some hobj (show 2 < pduLen.toNat by omega)
        by_cases hmax : umtpPduTypeMax ≤ type
        · exact npduHandler_unknown_inside hobj hu hversion (by omega) htype hmax src w
        · exact npduHandler_long_inside hobj hu hversion hlong htype (UInt8.not_le.mp hmax) src w
  · rw [npduHandler_version hu hversion hv]
    exact ParsesInside.of_reads rfl (within_read (by omega) w)

end

def ReadsGrow (w w' : World σ) : Prop := w.reads <+: w'.reads

instance : Std.Refl (@ReadsGrow σ) := ⟨fun _ => List.prefix_rfl⟩

instance : IsTrans (World σ) ReadsGrow := ⟨fun _ _ _ h₁ h₂ => List.IsPrefix.trans h₁ h₂⟩

theorem handlerFrame_readsGrow : HandlerFrame (@ReadsGrow σ) where
  refl := inferInstance
  trans := inferInstance
  callsOut := by
    rintro E w _ ⟨es, app, -, rfl⟩
    exact List.prefix_rfl
  reads w i := List.prefix_append _ _
  transBlk w b := List.prefix_rfl
  clear w id := List.prefix_rfl
  send w ring := List.prefix_rfl

def Logs {α : Type} (i : Nat) (x : Proc σ α) (w : World σ) : Prop :=
  ∃ is, (w.reads ++ is ++ [i]) <+: (final (x.run w)).reads

section

variable {α β : Type} {i : Nat} {w : World σ}

theorem Logs.mem {x : Proc σ α} (h : Logs i x w) :
    i ∈ (final (x.run w)).reads.drop w.reads.length := by
  obtain ⟨is, js, hjs⟩ := h
  rw [← hjs]
  simp

theorem logs_readPdu {pdu : Ptr} {k : Nat} {f : UInt8 → Proc σ α}
    (hf : ∀ b, Moves ReadsGrow (f b)) (w : World σ) :
    Logs (pdu.off + k) (readPdu pdu k >>= f) w := by
  refine ⟨[], ?_⟩
  cases hb : pdu.get k with
  | none => simp [readPdu, hb]
  | some b =>
    rw [readPdu_bind hb, List.append_nil]
    exact (hf b).rel (w.read (pdu.off + k))

theorem Logs.after_read {pdu : Ptr} {k : Nat} {b : UInt8} {f : UInt8 → Proc σ α}
    (hb : pdu.get k = some b) (h : Logs i (f b) (w.read (pdu.off + k))) :
    Logs i (readPdu pdu k >>= f) w := by
  obtain ⟨is, his⟩ := h
  refine ⟨[pdu.off + k] ++ is, ?_⟩
  rw [readPdu_bind hb]
  simpa using his

theorem Logs.of_run_eq {x : Proc σ α} {y : Proc σ β} {w' : World σ}
    (hr : final (x.run w) = final (y.run w')) (hw : ReadsGrow w w') (hy : Logs i y w') :
    Logs i x w := by
  obtain ⟨is, his⟩ := hy
  obtain ⟨js, hjs⟩ := hw
  refine ⟨js ++ is, ?_⟩
  rw [hr, ← List.append_assoc, hjs]
  exact his

theorem Logs.bind {x : Proc σ α} {f : α → Proc σ β} (hx : Logs i x w)
    (hf : ∀ a, Moves ReadsGrow (f a)) : Logs i (x >>= f) w := by
  obtain ⟨is, his⟩ := hx
  refine ⟨is, ?_⟩
  rw [EStateM.run_bind]
  cases hr : x.run w with
  | error e t => simpa [hr] using his
  | ok a t =>
    rw [hr] at his
    exact his.trans ((hf a).rel t)

end

theorem readsGrow_readPdu (pdu : Ptr) (k : Nat) : Moves ReadsGrow (@readPdu σ pdu k) :=
  readPdu_moves fun w => handlerFrame_readsGrow.reads w _

/-- The header of an APDU of `n` bytes is read past its end: its type, its service, or its
session id. -/
theorem apduDecode_logs {apdu : Ptr} {n : Nat} (hobj : apdu.off + n ≤ apdu.obj.length)
    (hn : 1 ≤ n) (hknown : 2 ≤ n → ∃ type, apdu.get 1 = some type ∧ type < umtpPduTypeMax)
    (hshort : ∀ flag, apdu.get 0 = some flag → n < apduHeaderLen flag) (w : World σ) :
    Logs (apdu.off + n) (apduDecode apdu) w := by
  obtain ⟨flag, hflag⟩ := Ptr.get_some hobj (show 0 < n by omega)
  have hlt := hshort flag hflag
  have hservice : ∀ type service : UInt8, Moves (@ReadsGrow σ) (do
      if apduHasSessionId flag then
        let sessionId ← readPdu apdu 3
        return some (⟨flag, type, service, sessionId, 4⟩ : ApduHeader)
      return some ⟨flag, type, service, 0, 3⟩) := by
    intro type service
    split
    · exact moves_bind (readsGrow_readPdu _ _) (fun _ => moves_pure _)
    · exact moves_pure _
  apply Logs.after_read hflag
  by_cases h1 : n = 1
  · subst h1
    apply logs_readPdu
    intro type
    split
    · exact moves_pure _
    · exact moves_bind (readsGrow_readPdu _ _) (hservice type)
  · obtain ⟨type, htype, hmax⟩ := hknown (by omega)
    apply Logs.after_read htype
    rw [if_neg (UInt8.not_le.mpr hmax)]
    by_cases h2 : n = 2
    · subst h2
      exact logs_readPdu (hservice type) _
    · obtain ⟨service, hget⟩ := Ptr.get_some hobj (show 2 < n by omega)
      apply Logs.after_read hget
      have hset : apduHasSessionId flag = true := by
        by_contra hclear
        simp only [apduHeaderLen, if_neg hclear] at hlt
        omega
      have h3 : n = 3 := by
        simp only [apduHeaderLen, if_pos hset] at hlt
        omega
      subst h3
      rw [if_pos hset]
      exact logs_readPdu (fun _ => moves_pure _) _

theorem apduHandler_logs {umtp : Ref} (hu : umtp ≠ 0) {apdu : Ptr} {n : Nat}
    (hobj : apdu.off + n ≤ apdu.obj.length) (hn : 1 ≤ n)
    (hknown : 2 ≤ n → ∃ type, apdu.get 1 = some type ∧ type < umtpPduTypeMax)
    (hshort : ∀ flag, apdu.get 0 = some flag → n < apduHeaderLen flag ∨
      apdu.get 1 = some umtpPduError ∧ n = apduHeaderLen flag) (src : UmtpAddr)
    (pduLen : UInt16) (w : World σ) :
    Logs (apdu.off + n) (apduHandler umtp src apdu pduLen) w := by
  obtain ⟨flag, hflag⟩ := Ptr.get_some hobj (show 0 < n by omega)
  rcases hshort flag hflag with hlt | ⟨herror, rfl⟩
  · unfold apduHandler
    rw [if_neg hu]
    apply Logs.bind
    · apply apduDecode_logs hobj hn hknown
      intro flag' hflag'
      obtain rfl := Option.some.inj (hflag.symm.trans hflag')
      exact hlt
    · intro header
      split
      · exact moves_pure _
      · exact apduSwitch_moves handlerFrame_readsGrow _ _ _ _ _
  · have hheader : 3 ≤ apduHeaderLen flag := by
      unfold apduHeaderLen
      split <;> omega
    obtain ⟨service, hservice⟩ := Ptr.get_some hobj (show 2 < apduHeaderLen flag by omega)
    obtain ⟨sessionId, hid⟩ : ∃ sessionId, if apduHasSessionId flag then
        apdu.get 3 = some sessionId else sessionId = 0 := by
      split
      · rename_i h
        exact Ptr.get_some hobj (show 3 < apduHeaderLen flag by simp [apduHeaderLen, h])
      · exact ⟨0, rfl⟩
    have hrun := apduHandler_known hu hflag herror hservice (by decide) hid src pduLen w
    apply Logs.of_run_eq (congrArg final hrun) (List.prefix_append _ _)
    have herr : @apduSwitch σ umtp src apdu pduLen
        ⟨flag, umtpPduError, service, sessionId, apduHeaderLen flag⟩ =
        apduError src apdu ⟨flag, umtpPduError, service, sessionId, apduHeaderLen flag⟩ := rfl
    rw [herr]
    apply logs_readPdu
    intro status
    apply moves_bind ((serviceErrorHandler_callsOut _ _ _ _).weaken
      (handlerFrame_readsGrow.callsOut _))
    intro _
    exact moves_bind (clearReplySession_moves handlerFrame_readsGrow.clear _)
      (fun _ => moves_pure _)

theorem npduHandler_past {umtp : Ref} {pdu : Ptr} {pduLen : UInt16} (hl : 1 ≤ pduLen.toNat)
    (hobj : pdu.off + pduLen.toNat ≤ pdu.obj.length)
    (hann : ¬ Announced umtp pdu pduLen.toNat) (src : UmtpAddr) (w : World σ) :
    ¬ ParsesInside pdu pduLen.toNat w (final ((npduHandler umtp src pdu pduLen).run w)) := by
  intro hinside
  unfold Announced at hann
  push Not at hann
  obtain ⟨hu, hversion, h1, hknown, hshort⟩ := hann
  obtain ⟨n, hn⟩ : ∃ n, pduLen.toNat = n + 1 := ⟨pduLen.toNat - 1, by omega⟩
  have hlog : Logs (pdu.off + 1 + n) (npduHandler umtp src pdu pduLen) w := by
    have hrun := npduHandler_apdu hu hversion (show 1 < pduLen.toNat by omega) src w
    apply Logs.of_run_eq (congrArg final hrun)
    · exact (List.prefix_append _ _).trans (List.prefix_append _ _)
    · have hfit : (pdu.add 1).off + n ≤ (pdu.add 1).obj.length := by
        simp only [Ptr.add_off, Ptr.add_obj]
        omega
      apply apduHandler_logs hu hfit (by omega)
      · intro h2
        rw [Ptr.add_get]
        obtain ⟨type, htype⟩ := Ptr.get_some hobj (show 2 < pduLen.toNat by omega)
        exact ⟨type, htype, UInt8.not_le.mp (hknown (by omega) type htype)⟩
      · intro flag hflag
        rw [Ptr.add_get] at hflag ⊢
        have hheader : 3 ≤ apduHeaderLen flag := by
          unfold apduHeaderLen
          split <;> omega
        rcases hshort with h | ⟨flag', hflag', h | ⟨herror, h⟩⟩
        · left
          omega
        · obtain rfl := Option.some.inj (hflag.symm.trans hflag')
          left
          omega
        · obtain rfl := Option.some.inj (hflag.symm.trans hflag')
          by_cases hlt : n < apduHeaderLen flag
          · exact .inl hlt
          · exact .inr ⟨herror, by omega⟩
  have hread := hinside.reads _ hlog.mem
  omega

/-- The handlers keep inside exactly the messages that are announced in full. -/
theorem npduHandler_inside_iff {umtp : Ref} {pdu : Ptr} {pduLen : UInt16}
    (hl : 1 ≤ pduLen.toNat) (hobj : pdu.off + pduLen.toNat ≤ pdu.obj.length) (src : UmtpAddr)
    (w : World σ) :
    ParsesInside pdu pduLen.toNat w (final ((npduHandler umtp src pdu pduLen).run w)) ↔
      Announced umtp pdu pduLen.toNat := by
  constructor
  · intro hinside
    by_contra hann
    exact npduHandler_past hl hobj hann src w hinside
  · exact fun hann => npduHandler_inside hobj hl hann src w

/-- A RESPONSE with the session flag and no session id, in a receive buffer of zeros. -/
def shortResponse : Ptr := ⟨.taskBuf, [1, 1, 1, 5] ++ List.replicate (maxPdu - 4) 0, 0⟩

theorem npduHandler_shortResponse :
    ParsesInside shortResponse 4 (World.init ())
        (final ((npduHandler 1 .zero shortResponse 4).run (World.init ()))) ↔
      Announced 1 shortResponse 4 :=
  npduHandler_inside_iff (show 1 ≤ (4 : UInt16).toNat by decide) (by simp [shortResponse]) .zero
    (World.init ())

theorem npduHandler_not_inside :
    ¬ ParsesInside shortResponse 4 (World.init ())
      (final ((npduHandler 1 .zero shortResponse 4).run (World.init ()))) := by
  intro h
  have hread := h.reads 4 (by decide)
  exact absurd hread (by decide)

end Umtp
