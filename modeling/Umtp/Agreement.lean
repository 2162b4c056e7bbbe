import Umtp.PlainNetwork
import Umtp.SessionIds

/-! Which request a reply is handed over with. An id is given out again only after the counter
has been round, so up to 255 requests it names one request. -/

set_option autoImplicit false

namespace Umtp
open CheckedBuffer StateExcept FiniteRun

variable {ι σ : Type}

/-- After `c` confirmed requests, none of them with an id above `c`. -/
structure World.Numbered (w : World σ) (c : Nat) : Prop where
  counter : w.sessions.sessionId = UInt32.ofNat (c + 1)
  slots : ∀ i, (w.sessions.session i).sessionId.toNat ≤ c

structure KeepsIds (w w' : World σ) : Prop where
  counter : w'.sessions.sessionId = w.sessions.sessionId
  slots : ∀ i, (w'.sessions.session i).sessionId = (w.sessions.session i).sessionId ∨
    (w'.sessions.session i).sessionId = 0

theorem keepsIds_of_eq {w w' : World σ} (h : w'.sessions = w.sessions) : KeepsIds w w' :=
  ⟨by rw [h], fun i => .inl (by rw [h])⟩

instance : Std.Refl (@KeepsIds σ) := ⟨fun _ => keepsIds_of_eq rfl⟩

instance : IsTrans (World σ) KeepsIds where
  trans u v w h h' := by
    refine ⟨h'.counter.trans h.counter, fun i => ?_⟩
    rcases h'.slots i with hkept | hfree
    · rw [hkept]
      exact h.slots i
    · exact .inr hfree

theorem KeepsIds.modifySlot {w : World σ} {i : Fin maxUmtpSession} {x : Session}
    (hx : x.sessionId = (w.sessions.session i).sessionId ∨ x.sessionId = 0) {w' : World σ}
    (hw : w'.sessions = w.sessions.modifySlot i (fun _ => x)) : KeepsIds w w' := by
  refine ⟨by rw [hw]; rfl, fun j => ?_⟩
  rw [hw]
  by_cases hj : j = i
  · subst hj
    rw [SessionState.modifySlot_same]
    exact hx
  · rw [SessionState.modifySlot_other _ hj]
    exact .inl rfl

theorem umtpSessionClear_keepsIds (w : World σ) (id : UInt8) :
    KeepsIds w { w with sessions := umtpSessionClear id w.sessions } := by
  cases hi : sessionGetIndex w.sessions id with
  | none => exact keepsIds_of_eq (by simp only [umtpSessionClear, hi])
  | some i =>
    apply KeepsIds.modifySlot (i := i) (x := (w.sessions.session i).released) (.inr rfl)
    simp only [umtpSessionClear, hi]
    rfl

theorem handlerFrame_keepsIds : HandlerFrame (@KeepsIds σ) where
  refl := inferInstance
  trans := inferInstance
  callsOut _ _ _ h := keepsIds_of_eq h.sessions
  reads _ _ := keepsIds_of_eq rfl
  transBlk _ _ := keepsIds_of_eq rfl
  clear := umtpSessionClear_keepsIds
  send _ _ := keepsIds_of_eq rfl

theorem umtpSessionProcess_keepsIds (ms : UInt16) :
    Moves (@KeepsIds σ) (umtpSessionProcess ms) := by
  apply moves_forM
  intro i _
  constructor
  intro w
  obtain ⟨x, hx, hsessions⟩ := processSlot_sessions ms i w
  refine KeepsIds.modifySlot ?_ hsessions
  cases hx with
  | ticked retry timer => exact .inl rfl
  | released timer => exact .inr rfl

theorem KeepsIds.numbered {w w' : World σ} (h : KeepsIds w w') {c : Nat} (hw : w.Numbered c) :
    w'.Numbered c := by
  refine ⟨h.counter.trans hw.counter, fun i => ?_⟩
  rcases h.slots i with hkept | hfree
  · rw [hkept]
    exact hw.slots i
  · rw [hfree]
    exact Nat.zero_le c

theorem CountsUp.once {c d : UInt32} {id : UInt8} (h : CountsUp c [.granted id] d) :
    id = c.toUInt8 ∧ d = nextSessionId c := by
  cases h with
  | cons hid hrest =>
    cases hrest
    exact ⟨hid, rfl⟩

/-- The id that the counter stands at is granted, when no slot has it. -/
theorem umtpFreeSession_counter {t : UInt32} {s : SessionState} (hg : (umtpFreeSession t s).2 ≠ 0)
    (hunused : ∀ i, (s.session i).sessionId ≠ s.sessionId.toUInt8) :
    (umtpFreeSession t s).2 = s.sessionId.toUInt8 ∧
      (umtpFreeSession t s).1.sessionId = nextSessionId s.sessionId := by
  have hcount := umtpFreeSession_countsUp t s
  rw [triedIds, if_neg hg] at hcount
  cases hpassed : idsPassed 257 s with
  | nil =>
    rw [hpassed, List.nil_append] at hcount
    exact hcount.once
  | cons e passed =>
    obtain ⟨i, rfl⟩ := idsPassed_inUse (hpassed ▸ List.mem_cons_self)
    rw [hpassed, List.cons_append] at hcount
    cases hcount with
    | cons hid _ => exact absurd hid (hunused i)

theorem nextSessionId_ofNat {c : Nat} (hc : c < 255) :
    nextSessionId (UInt32.ofNat (c + 1)) = UInt32.ofNat (c + 1 + 1) := by
  have hsucc : UInt32.ofNat (c + 1) + 1 = UInt32.ofNat (c + 1 + 1) := (UInt32.ofNat_add _ _).symm
  have hne : UInt32.ofNat (c + 1 + 1) ≠ 0 := by
    intro h
    have hnat := congrArg UInt32.toNat h
    rw [UInt32.toNat_ofNat_of_lt' (by simp [UInt32.size]; omega)] at hnat
    exact absurd hnat (by simp)
  rw [nextSessionId, hsucc, if_neg hne]

theorem umtpApduSubmit_counter {umtp : Ref} (hu : umtp ≠ 0) {dst : UmtpAddr} {d : ApduData}
    (hd : d.InRange) (hc : d.confirmed = true) {r : Int} {w w' : World σ}
    (hrun : (umtpApduSubmit umtp dst (some d)).run w = .ok r w') :
    w'.sessions.sessionId = (umtpFreeSession w.apduTimeout w.sessions).1.sessionId := by
  obtain ⟨hg, hfits⟩ := umtpApduSubmit_ok hu hd hrun
  obtain ⟨tmp, -, heq⟩ := umtpApduSubmit_fits hu dst hg hd hfits
  rw [heq] at hrun
  have hmoves : Moves (@SameCounter σ) (submitEncoded umtp dst d (w.grantedId d) tmp) := by
    unfold submitEncoded
    rw [hc, if_pos rfl]
    exact moves_bind (sessionSet_counter _ _ _ _ _ _) fun _ =>
      _umtpApduSubmit_moves (fun _ _ h => congrArg SessionState.sessionId h.sessions)
        (fun _ _ => rfl) _ _ _ _
  have hsame : w'.sessions.sessionId = (w.granted d).sessions.sessionId := hmoves.of_ok hrun
  rw [hsame, World.granted, if_pos hc]

theorem World.Numbered.submit {umtp : Ref} (hu : umtp ≠ 0) {dst : UmtpAddr} {d : ApduData}
    (hd : d.InRange) (hc : d.confirmed = true) {c : Nat} (hlt : c < 255) {r : Int} {w w' : World σ}
    (hw : w.Numbered c) (hrun : (umtpApduSubmit umtp dst (some d)).run w = .ok r w') :
    w.grantedId d = UInt8.ofNat (c + 1) ∧ w'.Numbered (c + 1) := by
  have hlow : w.sessions.sessionId.toUInt8 = UInt8.ofNat (c + 1) := by
    rw [hw.counter, UInt32.toUInt8_ofNat']
  have hnat : (UInt8.ofNat (c + 1)).toNat = c + 1 :=
    UInt8.toNat_ofNat_of_lt' (by simp only [UInt8.size]; omega)
  have hunused : ∀ i, (w.sessions.session i).sessionId ≠ w.sessions.sessionId.toUInt8 := by
    intro i h
    have hle := hw.slots i
    rw [h, hlow, hnat] at hle
    omega
  have hg := (umtpApduSubmit_ok hu hd hrun).1 hc
  obtain ⟨hid, hnext⟩ := umtpFreeSession_counter hg hunused
  have hgranted : w.grantedId d = UInt8.ofNat (c + 1) := by
    rw [World.grantedId, if_pos hc, hid, hlow]
  refine ⟨hgranted, ⟨?_, ?_⟩⟩
  · rw [umtpApduSubmit_counter hu hd hc hrun, hnext, hw.counter, nextSessionId_ofNat hlt]
  · obtain ⟨i, x, counter, -, -, -, hx, htable, -⟩ := umtpApduSubmit_table hu hd hrun hc
    intro j
    rw [htable]
    by_cases hj : j = i
    · subst hj
      have hat := w.sessions.modifySlot_same j (fun _ => x)
      dsimp only
      rw [hat, hx.sessionId, hgranted, hnat]
    · have hother := w.sessions.modifySlot_other hj (fun _ => x)
      dsimp only
      rw [hother]
      exact (hw.slots j).trans (Nat.le_succ c)

theorem umtpApduSubmit_keepsIds {umtp : Ref} (hu : umtp ≠ 0) {dst : UmtpAddr} {d : ApduData}
    (hd : d.InRange) (hc : d.confirmed = false) {r : Int} {w w' : World σ}
    (hrun : (umtpApduSubmit umtp dst (some d)).run w = .ok r w') : KeepsIds w w' := by
  obtain ⟨hg, hfits⟩ := umtpApduSubmit_ok hu hd hrun
  obtain ⟨tmp, -, heq⟩ := umtpApduSubmit_unconfirmed hu dst hg hd hfits hc
  rw [heq] at hrun
  exact (_umtpApduSubmit_moves (fun _ _ h => keepsIds_of_eq h.sessions)
    (fun _ _ => keepsIds_of_eq rfl) _ _ _ _).of_ok hrun

theorem NodeAct.submission_length (i : ι) (w : World σ) (act : NodeAct) :
    (act.submission i w).length ≤ 1 := by
  cases act <;> simp [NodeAct.submission]

section

variable [DecidableEq ι] {site : ι → Site} {arrives : Net ι σ → ι → Dludp → Arrival → Prop}
  {n n' : Net ι σ} {k : ι}

def Net.confirmedAt (n : Net ι σ) (i : ι) : List (Submission ι) :=
  n.submitted.filter fun s => s.node = i && s.data.confirmed

theorem Net.mem_confirmedAt {s : Submission ι} :
    s ∈ n.confirmedAt k ↔ s ∈ n.submitted ∧ s.node = k ∧ s.data.confirmed = true := by
  simp [Net.confirmedAt, List.mem_filter]

/-- The confirmed requests of node `i` have the ids 1, 2, 3 and so on. -/
structure Net.NumberedAt (n : Net ι σ) (i : ι) : Prop where
  ids : (n.confirmedAt i).map Submission.id =
    (List.range (n.confirmedAt i).length).map fun m => UInt8.ofNat (m + 1)
  world : (n.world i).Numbered (n.confirmedAt i).length

theorem Net.confirmedAt_next (n : Net ι σ) (i : ι) (act : NodeAct) (t : TaskLocals) (w : World σ)
    (k : ι) : (n.next i act t w).confirmedAt k = n.confirmedAt k ++
      (act.submission i (n.world i)).filter fun s => s.node = k && s.data.confirmed :=
  List.filter_append _ _

theorem Net.NumberedAt.keeps (h : n.NumberedAt k) (hsame : n'.confirmedAt k = n.confirmedAt k)
    (hkeeps : KeepsIds (n.world k) (n'.world k)) : n'.NumberedAt k := by
  refine ⟨?_, ?_⟩
  · rw [hsame]
    exact h.ids
  · rw [hsame]
    exact hkeeps.numbered h.world

theorem netStep_numbered (hu : ∀ i, (site i).umtp ≠ 0) {a : ι × NodeAct} (h : n.NumberedAt k)
    (hstep : NetStep site arrives n a n') (hle : (n'.confirmedAt k).length ≤ 255) :
    n'.NumberedAt k := by
  obtain ⟨i, act⟩ := a
  obtain ⟨hv, -, t, w, hrun, rfl⟩ := hstep
  by_cases hk : k = i
  · subst hk
    have hworld : (n.next k act t w).world k = w := Function.update_self _ _ _
    by_cases hact : ∃ dst d, act = .submit dst d
    · obtain ⟨dst, d, rfl⟩ := hact
      obtain ⟨r, u, hsubmit, hret⟩ := of_bind_ok hrun
      cases hret
      have hnext := n.confirmedAt_next k (.submit dst d) (n.task k) w k
      cases hc : d.confirmed with
      | false =>
        apply h.keeps
        · rw [hnext]
          simp [NodeAct.submission, hc]
        · rw [hworld]
          exact umtpApduSubmit_keepsIds (hu k) hv hc hsubmit
      | true =>
        have hone : (n.next k (.submit dst d) (n.task k) w).confirmedAt k =
            n.confirmedAt k ++ [⟨k, dst, d, (n.world k).grantedId d⟩] := by
          rw [hnext]
          simp [NodeAct.submission, hc]
        have hlen : ((n.next k (.submit dst d) (n.task k) w).confirmedAt k).length =
            (n.confirmedAt k).length + 1 := by
          rw [hone, List.length_append, List.length_singleton]
        have hlt : (n.confirmedAt k).length < 255 := hlen.symm.trans_le hle
        obtain ⟨hid, hnumbered⟩ := h.world.submit (hu k) hv hc hlt hsubmit
        refine ⟨?_, ?_⟩
        · rw [hlen, hone, List.map_append, h.ids, List.range_succ, List.map_append]
          simp [hid]
        · rw [hlen, hworld]
          exact hnumbered
    · apply h.keeps
      · rw [n.confirmedAt_next]
        cases act with
        | submit dst d => exact absurd ⟨dst, d, rfl⟩ hact
        | receive => exact List.append_nil _
        | handleQueued => exact List.append_nil _
        | sendQueued => exact List.append_nil _
      · rw [hworld]
        exact (NodeAct.exec_moves handlerFrame_keepsIds (fun _ _ => keepsIds_of_eq rfl)
          umtpSessionProcess_keepsIds (fun dst d he => hact ⟨dst, d, he⟩) _ _).of_ok hrun
  · apply h.keeps
    · rw [n.confirmedAt_next]
      cases act <;> simp [NodeAct.submission, Ne.symm hk]
    · have hworld : (n.next i act t w).world k = n.world k := Function.update_of_ne hk _ _
      exact keepsIds_of_eq (by rw [hworld])

theorem Net.Started.numbered {types : ι → List (ServiceType σ)} (h : n.Started types) (i : ι) :
    n.NumberedAt i := by
  have hnone : n.confirmedAt i = [] := by rw [Net.confirmedAt, h.submitted, List.filter_nil]
  refine ⟨by rw [hnone]; rfl, ?_⟩
  rw [hnone]
  refine ⟨by rw [h.sessions i]; rfl, fun j => ?_⟩
  rw [h.sessions i]
  exact Nat.le_refl 0

theorem netRun_numbered {types : ι → List (ServiceType σ)} (hu : ∀ i, (site i).umtp ≠ 0)
    {n₀ : Net ι σ} (h₀ : n₀.Started types) {acts : List (ι × NodeAct)}
    (hr : Run (NetStep site arrives) n₀ acts n) (hle : (n.confirmedAt k).length ≤ 255) :
    n.NumberedAt k := by
  refine hr.invariant (fun n => (n.confirmedAt k).length ≤ 255 → n.NumberedAt k) ?_
    (fun _ => h₀.numbered k) hle
  intro n a n' h hstep hle'
  have hbefore : (n.confirmedAt k).length ≤ (n'.confirmedAt k).length := by
    obtain ⟨-, -, t, w, -, rfl⟩ := hstep
    rw [n.confirmedAt_next, List.length_append]
    exact Nat.le_add_right _ _
  exact netStep_numbered hu (h (hbefore.trans hle')) hstep hle'

theorem netRun_confirmedAt {n₀ : Net ι σ} (h₀ : n₀.submitted = []) {acts : List (ι × NodeAct)}
    (hr : Run (NetStep site arrives) n₀ acts n) : (n.confirmedAt k).length ≤ acts.length := by
  apply hr.history (fun acts n => (n.confirmedAt k).length ≤ acts.length)
  · simp [Net.confirmedAt, h₀]
  · rintro as ⟨i, act⟩ n n' - hle ⟨-, -, t, w, -, rfl⟩
    have hadded := (List.length_filter_le (fun s => s.node = k && s.data.confirmed)
      (act.submission i (n.world i))).trans (act.submission_length i (n.world i))
    rw [n.confirmedAt_next, List.length_append, List.length_append, List.length_singleton]
    exact Nat.add_le_add hle hadded

theorem Net.NumberedAt.unique (h : n.NumberedAt k) (hle : (n.confirmedAt k).length ≤ 255)
    {s s' : Submission ι} (hs : s ∈ n.confirmedAt k) (hs' : s' ∈ n.confirmedAt k)
    (hid : s.id = s'.id) : s = s' := by
  have hnodup : ((n.confirmedAt k).map Submission.id).Nodup := by
    rw [h.ids]
    apply List.nodup_range.map_on
    intro a ha b hb hab
    rw [List.mem_range] at ha hb
    exact Nat.succ_injective (uint8_ofNat_injective (by omega) (by omega) hab)
  exact List.inj_on_of_nodup_map hnodup hs hs' hid

structure Net.Keeps (n : Net ι σ) (i : ι) (x : Session) (s : Submission ι) : Prop where
  mem : s ∈ n.submitted
  node : s.node = i
  dst : s.dst = x.dest
  request : x.KeepsRequest s.data s.id

theorem Net.Keeps.confirmedAt {x : Session} {s : Submission ι} (h : n.Keeps k x s) :
    s ∈ n.confirmedAt k := Net.mem_confirmedAt.mpr ⟨h.mem, h.node, h.request.confirmed⟩

theorem Net.NumberedAt.sessionOf (h : n.NumberedAt k) (hle : (n.confirmedAt k).length ≤ 255)
    {s : Submission ι} (hs : s ∈ n.submitted) (hk : s.node = k) {slot : Fin maxUmtpSession}
    {x : Session} (hsession : n.SessionOf k s (some (slot, x))) :
    n.Keeps k x s ∧ ∀ s', n.Keeps k x s' → s' = s := by
  obtain ⟨hc, s', hs', hk', hdst, hid, hkeeps⟩ := hsession slot x rfl
  have hconfirmed : s ∈ n.confirmedAt k := Net.mem_confirmedAt.mpr ⟨hs, hk, hc⟩
  have hx : n.Keeps k x s' := ⟨hs', hk', hdst, hkeeps⟩
  obtain rfl := h.unique hle hx.confirmedAt hconfirmed hid
  refine ⟨hx, fun s'' hx' => h.unique hle hx'.confirmedAt hconfirmed ?_⟩
  exact hx'.request.sessionId.symm.trans hx.request.sessionId

end

section

variable {site : ι → Site} {address : ι → SockAddr} {route : SockAddr → ι → Prop}
  {types : ι → List (ServiceType σ)}

end

end Umtp
