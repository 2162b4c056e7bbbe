import Umtp.SessionTable

/-! The loop in `umtp_free_session`: that it ends, and in which order it hands out the ids. -/

set_option autoImplicit false

namespace Umtp
open CheckedBuffer StateExcept FiniteRun

theorem umtpFreeSession_rounds (t : UInt32) {s : SessionState} {free : Fin maxUmtpSession}
    (hfree : sessionGetIndex s 0 = some free) :
    ∃ c : UInt32, c.toUInt8 ≠ 0 ∧ (∀ i, (s.session i).sessionId ≠ c.toUInt8) ∧
      ∃ s', s'.sessionId = nextSessionId c ∧ umtpFreeSession t s = (s', c.toUInt8) ∧
        ∀ rounds, 257 ≤ rounds →
          FuelLoop.run (freeSessionRound t) rounds s = some (s', c.toUInt8) := by
  obtain ⟨c, hunused, hrun⟩ := freeSession_ends t hfree (Nat.le_succ 256)
  have hc : c.toUInt8 ≠ 0 := by
    rw [← sessionGetIndex_some hfree]
    exact (hunused free).symm
  refine ⟨c, hc, hunused, _, rfl, ?_, fun rounds hr => FuelLoop.run_mono hr hrun⟩
  unfold umtpFreeSession
  split
  · rename_i hnone
    rw [hfree] at hnone
    contradiction
  · simp only [hrun, Option.get_some]

/-- While a slot is free, 257 rounds are enough, from whatever value of the counter; with no
slot free the loop is not entered. -/
theorem free_session_terminates (t : UInt32) (s : SessionState) :
    ((∀ i, (s.session i).sessionId ≠ 0) ∧ umtpFreeSession t s = (s, 0)) ∨
      (∃ i, (s.session i).sessionId = 0) ∧
        ∃ c : UInt32, c.toUInt8 ≠ 0 ∧ (∀ i, (s.session i).sessionId ≠ c.toUInt8) ∧
          ∃ s', s'.sessionId = nextSessionId c ∧ umtpFreeSession t s = (s', c.toUInt8) ∧
            ∀ rounds, 257 ≤ rounds →
              FuelLoop.run (freeSessionRound t) rounds s = some (s', c.toUInt8) := by
  cases hfree : sessionGetIndex s 0 with
  | none => exact .inl ⟨sessionGetIndex_none.mp hfree, umtpFreeSession_full hfree⟩
  | some free =>
    exact .inr ⟨⟨free, sessionGetIndex_some hfree⟩, umtpFreeSession_rounds t hfree⟩

inductive IdEvent where
  | inUse (id : UInt8)
  | granted (id : UInt8)
  deriving DecidableEq

def IdEvent.id : IdEvent → UInt8
  | .inUse id => id
  | .granted id => id

/-- The ids that the loop passes over, in the rounds it has. -/
def idsPassed : Nat → SessionState → List IdEvent
  | 0, _ => []
  | rounds + 1, s =>
    match sessionGetIndex s s.sessionId.toUInt8 with
    | some _ => .inUse s.sessionId.toUInt8 ::
        idsPassed rounds { s with sessionId := nextSessionId s.sessionId }
    | none => []

/-- What `umtp_free_session` adds to the history of ids when it returns `id`. -/
def triedIds (s : SessionState) (id : UInt8) : List IdEvent :=
  if id = 0 then [] else idsPassed 257 s ++ [.granted id]

/-- The counter goes up by one for each id that is tried. -/
inductive CountsUp : UInt32 → List IdEvent → UInt32 → Prop where
  | nil (c : UInt32) : CountsUp c [] c
  | cons {c d : UInt32} {e : IdEvent} {es : List IdEvent} (he : e.id = c.toUInt8)
      (h : CountsUp (nextSessionId c) es d) : CountsUp c (e :: es) d

theorem CountsUp.append {c d e : UInt32} {es fs : List IdEvent} (h : CountsUp c es d)
    (h' : CountsUp d fs e) : CountsUp c (es ++ fs) e := by
  induction h with
  | nil c => exact h'
  | cons he _ ih => exact .cons he (ih h')

theorem CountsUp.split {c d : UInt32} {es fs : List IdEvent} (h : CountsUp c (es ++ fs) d) :
    ∃ m, CountsUp c es m ∧ CountsUp m fs d := by
  induction es generalizing c with
  | nil => exact ⟨c, .nil c, h⟩
  | cons e es ih =>
    cases h with
    | cons he h =>
      obtain ⟨m, h₁, h₂⟩ := ih h
      exact ⟨m, .cons he h₁, h₂⟩

theorem idDistance_order {x y : UInt8} {c : UInt32} (hx : x ≠ 0) (hy : y ≠ 0)
    (hlt : idDistance y c < idDistance x c) (hne : c.toUInt8 ≠ y) :
    idDistance y (nextSessionId c) < idDistance x (nextSessionId c) := by
  have hx' : x.toNat ≠ 0 := fun e => hx (UInt8.toNat_inj.mp e)
  have hy' : y.toNat ≠ 0 := fun e => hy (UInt8.toNat_inj.mp e)
  have hne' : c.toUInt8.toNat ≠ y.toNat := fun e => hne (UInt8.toNat_inj.mp e)
  have h1 := x.toNat_lt
  have h2 := y.toNat_lt
  have h3 := c.toUInt8.toNat_lt
  unfold idDistance at hlt ⊢
  rw [UInt8.toNat_sub, UInt8.toNat_sub] at hlt
  rcases nextSessionId_toUInt8 c with h | ⟨hwrap, h⟩
  · rw [h, UInt8.toNat_sub, UInt8.toNat_sub, UInt8.toNat_add]
    simp only [UInt8.reduceToNat]
    omega
  · have hw := congrArg UInt8.toNat hwrap
    rw [UInt8.toNat_add] at hw
    rw [h, UInt8.toNat_sub, UInt8.toNat_sub]
    simp only [UInt8.reduceToNat] at hw ⊢
    omega

theorem idDistance_after {x y : UInt8} {c : UInt32} (hx : c.toUInt8 = x) (hy : y ≠ 0)
    (hxy : y ≠ x) : idDistance y (nextSessionId c) < idDistance x (nextSessionId c) := by
  have hy' : y.toNat ≠ 0 := fun e => hy (UInt8.toNat_inj.mp e)
  have hxy' : y.toNat ≠ x.toNat := fun e => hxy (UInt8.toNat_inj.mp e)
  have h1 := x.toNat_lt
  have h2 := y.toNat_lt
  unfold idDistance
  rcases nextSessionId_toUInt8 c with h | ⟨hwrap, h⟩
  · rw [h, hx, UInt8.toNat_sub, UInt8.toNat_sub, UInt8.toNat_add]
    simp only [UInt8.reduceToNat]
    omega
  · rw [hx] at hwrap
    have hw := congrArg UInt8.toNat hwrap
    rw [UInt8.toNat_add] at hw
    rw [h, UInt8.toNat_sub, UInt8.toNat_sub]
    simp only [UInt8.reduceToNat] at hw ⊢
    omega

/-- On the way to `x` the counter comes past every id that is nearer. -/
theorem CountsUp.passes {x y : UInt8} (hx : x ≠ 0) (hy : y ≠ 0) {c d : UInt32}
    {es : List IdEvent} (h : CountsUp c es d) (hd : d.toUInt8 = x)
    (hlt : idDistance y c < idDistance x c) : ∃ e ∈ es, e.id = y := by
  induction h with
  | nil c =>
    have hzero : idDistance x c = 0 := by simp [idDistance, hd]
    omega
  | @cons c d e es he _ ih =>
    by_cases hc : c.toUInt8 = y
    · exact ⟨e, by simp, he.trans hc⟩
    · obtain ⟨f, hf, hfy⟩ := ih hd (idDistance_order hx hy hlt hc)
      exact ⟨f, by simp [hf], hfy⟩

theorem CountsUp.between {c d : UInt32} {before es after : List IdEvent} {x : UInt8} (hx : x ≠ 0)
    (h : CountsUp c (before ++ .granted x :: es ++ .granted x :: after) d) {y : UInt8} (hy : y ≠ 0)
    (hxy : y ≠ x) : ∃ e ∈ es, e.id = y := by
  rw [List.append_assoc] at h
  obtain ⟨m, -, h⟩ := h.split
  cases h with
  | cons hm h =>
    obtain ⟨n, hes, h⟩ := h.split
    cases h with
    | cons hn _ => exact hes.passes hx hy hn.symm (idDistance_after hm.symm hy hxy)

theorem idsPassed_inUse {rounds : Nat} {s : SessionState} {e : IdEvent}
    (he : e ∈ idsPassed rounds s) : ∃ i, e = .inUse (s.session i).sessionId := by
  induction rounds generalizing s with
  | zero => cases he
  | succ rounds ih =>
    unfold idsPassed at he
    split at he
    · rename_i i hi
      rcases List.mem_cons.mp he with rfl | he
      · exact ⟨i, by rw [sessionGetIndex_some hi]⟩
      · exact ih (s := { s with sessionId := nextSessionId s.sessionId }) he
    · cases he

theorem freeSession_countsUp {t : UInt32} {rounds : Nat} {s s' : SessionState} {id : UInt8}
    (hfree : sessionGetIndex s 0 ≠ none)
    (h : FuelLoop.run (freeSessionRound t) rounds s = some (s', id)) :
    CountsUp s.sessionId (idsPassed rounds s ++ [.granted id]) s'.sessionId := by
  induction rounds generalizing s with
  | zero => simp [FuelLoop.run] at h
  | succ rounds ih =>
    cases hi : sessionGetIndex s s.sessionId.toUInt8 with
    | some i =>
      have hround : freeSessionRound t s = .inl { s with sessionId := nextSessionId s.sessionId } := by
        simp [freeSessionRound, hi]
      rw [FuelLoop.run_again hround] at h
      have hfree' : sessionGetIndex { s with sessionId := nextSessionId s.sessionId } 0 ≠ none :=
        hfree
      simp only [idsPassed, hi]
      exact .cons rfl (ih hfree' h)
    | none =>
      obtain ⟨free, hfree⟩ := Option.ne_none_iff_exists'.mp hfree
      have hround : freeSessionRound t s =
          .inr ({ s.modifySlot free (Session.granted s.sessionId.toUInt8 t) with
            sessionId := nextSessionId s.sessionId }, s.sessionId.toUInt8) := by
        simp [freeSessionRound, hi, hfree, SessionState.modifySlot]
      rw [FuelLoop.run_leave hround] at h
      cases h
      simp only [idsPassed, hi]
      exact .cons rfl (.nil _)

theorem umtpFreeSession_countsUp (t : UInt32) (s : SessionState) :
    CountsUp s.sessionId (triedIds s (umtpFreeSession t s).2) (umtpFreeSession t s).1.sessionId := by
  cases hfree : sessionGetIndex s 0 with
  | none =>
    rw [umtpFreeSession_full hfree]
    exact .nil _
  | some free =>
    obtain ⟨c, hc, -, s', -, hcall, hrun⟩ := umtpFreeSession_rounds t hfree
    have hne : sessionGetIndex s 0 ≠ none := by simp [hfree]
    rw [hcall, triedIds, if_neg hc]
    exact freeSession_countsUp hne (hrun 257 (Nat.le_refl _))

theorem umtpSessionClear_counter (id : UInt8) (s : SessionState) :
    (umtpSessionClear id s).sessionId = s.sessionId := by
  unfold umtpSessionClear
  split <;> rfl

def SameCounter {σ : Type} (w w' : World σ) : Prop := w'.sessions.sessionId = w.sessions.sessionId

instance {σ : Type} : Std.Refl (@SameCounter σ) := ⟨fun _ => rfl⟩

instance {σ : Type} : IsTrans (World σ) SameCounter := ⟨fun _ _ _ h h' => h'.trans h⟩

theorem umtpSessionProcess_counter {σ : Type} (ms : UInt16) :
    Moves (@SameCounter σ) (umtpSessionProcess ms) := by
  apply moves_forM
  intro i _
  constructor
  intro w
  obtain ⟨x, -, hfinal⟩ := processSlot_sessions ms i w
  show (final ((processSlot ms i).run w)).sessions.sessionId = w.sessions.sessionId
  rw [hfinal]
  rfl

theorem sessionSet_counter {σ : Type} (id : UInt8) (timeout : Option TimeoutFn) (data : Ref)
    (dest : UmtpAddr) (pdu : Ptr) (pduLen : UInt16) :
    Moves (@SameCounter σ) (sessionSet id timeout data dest pdu pduLen) := by
  constructor
  intro w
  rw [SameCounter, sessionSet_run, onSessions_final]
  rcases umtpSessionSet_final w.apduTimeout id timeout data dest pdu pduLen w.sessions with
    hf | ⟨i, x, -, -, -, hf⟩
  · rw [hf]
  · rw [hf]
    rfl

/-- A call on the table, and what it adds to the history: the ids in use that
`umtp_free_session` has passed over, and the one it has returned. -/
inductive IdStep (σ : Type) :
    SessionState × List IdEvent → SessionCall → SessionState × List IdEvent → Prop where
  | freeSession {w w' : World σ} {id : UInt8} (es : List IdEvent) :
      freeSession.run w = .ok id w' →
      IdStep σ (w.sessions, es) .freeSession (w'.sessions, es ++ triedIds w.sessions id)
  | other {s s' : SessionState} {c : SessionCall} (es : List IdEvent) :
      c ≠ .freeSession → SessionStep σ s c s' → IdStep σ (s, es) c (s', es)

theorem sessionStep_sameCounter {σ : Type} {s s' : SessionState} {c : SessionCall}
    (hc : c ≠ .freeSession) (h : SessionStep σ s c s') : s'.sessionId = s.sessionId := by
  obtain ⟨w, w', rfl, hrun, rfl⟩ := h
  cases c with
  | freeSession => exact absurd rfl hc
  | set id timeout data dest pdu pduLen =>
    exact (sessionSet_counter id timeout data dest pdu pduLen).of_ok hrun
  | process ms => exact (umtpSessionProcess_counter ms).of_ok hrun
  | clear id =>
    cases hrun
    exact umtpSessionClear_counter id w.sessions

theorem idRun_countsUp {σ : Type} {s₀ : SessionState} {cs : List SessionCall}
    {b : SessionState × List IdEvent} (hr : Run (IdStep σ) (s₀, []) cs b) :
    CountsUp s₀.sessionId b.2 b.1.sessionId := by
  apply hr.invariant (fun b => CountsUp s₀.sessionId b.2 b.1.sessionId)
  · intro a c b ha hstep
    cases hstep with
    | @freeSession w w' id es hrun =>
      cases hrun
      exact ha.append (umtpFreeSession_countsUp w.apduTimeout w.sessions)
    | other es hc h => exact sessionStep_sameCounter hc h ▸ ha
  · exact .nil _

/-- Between two grants of one id every other id has been granted, or tried while in use. -/
theorem session_ids_recycled {σ : Type} {s₀ s : SessionState} {cs : List SessionCall}
    {before between after : List IdEvent} {x y : UInt8}
    (hr : Run (IdStep σ) (s₀, []) cs
      (s, before ++ .granted x :: between ++ .granted x :: after))
    (hx : x ≠ 0) (hy : y ≠ 0) (hxy : y ≠ x) :
    .granted y ∈ between ∨ .inUse y ∈ between := by
  obtain ⟨e, he, rfl⟩ := (idRun_countsUp hr).between hx hy hxy
  cases e with
  | inUse id => exact .inr he
  | granted id => exact .inl he

/-- A table with one slot free, in which 255 is the only id that no slot has. -/
def SessionState.Crowded (s : SessionState) : Prop :=
  ∀ i, (s.session i).sessionId = if i.val < 254 then UInt8.ofNat (i.val + 1) else 0

theorem SessionState.Crowded.unused {s : SessionState} (hs : s.Crowded) {id : UInt8}
    (h : ∀ i, (s.session i).sessionId ≠ id) : id = 255 := by
  by_contra hne
  have hlt := id.toNat_lt
  have hmax : maxUmtpSession = 255 := rfl
  have hne' : id.toNat ≠ 255 := fun e => hne (UInt8.toNat_inj.mp e)
  by_cases h0 : id.toNat = 0
  · exact h ⟨254, by decide⟩ ((hs _).trans (UInt8.toNat_inj.mp h0.symm))
  · have hheld := hs ⟨id.toNat - 1, by omega⟩
    rw [if_pos (by simp; omega)] at hheld
    apply h ⟨id.toNat - 1, by omega⟩
    rw [hheld, Nat.sub_add_cancel (by omega), UInt8.ofNat_toNat]

theorem SessionState.Crowded.grant {s : SessionState} (hs : s.Crowded) (t : UInt32) :
    (umtpFreeSession t s).2 = 255 ∧ (umtpSessionClear 255 (umtpFreeSession t s).1).Crowded := by
  have hfull : (umtpFreeSession t s).2 ≠ 0 := fun h =>
    (umtpFreeSession_spec t s).full.mp h ⟨254, by decide⟩ (hs ⟨254, by decide⟩)
  have hid : (umtpFreeSession t s).2 = 255 := hs.unused ((umtpFreeSession_spec t s).unused hfull)
  obtain ⟨i, c, hfree, -, htable, hindex⟩ := umtpFreeSession_grant hfull
  rw [hid] at htable hindex
  refine ⟨hid, ?_⟩
  intro j
  rw [umtpSessionClear, hindex, htable, ← hs j]
  by_cases hj : j = i
  · subst hj
    simp [SessionState.modifySlot, Session.released, hfree]
  · simp [SessionState.modifySlot, hj]

def crowdedTable : SessionState :=
  ⟨1, fun i => { Session.zero with sessionId := if i.val < 254 then UInt8.ofNat (i.val + 1) else 0 }⟩

theorem idStep_freeSession (s : SessionState) (es : List IdEvent) :
    IdStep Unit (s, es) .freeSession
      ((umtpFreeSession 3000 s).1, es ++ triedIds s (umtpFreeSession 3000 s).2) :=
  .freeSession (w := { World.init () with sessions := s }) es rfl

theorem idStep_clear (s : SessionState) (es : List IdEvent) (id : UInt8) :
    IdStep Unit (s, es) (.clear id) (umtpSessionClear id s, es) :=
  .other es (by simp) ⟨{ World.init () with sessions := s }, _, rfl, rfl, rfl⟩

theorem session_ids_recycled_crowded :
    ∃ s before between, Run (IdStep Unit) (crowdedTable, [])
        [.freeSession, .clear 255, .freeSession]
        (s, before ++ .granted 255 :: between ++ .granted 255 :: []) ∧
      (.granted 7 ∈ between ∨ .inUse 7 ∈ between) := by
  have hs : crowdedTable.Crowded := by
    intro i
    simp [crowdedTable]
  obtain ⟨hfirst, hs'⟩ := hs.grant 3000
  obtain ⟨hsecond, -⟩ := hs'.grant 3000
  have hr := ((Run.nil.snoc (idStep_freeSession crowdedTable [])).snoc
    (idStep_clear _ _ 255)).snoc (idStep_freeSession _ _)
  have hne : ¬ (255 : UInt8) = 0 := by decide
  have hlog : ∀ before between : List IdEvent,
      [] ++ (before ++ [.granted 255]) ++ (between ++ [.granted 255]) =
        before ++ .granted 255 :: between ++ .granted 255 :: [] := by simp
  rw [hfirst, hsecond, triedIds, triedIds, if_neg hne, if_neg hne, hlog] at hr
  exact ⟨_, _, _, hr, session_ids_recycled hr (by decide) (by decide) (by decide)⟩

end Umtp
