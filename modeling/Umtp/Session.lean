import Umtp.Kit.FuelLoop
import Umtp.Machine
import Mathlib.Data.Fintype.Card
import Mathlib.Data.List.FinRange

/-! `session.c`: the table of outstanding confirmed requests. What `umtp_session_process`
sends and reports is in `SessionProcess`; here are the functions that only touch the table. -/

set_option autoImplicit false

namespace Umtp
open CheckedBuffer

/-- The only function the library ever stores in a session's `timeout` pointer. -/
inductive TimeoutFn where
  | apduTimeoutHandler
  deriving DecidableEq, Repr

structure Session where
  sessionId : UInt8
  waiting : Bool
  retry : UInt8
  timer : UInt32
  timeout : Option TimeoutFn
  dest : UmtpAddr
  pdu : Buf UInt8 maxPdu
  pduLen : UInt16
  data : Ref
  deriving DecidableEq

def Session.zero : Session :=
  ⟨0, false, 0, 0, none, UmtpAddr.zero, Buf.fill maxPdu 0, 0, 0⟩

def Session.granted (id : UInt8) (timer : UInt32) (x : Session) : Session :=
  { x with sessionId := id, waiting := false, timer }

def Session.armed (timer : UInt32) (timeout : Option TimeoutFn) (data : Ref) (x : Session) :
    Session :=
  { x with waiting := true, retry := 0, timer, timeout, data }

def Session.stored (pdu : Buf UInt8 maxPdu) (pduLen : UInt16) (dest : UmtpAddr) (x : Session) :
    Session :=
  { x with pdu, pduLen, dest }

def Session.released (x : Session) : Session := { x with waiting := false, sessionId := 0 }

/-- The two static variables of `session.c`. The `int` counter wraps at 32 bits; as only
its low byte and its being 0 matter, it is kept unsigned. -/
structure SessionState where
  sessionId : UInt32
  session : Fin maxUmtpSession → Session

def SessionState.init : SessionState := ⟨1, fun _ => Session.zero⟩

def SessionState.modifySlot (s : SessionState) (i : Fin maxUmtpSession) (f : Session → Session) :
    SessionState :=
  { s with session := Function.update s.session i (f (s.session i)) }

/-- `none` is the source's MAX_UMTP_SESSION. -/
def sessionGetIndex (s : SessionState) (id : UInt8) : Option (Fin maxUmtpSession) :=
  (List.finRange maxUmtpSession).find? (fun i => (s.session i).sessionId == id)

def nextSessionId (c : UInt32) : UInt32 := if c + 1 = 0 then 1 else c + 1

def freeSessionRound (apduTimeout : UInt32) (s : SessionState) :
    SessionState ⊕ (SessionState × UInt8) :=
  match sessionGetIndex s s.sessionId.toUInt8 with
  | some _ => .inl { s with sessionId := nextSessionId s.sessionId }
  | none =>
    match sessionGetIndex s 0 with
    | some idx =>
      let id := s.sessionId.toUInt8
      let s := s.modifySlot idx (Session.granted id apduTimeout)
      .inr ({ s with sessionId := nextSessionId s.sessionId }, id)
    | none => .inr (s, 0)

@[simp] theorem SessionState.modifySlot_same (s : SessionState) (i : Fin maxUmtpSession)
    (f : Session → Session) : (s.modifySlot i f).session i = f (s.session i) := by
  simp [modifySlot]

theorem SessionState.modifySlot_other (s : SessionState) {i j : Fin maxUmtpSession} (h : j ≠ i)
    (f : Session → Session) : (s.modifySlot i f).session j = s.session j := by
  simp [modifySlot, h]

@[simp] theorem SessionState.modifySlot_modifySlot (s : SessionState) (i : Fin maxUmtpSession)
    (f g : Session → Session) :
    (s.modifySlot i f).modifySlot i g = s.modifySlot i (fun x => g (f x)) := by
  simp [modifySlot]

theorem SessionState.modifySlot_self (s : SessionState) (i : Fin maxUmtpSession) :
    s.modifySlot i (fun _ => s.session i) = s := by
  simp [modifySlot]

theorem sessionGetIndex_none {s : SessionState} {id : UInt8} :
    sessionGetIndex s id = none ↔ ∀ i, (s.session i).sessionId ≠ id := by
  simp [sessionGetIndex]

theorem sessionGetIndex_some {s : SessionState} {id : UInt8} {i : Fin maxUmtpSession}
    (h : sessionGetIndex s id = some i) : (s.session i).sessionId = id := by
  have := List.find?_some h
  simpa using this

theorem sessionGetIndex_congr {s t : SessionState} (id : UInt8)
    (h : ∀ i, (s.session i).sessionId = (t.session i).sessionId) :
    sessionGetIndex s id = sessionGetIndex t id := by
  simp [sessionGetIndex, h]

theorem uint8_ofNat_injective {m k : Nat} (hm : m < 256) (hk : k < 256)
    (h : UInt8.ofNat m = UInt8.ofNat k) : m = k := by
  have h' := congrArg UInt8.toNat h
  rwa [UInt8.toNat_ofNat', UInt8.toNat_ofNat', Nat.mod_eq_of_lt hm, Nat.mod_eq_of_lt hk] at h'

theorem exists_unused_id (s : SessionState) : ∃ id, ∀ i, (s.session i).sessionId ≠ id := by
  by_contra hall
  push Not at hall
  choose slot hslot using hall
  have hinj : Function.Injective (fun k : Fin 256 => slot (UInt8.ofNat k.val)) := by
    intro a b hab
    have h := (hslot (UInt8.ofNat a.val)).symm.trans
      ((congrArg (fun i => (s.session i).sessionId) hab).trans (hslot (UInt8.ofNat b.val)))
    exact Fin.ext (uint8_ofNat_injective a.isLt b.isLt h)
  have hcard := Fintype.card_le_of_injective _ hinj
  rw [Fintype.card_fin, Fintype.card_fin] at hcard
  exact absurd hcard (by decide)

theorem nextSessionId_toUInt8 (c : UInt32) :
    (nextSessionId c).toUInt8 = c.toUInt8 + 1 ∨
      c.toUInt8 + 1 = 0 ∧ (nextSessionId c).toUInt8 = 1 := by
  unfold nextSessionId
  split
  · rename_i h
    right
    have hw := congrArg UInt32.toUInt8 h
    rw [UInt32.toUInt8_add] at hw
    exact ⟨hw, rfl⟩
  · left
    simp

/-- How far the counter's low byte is from an id, counting up. -/
def idDistance (id : UInt8) (c : UInt32) : Nat := (id - c.toUInt8).toNat

theorem idDistance_next {id : UInt8} {c : UInt32} (hid : id ≠ 0) (hne : c.toUInt8 ≠ id) :
    idDistance id (nextSessionId c) < idDistance id c := by
  have hid' : id.toNat ≠ 0 := fun e => hid (UInt8.toNat_inj.mp e)
  have hne' : c.toUInt8.toNat ≠ id.toNat := fun e => hne (UInt8.toNat_inj.mp e)
  have h1 := id.toNat_lt
  have h2 := c.toUInt8.toNat_lt
  unfold idDistance
  rcases nextSessionId_toUInt8 c with h | ⟨hwrap, h⟩
  · rw [h, UInt8.toNat_sub, UInt8.toNat_sub, UInt8.toNat_add]
    simp only [UInt8.reduceToNat]
    omega
  · have hw := congrArg UInt8.toNat hwrap
    rw [UInt8.toNat_add] at hw
    rw [h, UInt8.toNat_sub, UInt8.toNat_sub]
    simp only [UInt8.reduceToNat] at hw ⊢
    omega

theorem idDistance_lt (id : UInt8) (c : UInt32) : idDistance id c < 256 :=
  (id - c.toUInt8).toNat_lt

theorem freeSessionRound_again {t : UInt32} {s s' : SessionState}
    (h : freeSessionRound t s = .inl s') :
    (∃ i, (s.session i).sessionId = s.sessionId.toUInt8) ∧
      s' = { s with sessionId := nextSessionId s.sessionId } := by
  unfold freeSessionRound at h
  split at h
  · rename_i i hi
    cases h
    exact ⟨⟨i, sessionGetIndex_some hi⟩, rfl⟩
  · split at h <;> cases h

/-- With a free slot the loop leaves within 256 rounds. The free slot keeps residue 0 from
being taken for unused, and the counter reaches an unused id before it comes round. -/
theorem freeSession_ends (t : UInt32) {s : SessionState} {free : Fin maxUmtpSession}
    (hfree : sessionGetIndex s 0 = some free) {rounds : Nat} (hrounds : 256 ≤ rounds) :
    ∃ c, (∀ i, (s.session i).sessionId ≠ c.toUInt8) ∧
      FuelLoop.run (freeSessionRound t) rounds s =
        some ({ s.modifySlot free (Session.granted c.toUInt8 t) with
          sessionId := nextSessionId c }, c.toUInt8) := by
  obtain ⟨id, hid⟩ := exists_unused_id s
  have hid0 : id ≠ 0 := by
    rintro rfl
    exact hid free (sessionGetIndex_some hfree)
  have hround : ∀ u u' : SessionState, u.session = s.session → freeSessionRound t u = .inl u' →
      u'.session = s.session ∧ idDistance id u'.sessionId < idDistance id u.sessionId := by
    intro u u' hu h
    obtain ⟨⟨i, hi⟩, rfl⟩ := freeSessionRound_again h
    have hne : u.sessionId.toUInt8 ≠ id := by
      rw [← hi, hu]
      exact hid i
    exact ⟨hu, idDistance_next hid0 hne⟩
  have hμ : idDistance id s.sessionId < rounds := Nat.lt_of_lt_of_le (idDistance_lt id _) hrounds
  obtain ⟨u, r, hu, hleave, hrun⟩ := FuelLoop.run_of_measure (freeSessionRound t)
    (fun u => u.session = s.session) (fun u => idDistance id u.sessionId) hround
    (Eq.refl s.session) hμ
  have hfree' : sessionGetIndex u 0 = some free := by
    rw [← hfree]
    exact sessionGetIndex_congr 0 (fun i => by rw [hu])
  unfold freeSessionRound at hleave
  split at hleave
  · cases hleave
  · rename_i hnone
    rw [hfree'] at hleave
    refine ⟨u.sessionId, ?_, ?_⟩
    · rw [sessionGetIndex_none] at hnone
      rwa [hu] at hnone
    · rw [hrun, ← Sum.inr.inj hleave]
      simp [SessionState.modifySlot, hu]

/-- The loop is entered with a free slot only, and then it ends. -/
def umtpFreeSession (apduTimeout : UInt32) (s : SessionState) : SessionState × UInt8 :=
  match h : sessionGetIndex s 0 with
  | none => (s, 0)
  | some _ => (FuelLoop.run (freeSessionRound apduTimeout) 257 s).get (by
      obtain ⟨c, _, hrun⟩ := freeSession_ends apduTimeout h (Nat.le_succ 256)
      rw [hrun]
      rfl)

def umtpSessionSet (apduTimeout : UInt32) (id : UInt8) (timeout : Option TimeoutFn) (data : Ref)
    (dest : UmtpAddr) (pdu : Ptr) (pduLen : UInt16) : EStateM Stop SessionState Unit := do
  if id = 0 then
    return
  match sessionGetIndex (← get) id with
  | none => return
  | some idx =>
    modify fun s => s.modifySlot idx (Session.armed apduTimeout timeout data)
    let copy ← memcpy (.sessionPdu idx) ((← get).session idx).pdu 0 pdu pduLen.toNat
    modify fun s => s.modifySlot idx (Session.stored copy pduLen dest)

/-- A `struct umtp_session *` is the slot's index. -/
def umtpGetSession (s : SessionState) (id : UInt8) : Option (Fin maxUmtpSession) :=
  if id = 0 then none else sessionGetIndex s id

theorem umtpGetSession_some {s : SessionState} {id : UInt8} {i : Fin maxUmtpSession}
    (h : umtpGetSession s id = some i) : id ≠ 0 ∧ (s.session i).sessionId = id := by
  unfold umtpGetSession at h
  split at h
  · contradiction
  · rename_i hid
    exact ⟨hid, sessionGetIndex_some h⟩

/-- Unlike its siblings this one does not test `id` for 0: it may look up a free slot. -/
def umtpSessionClear (id : UInt8) (s : SessionState) : SessionState :=
  match sessionGetIndex s id with
  | some idx => s.modifySlot idx Session.released
  | none => s

theorem umtpFreeSession_full {t : UInt32} {s : SessionState} (h : sessionGetIndex s 0 = none) :
    umtpFreeSession t s = (s, 0) := by
  unfold umtpFreeSession
  split
  · rfl
  · rename_i hsome
    rw [h] at hsome
    contradiction

theorem umtpFreeSession_free (t : UInt32) {s : SessionState} {free : Fin maxUmtpSession}
    (h : sessionGetIndex s 0 = some free) :
    ∃ c : UInt32, c.toUInt8 ≠ 0 ∧ (∀ i, (s.session i).sessionId ≠ c.toUInt8) ∧
      umtpFreeSession t s = ({ s.modifySlot free (Session.granted c.toUInt8 t) with
        sessionId := nextSessionId c }, c.toUInt8) := by
  obtain ⟨c, hunused, hrun⟩ := freeSession_ends t h (Nat.le_succ 256)
  refine ⟨c, ?_, hunused, ?_⟩
  · rw [← sessionGetIndex_some h]
    exact (hunused free).symm
  · unfold umtpFreeSession
    split
    · rename_i hnone
      rw [h] at hnone
      contradiction
    · simp only [hrun, Option.get_some]

end Umtp
