import Umtp.Kit.SlotMap
import Umtp.SessionTable
import Umtp.SlotPass

/-! The session table as a map from ids to sessions, and `umtp_session_get`, which reads it. -/

set_option autoImplicit false

namespace Umtp
open CheckedBuffer StateExcept FiniteRun SlotMap

variable {σ : Type}

/-- The address, the bytes and their number go where the caller's pointers point. -/
def umtpSessionGet {n : Nat} (id : UInt8) (dest : UmtpAddr) (pdu : Buf UInt8 n) (pduLen : UInt16) :
    EStateM Stop SessionState (Bool × UmtpAddr × Buf UInt8 n × UInt16) := do
  if id = 0 then
    return (false, dest, pdu, pduLen)
  let s ← get
  match sessionGetIndex s id with
  | none => return (false, dest, pdu, pduLen)
  | some idx =>
    let x := s.session idx
    let pdu ← memcpy .application pdu 0 (x.pduPtr idx) x.pduLen.toNat
    return (true, x.dest, pdu, x.pduLen)

abbrev SessionMap := UInt8 → Option Session

def SessionState.map (s : SessionState) : SessionMap := fun id =>
  (umtpGetSession s id).map s.session

/-- A pass at a session: it goes on, or its time and its retries are over. -/
def Session.passed (ms : UInt16) (apduTimeout : UInt32) (apduRetry : UInt8) (x : Session) :
    Option Session :=
  if x.waiting = false then some x
  else if (x.ticked ms).timer ≠ 0 then some (x.ticked ms)
  else if x.retry < apduRetry then some ((x.ticked ms).retried apduTimeout)
  else none

/-- What the calls do to a map of at most 255 sessions. The session of a new id keeps what some
session before it has left. -/
inductive MapStep (apduTimeout : UInt32) (apduRetry : UInt8) :
    SessionMap → SessionCall → SessionMap → Prop where
  | granted {m : SessionMap} {id : UInt8} {x : Session} : id ≠ 0 → m id = none →
      MapStep apduTimeout apduRetry m .freeSession
        (Function.update m id (some (x.granted id apduTimeout)))
  | full {m : SessionMap} : (∀ id, id ≠ 0 → m id ≠ none) →
      MapStep apduTimeout apduRetry m .freeSession m
  | set {m : SessionMap} {id : UInt8} {x : Session} {timeout : Option TimeoutFn} {data : Ref}
      {dest : UmtpAddr} {pdu : Ptr} {pduLen : UInt16} {copy : Buf UInt8 maxPdu} :
      m id = some x → pdu.off + pduLen.toNat ≤ pdu.obj.length →
      x.pdu.write 0 (pdu.bytes.take pduLen.toNat) = some copy →
      MapStep apduTimeout apduRetry m (.set id timeout data dest pdu pduLen)
        (Function.update m id (some ((x.armed apduTimeout timeout data).stored copy pduLen dest)))
  | unset {m : SessionMap} {id : UInt8} {timeout : Option TimeoutFn} {data : Ref} {dest : UmtpAddr}
      {pdu : Ptr} {pduLen : UInt16} : m id = none →
      MapStep apduTimeout apduRetry m (.set id timeout data dest pdu pduLen) m
  | clear {m : SessionMap} {id : UInt8} :
      MapStep apduTimeout apduRetry m (.clear id) (Function.update m id none)
  | process {m : SessionMap} {ms : UInt16} :
      MapStep apduTimeout apduRetry m (.process ms)
        (fun id => (m id).bind (Session.passed ms apduTimeout apduRetry))

def Session.entry (x : Session) : Option (UInt8 × Session) :=
  if x.sessionId = 0 then none else some (x.sessionId, x)

def SessionState.slots (s : SessionState) (i : Fin maxUmtpSession) : Option (UInt8 × Session) :=
  (s.session i).entry

theorem Session.entry_some {x y : Session} {id : UInt8} :
    x.entry = some (id, y) ↔ id ≠ 0 ∧ x.sessionId = id ∧ x = y := by
  unfold entry
  split
  · rename_i h0
    constructor
    · intro h
      cases h
    · rintro ⟨hid, rfl, -⟩
      exact absurd h0 hid
  · rename_i h0
    rw [Option.some.injEq, Prod.mk.injEq]
    constructor
    · rintro ⟨rfl, rfl⟩
      exact ⟨h0, rfl, rfl⟩
    · rintro ⟨-, hid, hx⟩
      exact ⟨hid, hx⟩

theorem Session.entry_none {x : Session} : x.entry = none ↔ x.sessionId = 0 := by
  unfold entry
  split <;> simp_all

theorem SessionState.slots_modifySlot (s : SessionState) (i : Fin maxUmtpSession)
    (f : Session → Session) :
    (s.modifySlot i f).slots = Function.update s.slots i (f (s.session i)).entry := by
  funext j
  by_cases hj : j = i
  · subst hj
    rw [slots, modifySlot_same, Function.update_self]
  · rw [slots, s.modifySlot_other hj, Function.update_of_ne hj, slots]

theorem SessionState.Inv.stands {s : SessionState} (hs : s.Inv) : Stands s.slots s.map := by
  constructor
  · intro i j id x y hi hj
    obtain ⟨h0, hid, -⟩ := Session.entry_some.mp hi
    obtain ⟨-, hid', -⟩ := Session.entry_some.mp hj
    exact hs.unique i j (hid ▸ h0) (hid.trans hid'.symm)
  · intro id x
    rw [SessionState.map, Option.map_eq_some_iff]
    constructor
    · rintro ⟨i, hi, rfl⟩
      unfold umtpGetSession at hi
      split at hi
      · cases hi
      · rename_i h0
        exact ⟨i, Session.entry_some.mpr ⟨h0, sessionGetIndex_some hi, rfl⟩⟩
    · rintro ⟨i, hi⟩
      obtain ⟨h0, hid, rfl⟩ := Session.entry_some.mp hi
      rw [umtpGetSession, if_neg h0]
      cases hk : sessionGetIndex s id with
      | none => exact absurd hid (sessionGetIndex_none.mp hk i)
      | some k =>
        have hheld := sessionGetIndex_some hk
        refine ⟨k, rfl, ?_⟩
        rw [hs.unique k i (hheld ▸ h0) (hheld.trans hid.symm)]

theorem SessionState.Inv.map_eq {s : SessionState} (hs : s.Inv) {m : SessionMap}
    (h : Stands s.slots m) : s.map = m := hs.stands.map_unique h

theorem SessionState.init_map : SessionState.init.map = fun _ => none := by
  apply SessionState.init_inv.map_eq
  constructor
  · intro i j id x y hi
    cases hi
  · intro id x
    simp [slots, init, Session.zero, Session.entry]

theorem SessionState.map_zero (s : SessionState) : s.map 0 = none := rfl

theorem sessionGetIndex_entry {s : SessionState} {id : UInt8} (h0 : id ≠ 0)
    {i : Fin maxUmtpSession} (hi : sessionGetIndex s id = some i) :
    s.slots i = some (id, s.session i) :=
  Session.entry_some.mpr ⟨h0, sessionGetIndex_some hi, rfl⟩

def usableIds : Finset UInt8 := (Finset.range maxUmtpSession).image fun k => UInt8.ofNat (k + 1)

theorem usableIds_card : usableIds.card = Fintype.card (Fin maxUmtpSession) := by
  rw [usableIds, Finset.card_image_of_injOn, Finset.card_range, Fintype.card_fin]
  intro j hj k hk hjk
  have hmax : maxUmtpSession = 255 := rfl
  simp only [Finset.coe_range, Set.mem_Iio] at hj hk
  have := uint8_ofNat_injective (by omega) (by omega) hjk
  omega

theorem mem_usableIds {id : UInt8} (h0 : id ≠ 0) : id ∈ usableIds := by
  have hmax : maxUmtpSession = 255 := rfl
  have hlt := id.toNat_lt
  have hpos : id.toNat ≠ 0 := fun h => h0 (UInt8.toNat_inj.mp h)
  refine Finset.mem_image.mpr ⟨id.toNat - 1, Finset.mem_range.mpr (by omega), ?_⟩
  rw [Nat.sub_add_cancel (by omega)]
  exact UInt8.ofNat_toNat

section

variable {s : SessionState} (hs : s.Inv)

include hs

theorem umtpSessionClear_map (id : UInt8) :
    (umtpSessionClear id s).map = Function.update s.map id none := by
  have hinv := umtpSessionClear_inv hs id
  apply hinv.map_eq
  unfold umtpSessionClear
  cases hi : sessionGetIndex s id with
  | none =>
    have hnone : s.map id = none := by
      rw [SessionState.map, umtpGetSession]
      split
      · rfl
      · rw [hi]
        rfl
    simp only
    rw [← hnone, Function.update_eq_self]
    exact hs.stands
  | some i =>
    simp only [SessionState.slots_modifySlot]
    have hfree : (s.session i).released.entry = none := Session.entry_none.mpr rfl
    rw [hfree]
    by_cases h0 : id = 0
    · subst h0
      have hentry : s.slots i = none := Session.entry_none.mpr (sessionGetIndex_some hi)
      rw [← s.map_zero, Function.update_eq_self, ← hentry, Function.update_eq_self]
      exact hs.stands
    · exact hs.stands.erase (sessionGetIndex_entry h0 hi)

theorem umtpFreeSession_map (apduTimeout : UInt32) (apduRetry : UInt8) :
    MapStep apduTimeout apduRetry s.map .freeSession (umtpFreeSession apduTimeout s).1.map := by
  have hinv := umtpFreeSession_inv hs apduTimeout
  cases hfree : sessionGetIndex s 0 with
  | none =>
    rw [umtpFreeSession_full hfree]
    refine .full fun id h0 => hs.stands.full usableIds usableIds_card ?_ ?_ (mem_usableIds h0)
    · intro i id x hi
      exact mem_usableIds (Session.entry_some.mp hi).1
    · intro i hi
      exact sessionGetIndex_none.mp hfree i (Session.entry_none.mp hi)
  | some i =>
    obtain ⟨c, hc, hunused, hrun⟩ := umtpFreeSession_free apduTimeout hfree
    rw [hrun] at hinv ⊢
    have hnone : s.map c.toUInt8 = none := by
      rw [hs.stands.none_iff]
      intro j x hj
      exact hunused j (Session.entry_some.mp hj).2.1
    have hfreed : s.slots i = none := Session.entry_none.mpr (sessionGetIndex_some hfree)
    have hgranted : ((s.session i).granted c.toUInt8 apduTimeout).entry =
        some (c.toUInt8, (s.session i).granted c.toUInt8 apduTimeout) :=
      Session.entry_some.mpr ⟨hc, rfl, rfl⟩
    have hstands := hs.stands.insert hfreed hnone ((s.session i).granted c.toUInt8 apduTimeout)
    rw [← hgranted, ← SessionState.slots_modifySlot] at hstands
    rw [hinv.map_eq hstands]
    exact .granted hc hnone

theorem umtpSessionSet_map {apduTimeout : UInt32} (apduRetry : UInt8) {id : UInt8}
    {timeout : Option TimeoutFn} {data : Ref} {dest : UmtpAddr} {pdu : Ptr} {pduLen : UInt16}
    {t : SessionState}
    (hrun : (umtpSessionSet apduTimeout id timeout data dest pdu pduLen).run s = .ok () t) :
    MapStep apduTimeout apduRetry s.map (.set id timeout data dest pdu pduLen) t.map := by
  have hinv := umtpSessionSet_inv hs apduTimeout id timeout data dest pdu pduLen
  rw [hrun, final_ok] at hinv
  by_cases h0 : id = 0
  · subst h0
    simp only [umtpSessionSet, if_true] at hrun
    cases hrun
    exact .unset s.map_zero
  · cases hi : sessionGetIndex s id with
    | none =>
      simp [umtpSessionSet, h0, hi] at hrun
      subst hrun
      refine .unset ?_
      rw [SessionState.map, umtpGetSession, if_neg h0, hi]
      rfl
    | some i =>
      have hentry := sessionGetIndex_entry h0 hi
      have hheld := sessionGetIndex_some hi
      by_cases hcopy : pdu.off + pduLen.toNat ≤ pdu.obj.length
      · cases hw : (s.session i).pdu.write 0 (pdu.bytes.take pduLen.toNat) with
        | none => simp [umtpSessionSet, h0, hi, memcpy, hcopy, Session.armed, hw] at hrun
        | some copy =>
          have ht : t = s.modifySlot i
              (fun x => (x.armed apduTimeout timeout data).stored copy pduLen dest) := by
            simp [umtpSessionSet, h0, hi, memcpy, hcopy, Session.armed, hw] at hrun
            exact hrun.symm
          subst ht
          have hset : (((s.session i).armed apduTimeout timeout data).stored copy pduLen dest).entry =
              some (id, ((s.session i).armed apduTimeout timeout data).stored copy pduLen dest) :=
            Session.entry_some.mpr ⟨h0, hheld, rfl⟩
          have hstands := hs.stands.assign hentry
            (((s.session i).armed apduTimeout timeout data).stored copy pduLen dest)
          rw [← hset] at hstands
          have hslots := s.slots_modifySlot i
            (fun x => (x.armed apduTimeout timeout data).stored copy pduLen dest)
          rw [hinv.map_eq (hslots ▸ hstands)]
          exact .set (hs.stands.at hentry) hcopy hw
      · simp [umtpSessionSet, h0, hi, memcpy, hcopy] at hrun

end

variable {ms : UInt16} {i : Fin maxUmtpSession} {w w' : World σ}

theorem processSlot_passed (hrun : (processSlot ms i).run w = .ok () w') :
    w'.sessions.session i =
      ((w.sessions.session i).passed ms w.apduTimeout w.apduRetry).getD
        ((w.sessions.session i).ticked ms).released := by
  unfold Session.passed
  cases hwait : (w.sessions.session i).waiting with
  | false =>
    rw [processSlot_idle hwait] at hrun
    cases hrun
    rfl
  | true =>
    by_cases ht : ((w.sessions.session i).ticked ms).timer = 0
    · by_cases hr : (w.sessions.session i).retry < w.apduRetry
      · rw [processSlot_retry hwait ht hr] at hrun
        obtain ⟨r, v, hsend, hret⟩ := of_bind_ok hrun
        cases hret
        have hsame := ((npduSend_callsOut (w.sessions.session i).data
          (w.sessions.session i).dest ((w.sessions.session i).pduPtr i)
          (w.sessions.session i).pduLen.toNat).of_ok hsend).sessions
        simp [hsame, ht, hr]
      · rw [processSlot_expired hwait ht hr] at hrun
        obtain ⟨_, v, hcall, hret⟩ := of_bind_ok hrun
        cases hret
        have hsame := ((callTimeout_callsOut (w.sessions.session i).timeout
          (w.sessions.session i).dest ((w.sessions.session i).pduPtr i)
          (w.sessions.session i).pduLen.toNat).of_ok hcall).sessions
        simp [hsame, ht, hr]
    · rw [processSlot_ticking hwait ht] at hrun
      cases hrun
      simp [ht]

theorem umtpSessionProcess_passed (hrun : (umtpSessionProcess ms).run w = .ok () w') :
    w'.sessions.session i =
      ((w.sessions.session i).passed ms w.apduTimeout w.apduRetry).getD
        ((w.sessions.session i).ticked ms).released := by
  obtain ⟨v, hslot, hafter⟩ := umtpSessionProcess_slot (i := i) hrun
  have hbefore : SameSlot i w (passBefore ms i w) := passBefore_same w
  have hat := processSlot_passed hslot
  rwa [hbefore.slot, hbefore.apduTimeout, hbefore.apduRetry, ← hafter.slot] at hat

theorem Session.passed_sessionId {apduTimeout : UInt32} {apduRetry : UInt8} {x y : Session}
    (h : x.passed ms apduTimeout apduRetry = some y) : y.sessionId = x.sessionId := by
  unfold Session.passed at h
  split at h
  · cases h
    rfl
  · split at h
    · cases h
      rfl
    · split at h
      · cases h
        rfl
      · cases h

theorem umtpSessionProcess_map (hs : w.sessions.Inv)
    (hrun : (umtpSessionProcess ms).run w = .ok () w') :
    w'.sessions.map =
      fun id => (w.sessions.map id).bind (Session.passed ms w.apduTimeout w.apduRetry) := by
  have hinv : w'.sessions.Inv := (umtpSessionProcess_inv ms).of_ok hrun hs
  apply hinv.map_eq
  have hstands := hs.stands.bind (Session.passed ms w.apduTimeout w.apduRetry)
  have hslots : w'.sessions.slots = fun i => (w.sessions.slots i).bind fun p =>
      (p.2.passed ms w.apduTimeout w.apduRetry).map (Prod.mk p.1) := by
    funext i
    rw [SessionState.slots, umtpSessionProcess_passed hrun, SessionState.slots]
    by_cases h0 : (w.sessions.session i).sessionId = 0
    · have hidle := hs.free h0
      have hnone := Session.entry_none.mpr h0
      rw [hnone, Session.passed, if_pos hidle, Option.getD_some, hnone]
      rfl
    · have hsome : (w.sessions.session i).entry =
          some ((w.sessions.session i).sessionId, w.sessions.session i) :=
        Session.entry_some.mpr ⟨h0, rfl, rfl⟩
      rw [hsome]
      cases hp : (w.sessions.session i).passed ms w.apduTimeout w.apduRetry with
      | none =>
        simp only [Option.getD_none, Option.bind_some, hp, Option.map_none]
        exact Session.entry_none.mpr rfl
      | some y =>
        have hid := Session.passed_sessionId hp
        simp only [Option.getD_some, Option.bind_some, hp, Option.map_some]
        exact Session.entry_some.mpr ⟨h0, hid, rfl⟩
  rw [hslots]
  exact hstands

theorem sessionCall_map (hs : w.sessions.Inv) {c : SessionCall} (hrun : c.exec.run w = .ok () w') :
    MapStep w.apduTimeout w.apduRetry w.sessions.map c w'.sessions.map := by
  cases c with
  | freeSession =>
    cases hrun
    exact umtpFreeSession_map hs w.apduTimeout w.apduRetry
  | set id timeout data dest pdu pduLen =>
    have hset : (sessionSet id timeout data dest pdu pduLen).run w = .ok () w' := hrun
    rw [sessionSet_run, onSessions_run] at hset
    split at hset
    · rename_i t hstored
      cases hset
      exact umtpSessionSet_map hs w.apduRetry hstored
    · cases hset
  | process ms =>
    rw [umtpSessionProcess_map hs hrun]
    exact .process
  | clear id =>
    cases hrun
    show MapStep _ _ _ _ (umtpSessionClear id w.sessions).map
    rw [umtpSessionClear_map hs]
    exact .clear

def AnyMapStep (m : SessionMap) (c : SessionCall) (m' : SessionMap) : Prop :=
  ∃ apduTimeout apduRetry, MapStep apduTimeout apduRetry m c m'

theorem sessionRun_map {s₀ s : SessionState} (hs : s₀.Inv) {cs : List SessionCall}
    (hr : Run (SessionStep σ) s₀ cs s) : s.Inv ∧ Run AnyMapStep s₀.map cs s.map := by
  refine hr.history (fun cs s => s.Inv ∧ Run AnyMapStep s₀.map cs s.map) ⟨hs, .nil⟩ ?_
  rintro cs c s t - ⟨hs, hm⟩ ⟨w, w', rfl, hrun, rfl⟩
  exact ⟨(SessionCall.exec_inv c).of_ok hrun hs, hm.snoc ⟨_, _, sessionCall_map hs hrun⟩⟩

section

variable {n : Nat} {s : SessionState} {id : UInt8}

theorem umtpSessionGet_none (h : s.map id = none) (dest : UmtpAddr) (pdu : Buf UInt8 n)
    (pduLen : UInt16) :
    (umtpSessionGet id dest pdu pduLen).run s = .ok (false, dest, pdu, pduLen) s := by
  by_cases h0 : id = 0
  · simp [umtpSessionGet, h0]
  · rw [SessionState.map, umtpGetSession, if_neg h0, Option.map_eq_none_iff] at h
    simp [umtpSessionGet, h0, h]

theorem umtpSessionGet_some {x : Session} (h : s.map id = some x) (hx : x.pduLen.toNat ≤ maxPdu)
    (dest : UmtpAddr) {pdu : Buf UInt8 n} (hn : x.pduLen.toNat ≤ n) (pduLen : UInt16) :
    ∃ buf, (umtpSessionGet id dest pdu pduLen).run s = .ok (true, x.dest, buf, x.pduLen) s ∧
      buf.cells = x.pdu.cells.take x.pduLen.toNat ++ pdu.cells.drop x.pduLen.toNat := by
  rw [SessionState.map, umtpGetSession] at h
  split at h
  · cases h
  · rename_i h0
    obtain ⟨i, hi, rfl⟩ := Option.map_eq_some_iff.mp h
    have hlen : ((s.session i).pdu.cells.take (s.session i).pduLen.toNat).length =
        (s.session i).pduLen.toNat := by
      rw [List.length_take, Buf.length_cells, Nat.min_eq_left hx]
    obtain ⟨buf, hbuf⟩ : ∃ buf, pdu.write 0
        ((s.session i).pdu.cells.take (s.session i).pduLen.toNat) = some buf :=
      Buf.exists_write (by omega)
    have hcopy : (memcpy .application pdu 0 ((s.session i).pduPtr i)
        (s.session i).pduLen.toNat).run s = .ok buf s := by
      apply memcpy_run
      · simpa [Session.pduPtr] using hx
      · simpa [Session.pduPtr, Ptr.bytes] using hbuf
    refine ⟨buf, ?_, ?_⟩
    · simp [umtpSessionGet, h0, hi, hcopy]
    · have hcells := (Buf.write_some hbuf).2
      rw [hlen] at hcells
      simpa using hcells

theorem umtpGetSession_none_iff : umtpGetSession s id = none ↔ s.map id = none :=
  Option.map_eq_none_iff.symm

end

/-- Every run of the four calls is one of a map of at most 255 sessions, and `umtp_session_get`
reads that map. -/
theorem session_table_refines_map {cs : List SessionCall} {s : SessionState}
    (hr : Run (SessionStep σ) SessionState.init cs s) :
    Run AnyMapStep (fun _ => none) cs s.map ∧
      ∀ id (n : Nat) (dest : UmtpAddr) (pdu : Buf UInt8 n) pduLen,
        (s.map id = none →
          (umtpSessionGet id dest pdu pduLen).run s = .ok (false, dest, pdu, pduLen) s) ∧
        ∀ x, s.map id = some x → x.pduLen.toNat ≤ maxPdu → x.pduLen.toNat ≤ n →
          ∃ buf, (umtpSessionGet id dest pdu pduLen).run s = .ok (true, x.dest, buf, x.pduLen) s ∧
            buf.cells = x.pdu.cells.take x.pduLen.toNat ++ pdu.cells.drop x.pduLen.toNat := by
  obtain ⟨-, hm⟩ := sessionRun_map SessionState.init_inv hr
  rw [SessionState.init_map] at hm
  exact ⟨hm, fun id n dest pdu pduLen => ⟨fun h => umtpSessionGet_none h dest pdu pduLen,
    fun x h hx hn => umtpSessionGet_some h hx dest hn pduLen⟩⟩

theorem session_table_refines_map_granted : ∃ s : SessionState,
    Run (SessionStep Unit) SessionState.init threeGrants s ∧
      Run AnyMapStep (fun _ => none) threeGrants s.map ∧ s.map 3 ≠ none ∧
      (umtpSessionGet 1 .zero (Buf.fill 4 0) 0).run s = .ok (false, .zero, Buf.fill 4 0, 0) s ∧
      ∃ buf, (umtpSessionGet 2 .zero (Buf.fill 4 0) 0).run s = .ok (true, .zero, buf, 2) s ∧
        buf.cells = [7, 8, 0, 0] := by
  obtain ⟨s, hr, h1, h3, i, h2, -, hdest, hlen, hpdu⟩ := threeGrants_run
  obtain ⟨hmap, hget⟩ := session_table_refines_map hr
  have hx : s.map 2 = some (s.session i) := by rw [SessionState.map, h2]; rfl
  obtain ⟨buf, hrun, hcells⟩ := (hget 2 4 .zero (Buf.fill 4 0) 0).2 _ hx
    (by rw [hlen]; decide) (by rw [hlen]; decide)
  rw [hdest, hlen] at hrun
  have htwo : (2 : UInt16).toNat = 2 := rfl
  rw [hlen, htwo, hpdu] at hcells
  refine ⟨s, hr, hmap, ?_, (hget 1 4 .zero (Buf.fill 4 0) 0).1 ?_, buf, hrun, hcells⟩
  · rwa [SessionState.map, Ne, Option.map_eq_none_iff]
  · rw [SessionState.map, h1]
    rfl

def SessionCall.Spares (id : UInt8) : SessionCall → Prop
  | .set id' _ _ _ _ _ => id' ≠ id
  | _ => True

def Session.SameMessage (x y : Session) : Prop :=
  y.dest = x.dest ∧ y.pdu = x.pdu ∧ y.pduLen = x.pduLen

theorem Session.passed_sameMessage {apduTimeout : UInt32} {apduRetry : UInt8} {x y : Session}
    (h : x.passed ms apduTimeout apduRetry = some y) : x.SameMessage y := by
  unfold Session.passed at h
  split at h
  · cases h
    exact ⟨rfl, rfl, rfl⟩
  · split at h
    · cases h
      exact ⟨rfl, rfl, rfl⟩
    · split at h
      · cases h
        exact ⟨rfl, rfl, rfl⟩
      · cases h

/-- A session that is not released keeps its message, whatever is done to the others. -/
theorem mapStep_sameMessage {apduTimeout : UInt32} {apduRetry : UInt8} {m m' : SessionMap}
    {c : SessionCall} (hstep : MapStep apduTimeout apduRetry m c m') {id : UInt8} {x : Session}
    (hx : m id = some x) (hspares : c.Spares id) (hkept : m' id ≠ none) :
    ∃ y, m' id = some y ∧ x.SameMessage y := by
  have hself : ∃ y, m id = some y ∧ x.SameMessage y := ⟨x, hx, rfl, rfl, rfl⟩
  cases hstep with
  | @granted id' z h0 hnone =>
    have hne : id ≠ id' := by
      rintro rfl
      rw [hnone] at hx
      cases hx
    rwa [Function.update_of_ne hne]
  | full => exact hself
  | set => rwa [Function.update_of_ne (Ne.symm hspares)]
  | unset => exact hself
  | @clear id' =>
    by_cases hid : id = id'
    · subst hid
      exact absurd (Function.update_self id none m) hkept
    · rwa [Function.update_of_ne hid]
  | process =>
    simp only [hx, Option.bind_some] at hkept ⊢
    obtain ⟨y, hy⟩ := Option.ne_none_iff_exists'.mp hkept
    exact ⟨y, hy, Session.passed_sameMessage hy⟩

def SparingStep (σ : Type) (id : UInt8) (s : SessionState) (c : SessionCall) (t : SessionState) :
    Prop :=
  SessionStep σ s c t ∧ c.Spares id ∧ umtpGetSession t id ≠ none

theorem sparingRun_sameMessage {s₀ s : SessionState} (hs : s₀.Inv) {id : UInt8} {x : Session}
    (hx : s₀.map id = some x) {cs : List SessionCall} (hr : Run (SparingStep σ id) s₀ cs s) :
    ∃ y, s.map id = some y ∧ x.SameMessage y := by
  have hinv := hr.invariant (fun s => s.Inv ∧ ∃ y, s.map id = some y ∧ x.SameMessage y) ?_
    ⟨hs, x, hx, rfl, rfl, rfl⟩
  · exact hinv.2
  · rintro s c t ⟨hs, y, hy, hdest, hpdu, hlen⟩ ⟨⟨w, w', rfl, hrun, rfl⟩, hspares, hkept⟩
    obtain ⟨z, hz, hdest', hpdu', hlen'⟩ := mapStep_sameMessage (sessionCall_map hs hrun) hy hspares
      (fun hnone => hkept (umtpGetSession_none_iff.mpr hnone))
    exact ⟨(SessionCall.exec_inv c).of_ok hrun hs, z, hz, hdest'.trans hdest, hpdu'.trans hpdu,
      hlen'.trans hlen⟩

theorem mapStep_set {apduTimeout : UInt32} {apduRetry : UInt8} {m m' : SessionMap} {id : UInt8}
    {timeout : Option TimeoutFn} {data : Ref} {dest : UmtpAddr} {pdu : Ptr} {pduLen : UInt16}
    (hstep : MapStep apduTimeout apduRetry m (.set id timeout data dest pdu pduLen) m')
    (hused : m id ≠ none) :
    ∃ x, m' id = some x ∧ x.dest = dest ∧ x.pduLen = pduLen ∧ pduLen.toNat ≤ maxPdu ∧
      x.pdu.cells.take pduLen.toNat = pdu.bytes.take pduLen.toNat := by
  cases hstep with
  | unset hnone => exact absurd hnone hused
  | set hx hread hwrite =>
    have hlen : (pdu.bytes.take pduLen.toNat).length = pduLen.toNat := by
      simp [Ptr.bytes]
      omega
    have hfit := (Buf.write_some hwrite).1
    have hstored := Buf.read_write hwrite
    rw [hlen, List.drop_zero] at hstored
    exact ⟨_, Function.update_self id _ m, rfl, rfl, by omega, hstored⟩

/-- What has been stored for an id is what `umtp_session_get` gives for it, until it is set again
or released, in whatever slot that is. -/
theorem session_get_last_set {cs ds : List SessionCall} {s₀ s₁ s : SessionState}
    (h₀ : Run (SessionStep σ) SessionState.init cs s₀) {id : UInt8}
    (hused : umtpGetSession s₀ id ≠ none) {timeout : Option TimeoutFn} {data : Ref}
    {dest : UmtpAddr} {pdu : Ptr} {pduLen : UInt16}
    (hset : SessionStep σ s₀ (.set id timeout data dest pdu pduLen) s₁)
    (hr : Run (SparingStep σ id) s₁ ds s) {n : Nat} (hn : pduLen.toNat ≤ n) (out : UmtpAddr)
    (buf : Buf UInt8 n) (len : UInt16) :
    ∃ buf', (umtpSessionGet id out buf len).run s = .ok (true, dest, buf', pduLen) s ∧
      buf'.cells = pdu.bytes.take pduLen.toNat ++ buf.cells.drop pduLen.toNat := by
  have hs₀ := session_run_inv h₀
  obtain ⟨w, w', rfl, hrun, rfl⟩ := hset
  have hs₁ : w'.sessions.Inv := (SessionCall.exec_inv _).of_ok hrun hs₀
  obtain ⟨x, hx, rfl, rfl, hmax, hstored⟩ := mapStep_set (sessionCall_map hs₀ hrun)
    (fun hnone => hused (umtpGetSession_none_iff.mpr hnone))
  obtain ⟨y, hy, hdest, hpdu, hlen⟩ := sparingRun_sameMessage hs₁ hx hr
  rw [← hlen] at hmax hn
  obtain ⟨buf', hget, hcells⟩ := umtpSessionGet_some hy hmax out hn len
  rw [hlen, hpdu, hstored] at hcells
  rw [hdest, hlen] at hget
  exact ⟨buf', hget, hcells⟩

def twoByteSet : SessionCall := .set 1 none 1 .zero ⟨.application, [7, 8], 0⟩ 2

theorem twoByteSet_stored : ∃ t,
    (umtpSessionSet 3000 1 none 1 .zero ⟨.application, [7, 8], 0⟩ 2).run
      (umtpFreeSession 3000 SessionState.init).1 = .ok () t ∧
    umtpGetSession t 1 ≠ none ∧ umtpGetSession (umtpFreeSession 3000 t).1 1 ≠ none := by
  have h : (match (umtpSessionSet 3000 1 none 1 .zero ⟨.application, [7, 8], 0⟩ 2).run
      (umtpFreeSession 3000 SessionState.init).1 with
    | .ok _ t => (umtpGetSession t 1).isSome &&
        (umtpGetSession (umtpFreeSession 3000 t).1 1).isSome
    | .error _ _ => false) = true := by decide +kernel
  split at h
  · rename_i t hrun
    rw [Bool.and_eq_true, Option.isSome_iff_ne_none, Option.isSome_iff_ne_none] at h
    exact ⟨t, hrun, h⟩
  · cases h

theorem session_get_last_set_twoBytes : ∃ (s : SessionState) (buf : Buf UInt8 4),
    (umtpSessionGet 1 .zero (Buf.fill 4 0) 0).run s = .ok (true, .zero, buf, 2) s ∧
      buf.cells = [7, 8, 0, 0] := by
  obtain ⟨t, hset, hused, hkept⟩ := twoByteSet_stored
  let w : World Unit := World.init ()
  let w₁ : World Unit := { w with sessions := (umtpFreeSession 3000 SessionState.init).1 }
  have h₀ : Run (SessionStep Unit) SessionState.init [.freeSession] w₁.sessions :=
    Run.nil.snoc ⟨w, w₁, rfl, rfl, rfl⟩
  have hstep : SessionStep Unit w₁.sessions twoByteSet t := by
    refine ⟨w₁, { w₁ with sessions := t }, rfl, ?_, rfl⟩
    have hset' : (umtpSessionSet w₁.apduTimeout 1 none 1 .zero ⟨.application, [7, 8], 0⟩ 2).run
        w₁.sessions = .ok () t := hset
    show (sessionSet 1 none 1 .zero ⟨.application, [7, 8], 0⟩ 2).run w₁ = _
    rw [sessionSet_run, onSessions_run, hset']
  have hr : Run (SparingStep Unit 1) t [.freeSession] (umtpFreeSession 3000 t).1 :=
    Run.nil.snoc ⟨⟨{ w with sessions := t }, _, rfl, rfl, rfl⟩, trivial, hkept⟩
  have hgranted : umtpGetSession w₁.sessions 1 ≠ none := by decide +kernel
  obtain ⟨buf, hget, hcells⟩ :=
    session_get_last_set h₀ hgranted hstep hr (show (2 : UInt16).toNat ≤ 4 by decide) .zero
      (Buf.fill 4 0) 0
  exact ⟨_, buf, hget, hcells⟩

end Umtp
