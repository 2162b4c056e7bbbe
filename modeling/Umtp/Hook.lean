import Umtp.ListHead
import Umtp.Machine

/-! `hook.c`: functions that see the data of a layer, by priority and direction. -/

set_option autoImplicit false

namespace Umtp
open LinkedRing

variable {N : Type}

abbrev maxHookPriority : Nat := 3
abbrev hookMaxLayer : Nat := 3

/-- `struct umtp_hook`, less its `list`. The function may change the data in place. -/
structure UmtpHook where
  inAndOut : Bool
  priority : Int
  hookPoint : Int
  hookFunc : Option (List UInt8 → Int → Bool → Int × List UInt8)

/-- The variables of `hook.c` and the hooks of an application. The head of the hooks of a
layer with a priority is the head with that pair of indices. -/
structure Hooks (N : Type) where
  hookLayerFlag : BitVec 32
  priFlag : Nat → BitVec 32
  initDone : Bool
  objects : N → UmtpHook
  links : Links (ListHead (Nat × Nat) N)

/-- What `umtp_do_hooks` works on, and the hooks it has called so far. -/
structure HookRun (N : Type) where
  ret : Int
  data : List UInt8
  called : List N

/-- The index `i` of an array of `n`. Outside the array there is nothing to access. -/
def arrayIndex (n : Nat) (i : Int) : Option Nat := if 0 ≤ i ∧ i < n then some i.toNat else none

theorem arrayIndex_eq_some {n k : Nat} {i : Int} :
    arrayIndex n i = some k ↔ i = k ∧ k < n := by
  unfold arrayIndex
  split
  · rw [Option.some.injEq]
    omega
  · simp only [reduceCtorEq, false_iff]
    omega

theorem arrayIndex_eq_none {n : Nat} {i : Int} : arrayIndex n i = none ↔ i < 0 ∨ n ≤ i := by
  unfold arrayIndex
  split
  · simp only [reduceCtorEq, false_iff]
    omega
  · simp only [true_iff]
    omega

theorem arrayIndex_lt {n k : Nat} {i : Int} (h : arrayIndex n i = some k) : k < n :=
  (arrayIndex_eq_some.mp h).2

/-- The check that both calls make. -/
def UmtpHook.refused (hook : UmtpHook) : Bool :=
  hook.priority > maxHookPriority || hook.hookPoint ≥ hookMaxLayer || hook.hookFunc.isNone

namespace Hooks

def heads : List (Nat × Nat) :=
  (List.range hookMaxLayer).flatMap fun i => (List.range maxHookPriority).map fun j => (i, j)

section

variable [DecidableEq N]

def umtpHookInit (s : Hooks N) : Hooks N :=
  { s with
    priFlag := fun _ => 0
    links := heads.foldl (fun links i => initListHead links (.head i)) s.links
    initDone := true }

def hasHooks (s : Hooks N) (hookLayer : Nat) : Bool :=
  if hookLayer ≥ hookMaxLayer then false
  else s.hookLayerFlag &&& (1#32 <<< hookLayer) != 0

/-- A hook on a list is called if it is for this direction. -/
def callHook (s : Hooks N) (dataLen : Int) (dir : Bool) (run : HookRun N) :
    ListHead (Nat × Nat) N → Option (HookRun N ⊕ HookRun N)
  | .head _ => none
  | .entry x =>
    if dir ≠ (s.objects x).inAndOut then some (.inl run)
    else
      match (s.objects x).hookFunc with
      | none => none
      | some hookFunc =>
        let result := hookFunc run.data dataLen dir
        let run' := ⟨result.1, result.2, run.called ++ [x]⟩
        if result.1 ≠ 0 then some (.inr run') else some (.inl run')

def doPriority (fuel : Nat) (s : Hooks N) (hookLayer : Nat) (dataLen : Int) (dir : Bool)
    (run : HookRun N) (i : Nat) : Option (HookRun N ⊕ HookRun N) :=
  if (1#32 <<< i) &&& s.priFlag hookLayer == 0 then some (.inl run)
  else
    (FuelLoop.run (eachStep s.links (.head (hookLayer, i)) (s.callHook dataLen dir)) fuel
      (s.links.next (.head (hookLayer, i)), run)).join

/-- The call, if it comes back within `fuel` rounds of each list. `ret` is what is on the
stack in the place of the variable, which is not initialised. -/
def umtpDoHooks (fuel : Nat) (s : Hooks N) (hookLayer : Nat) (data : Option (List UInt8))
    (dataLen : Int) (dir : Bool) (ret : Int) : Option (HookRun N) :=
  if !s.hasHooks hookLayer then some ⟨0, data.getD [], []⟩
  else
    match data with
    | none => some ⟨0, [], []⟩
    | some bytes =>
      if dataLen ≤ 0 then some ⟨0, bytes, []⟩
      else
        (foldUntil (s.doPriority fuel hookLayer dataLen dir) ⟨ret, bytes, []⟩
          (List.range maxHookPriority)).map (Sum.elim id id)

def isHook (hook : N) : Unit → ListHead (Nat × Nat) N → Option (Unit ⊕ Unit)
  | _, .head _ => some (.inl ())
  | _, .entry tmp => if tmp = hook then some (.inr ()) else some (.inl ())

def hookIsRegistered (fuel : Nat) (s : Hooks N) (hook : N) : Option Bool := do
  let layer ← arrayIndex hookMaxLayer (s.objects hook).hookPoint
  (foldUntil (fun _ i =>
    (FuelLoop.run (eachStep s.links (.head (layer, i)) (isHook hook)) fuel
      (s.links.next (.head (layer, i)), ())).join) () (List.range maxHookPriority)).map Sum.isRight

def umtpHookRegister (fuel : Nat) (s : Hooks N) (hook : Option N) : Option (Int × Hooks N) :=
  let s := if s.initDone then s else s.umtpHookInit
  match hook with
  | none => some (-einval, s)
  | some x =>
    let hook := s.objects x
    if hook.refused then some (-einval, s)
    else do
      if ← s.hookIsRegistered fuel x then return (-eexist, s)
      let layer ← arrayIndex hookMaxLayer hook.hookPoint
      -- One past the last priority and those below 0 have not been refused, and have no head.
      let priority ← arrayIndex maxHookPriority hook.priority
      -- The hook is taken for the head, and the head for the new entry.
      let links ← listAddTail s.links (.head (layer, priority)) (.entry x)
      return (0, { s with
        hookLayerFlag := s.hookLayerFlag ||| (1#32 <<< layer)
        priFlag := Function.update s.priFlag layer (s.priFlag layer ||| (1#32 <<< priority))
        links })

def umtpHookUnregister (fuel : Nat) (s : Hooks N) (hook : Option N) : Option (Int × Hooks N) :=
  match hook with
  | none => some (-einval, s)
  | some x =>
    let hook := s.objects x
    if hook.refused then some (0, s)
    else do
      if ← s.hookIsRegistered fuel x then
        let layer ← arrayIndex hookMaxLayer hook.hookPoint
        -- A shift by less than 0 has no result.
        guard (0 ≤ hook.priority)
        let links ← listDel s.links (.entry x)
        return (0, { s with
          hookLayerFlag := s.hookLayerFlag &&& ~~~(1#32 <<< layer)
          priFlag := Function.update s.priFlag layer
            (s.priFlag layer &&& ~~~(1#32 <<< hook.priority.toNat))
          links })
      else return (-enoent, s)

end

end Hooks

theorem bit_set {k j : Nat} (hj : j < 32) (f : BitVec 32) :
    (f ||| (1#32 <<< k)).getLsbD j = (f.getLsbD j || decide (k = j)) := by
  rw [BitVec.getLsbD_or, ← BitVec.twoPow_eq, BitVec.getLsbD_twoPow]
  by_cases h : k = j
  · simp [h, hj]
  · simp [h]

theorem bit_cleared {k j : Nat} (hj : j < 32) (f : BitVec 32) :
    (f &&& ~~~(1#32 <<< k)).getLsbD j = (f.getLsbD j && decide (k ≠ j)) := by
  rw [BitVec.getLsbD_and, BitVec.getLsbD_not, ← BitVec.twoPow_eq, BitVec.getLsbD_twoPow]
  by_cases h : k = j
  · simp [h, hj]
  · simp [h, hj]

theorem priFlag_set {i : Nat × Nat} {k j : Nat} (hj : j < 32) (f : Nat → BitVec 32) :
    (Function.update f i.1 (f i.1 ||| (1#32 <<< i.2)) k).getLsbD j =
      ((f k).getLsbD j || decide (i = (k, j))) := by
  by_cases hk : k = i.1
  · subst hk
    rw [Function.update_self, bit_set hj]
    simp [Prod.ext_iff]
  · rw [Function.update_of_ne hk]
    simp [Prod.ext_iff, Ne.symm hk]

theorem priFlag_cleared {i : Nat × Nat} {k j : Nat} (hj : j < 32) (f : Nat → BitVec 32) :
    (Function.update f i.1 (f i.1 &&& ~~~(1#32 <<< i.2)) k).getLsbD j =
      ((f k).getLsbD j && decide (i ≠ (k, j))) := by
  by_cases hk : k = i.1
  · subst hk
    rw [Function.update_self, bit_cleared hj]
    simp [Prod.ext_iff]
  · rw [Function.update_of_ne hk]
    simp [Prod.ext_iff, Ne.symm hk]

theorem bit_tested {k : Nat} (hk : k < 32) (f : BitVec 32) :
    (f &&& (1#32 <<< k) != 0) = f.getLsbD k := by
  rw [← BitVec.twoPow_eq, BitVec.and_twoPow]
  have hne : BitVec.twoPow 32 k ≠ 0 := by
    intro h
    have hbit := congrArg (fun x => x.getLsbD k) h
    simp [hk] at hbit
  cases f.getLsbD k with
  | true => simpa using hne
  | false => simp

namespace Hooks

theorem mem_heads {i : Nat × Nat} : i ∈ heads ↔ i.1 < hookMaxLayer ∧ i.2 < maxHookPriority := by
  obtain ⟨k, j⟩ := i
  simp [heads]

/-- From each head its hooks can be reached, in order, and the head again after them. -/
def Holds (s : Hooks N) (listed : Nat × Nat → List N) : Prop :=
  ∀ i ∈ heads, s.links.Path (.head i) ((listed i).map .entry) (.head i)

variable [DecidableEq N] {s : Hooks N} {listed : Nat × Nat → List N}

theorem Holds.each (hs : s.Holds listed) {i : Nat × Nat} (hi : i ∈ heads) {β γ : Type}
    (body : β → ListHead (Nat × Nat) N → Option (β ⊕ γ)) (b : β) {fuel : Nat}
    (hfuel : (listed i).length < fuel) :
    FuelLoop.run (eachStep s.links (.head i) body) fuel (s.links.next (.head i), b) =
      some (foldUntil body b ((listed i).map .entry)) := by
  have hend := (hs i hi).each (by simp) body b
  rw [List.length_map] at hend
  exact FuelLoop.run_mono hfuel hend

theorem Holds.layer_each (hs : s.Holds listed) {k : Nat} (hk : k < hookMaxLayer) {β γ : Type}
    (body : β → ListHead (Nat × Nat) N → Option (β ⊕ γ)) (b : β) {fuel : Nat}
    (hfuel : ∀ i ∈ heads, (listed i).length < fuel) :
    foldUntil (fun b j => (FuelLoop.run (eachStep s.links (.head (k, j)) body) fuel
        (s.links.next (.head (k, j)), b)).join) b (List.range maxHookPriority) =
      foldUntil body b (((List.range maxHookPriority).flatMap fun j => listed (k, j)).map
        .entry) := by
  rw [List.map_flatMap, ← foldUntil_flatMap]
  apply foldUntil_congr
  intro j hj b'
  have hi : (k, j) ∈ heads := mem_heads.mpr ⟨hk, List.mem_range.mp hj⟩
  rw [hs.each hi body b' (hfuel _ hi)]
  rfl

theorem foldUntil_isHook (hook : N) (xs : List N) :
    foldUntil (isHook hook) () (xs.map .entry) =
      some (if hook ∈ xs then .inr () else .inl ()) := by
  induction xs with
  | nil => rfl
  | cons x xs ih =>
    by_cases hx : x = hook
    · simp [foldUntil, isHook, hx]
    · have hx' : ¬ hook = x := fun h => hx h.symm
      simp [foldUntil, isHook, hx, hx', ih]

/-- The search through the lists of a layer finds what is on one of them. -/
theorem Holds.isRegistered (hs : s.Holds listed) {x : N} {k : Nat}
    (hk : arrayIndex hookMaxLayer (s.objects x).hookPoint = some k) {fuel : Nat}
    (hfuel : ∀ i ∈ heads, (listed i).length < fuel) :
    s.hookIsRegistered fuel x =
      some (decide (∃ j < maxHookPriority, x ∈ listed (k, j))) := by
  have hlayer : k < hookMaxLayer := arrayIndex_lt hk
  have hmem : (x ∈ (List.range maxHookPriority).flatMap fun j => listed (k, j)) ↔
      ∃ j < maxHookPriority, x ∈ listed (k, j) := by simp
  rw [hookIsRegistered, hk, Option.bind_eq_bind, Option.bind_some,
    hs.layer_each hlayer _ _ hfuel, foldUntil_isHook]
  by_cases hx : ∃ j < maxHookPriority, x ∈ listed (k, j)
  · rw [if_pos (hmem.mpr hx), decide_eq_true hx]
    rfl
  · rw [if_neg (fun h => hx (hmem.mp h)), decide_eq_false hx]
    rfl

end Hooks

end Umtp
