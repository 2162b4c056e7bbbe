import Umtp.Hook
import Umtp.Kit.FiniteRun

/-! Which hooks `umtp_do_hooks` calls, after any registrations and removals. A list takes one
hook at most, and a hook goes into it only by its own links. -/

set_option autoImplicit false

namespace Umtp
open LinkedRing FiniteRun

variable {N : Type}

/-- The hooks, and those that have been registered and not since unregistered, in order. -/
structure Hooking (N : Type) where
  hooks : Hooks N
  registered : List N

/-- `write` is the application's: any content for one of its hooks. -/
inductive HookCall (N : Type) where
  | register (hook : Option N)
  | unregister (hook : Option N)
  | write (x : N) (hook : UmtpHook) (next prev : Option (ListHead (Nat × Nat) N))

structure UmtpHook.Usable (hook : UmtpHook) : Prop where
  hookPoint : 0 ≤ hook.hookPoint ∧ hook.hookPoint < hookMaxLayer
  priority : 0 ≤ hook.priority ∧ hook.priority < maxHookPriority
  hookFunc : hook.hookFunc.isSome = true

def UmtpHook.place (hook : UmtpHook) : Nat × Nat := (hook.hookPoint.toNat, hook.priority.toNat)

def HookCall.Valid (s : Hooking N) : HookCall N → Prop
  | .register hook => ∀ x ∈ hook, (s.hooks.objects x).Usable
  | .unregister hook => ∀ x ∈ hook, (s.hooks.objects x).Usable
  | .write x _ _ _ => x ∉ s.registered

/-- What the list field of a hook needs to be for the swapped arguments to do no harm: linked
to itself, or already before the head and after a hook that is not registered. -/
def Hooking.Joins (s : Hooking N) (x : N) : Prop :=
  s.hooks.links.prev (.entry x) = some (.entry x) ∨
    s.hooks.links.next (.entry x) = some (.head (s.hooks.objects x).place) ∧
      ∃ u, s.hooks.links.prev (.entry x) = some (.entry u) ∧ u ∉ s.registered

/-- A new hook finds no other at its place, and one that is unregistered leaves no other at
its layer. -/
def HookCall.Good (s : Hooking N) : HookCall N → Prop
  | .register (some x) => x ∈ s.registered ∨
    (∀ y ∈ s.registered, (s.hooks.objects y).place ≠ (s.hooks.objects x).place) ∧ s.Joins x
  | .unregister (some x) => s.hooks.initDone = true ∧ (x ∈ s.registered → ∀ y ∈ s.registered,
      (s.hooks.objects y).hookPoint = (s.hooks.objects x).hookPoint → y = x)
  | _ => True

/-- The hooks a call is for, in the order in which they are to be called. -/
def Hooking.dispatch (s : Hooking N) (layer : Nat) (dir : Bool) : List N :=
  (List.range maxHookPriority).flatMap fun priority => s.registered.filter fun x =>
    (s.hooks.objects x).place = (layer, priority) && dir == (s.hooks.objects x).inAndOut

def Hooks.callAll (s : Hooks N) (dataLen : Int) (dir : Bool) : HookRun N → List N → HookRun N
  | run, [] => run
  | run, x :: xs =>
    match (s.objects x).hookFunc with
    | none => run
    | some hookFunc =>
      let result := hookFunc run.data dataLen dir
      let run' := ⟨result.1, result.2, run.called ++ [x]⟩
      if result.1 ≠ 0 then run' else s.callAll dataLen dir run' xs

variable [DecidableEq N]

/-- A call, with at most `fuel` rounds of each list. -/
def HookCall.exec (fuel : Nat) (s : Hooking N) : HookCall N → Option (Hooking N)
  | .register hook => do
    let (ret, hooks) ← s.hooks.umtpHookRegister fuel hook
    return ⟨hooks, if ret = 0 then s.registered ++ hook.toList else s.registered⟩
  | .unregister hook => do
    let (ret, hooks) ← s.hooks.umtpHookUnregister fuel hook
    return ⟨hooks, if ret = 0 then hook.elim s.registered s.registered.erase else s.registered⟩
  | .write x hook next prev =>
    some ⟨{ s.hooks with
      objects := Function.update s.hooks.objects x hook
      links := (s.hooks.links.setNext (.entry x) next).setPrev (.entry x) prev }, s.registered⟩

def HookStep (s : Hooking N) (c : HookCall N) (s' : Hooking N) : Prop :=
  c.Valid s ∧ ∃ n, ∀ fuel ≥ n, c.exec fuel s = some s'

def Hooking.start (objects : N → UmtpHook) (links : Links (ListHead (Nat × Nat) N)) : Hooking N :=
  ⟨⟨0, fun _ => 0, false, objects, links⟩, []⟩

/-- `umtp_do_hooks` does what the registrations say, whatever is on the stack. -/
def Hooking.Dispatches (s : Hooking N) (layer : Nat) (bytes : List UInt8) (dataLen : Int)
    (dir : Bool) : Prop :=
  ∀ ret, ∃ n, ∀ fuel ≥ n, s.hooks.umtpDoHooks fuel layer (some bytes) dataLen dir ret =
    some (s.hooks.callAll dataLen dir ⟨0, bytes, []⟩ (s.dispatch layer dir))

namespace UmtpHook

variable {hook : UmtpHook}

theorem Usable.layer_index (h : hook.Usable) :
    arrayIndex hookMaxLayer hook.hookPoint = some hook.place.1 := by
  have hpoint := h.hookPoint
  rw [arrayIndex_eq_some, place]
  omega

theorem Usable.priority_index (h : hook.Usable) :
    arrayIndex maxHookPriority hook.priority = some hook.place.2 := by
  have hpriority := h.priority
  rw [arrayIndex_eq_some, place]
  omega

theorem Usable.layer_lt (h : hook.Usable) : hook.place.1 < hookMaxLayer :=
  arrayIndex_lt h.layer_index

theorem Usable.priority_lt (h : hook.Usable) : hook.place.2 < maxHookPriority :=
  arrayIndex_lt h.priority_index

theorem Usable.at_layer (h : hook.Usable) {k : Nat} : hook.hookPoint = k ↔ hook.place.1 = k := by
  have hpoint := h.hookPoint
  rw [place]
  omega

theorem Usable.not_refused (h : hook.Usable) : hook.refused = false := by
  obtain ⟨-, hpoint⟩ := h.hookPoint
  obtain ⟨-, hpriority⟩ := h.priority
  obtain ⟨f, hfunc⟩ := Option.isSome_iff_exists.mp h.hookFunc
  have hpriority' : hook.priority ≤ maxHookPriority := Int.le_of_lt hpriority
  simp only [refused, hfunc, gt_iff_lt, ge_iff_le, Option.isNone_some, Bool.or_false,
    Bool.or_eq_false_iff, decide_eq_false_iff_not, Int.not_lt, Int.not_le]
  exact ⟨hpriority', hpoint⟩

end UmtpHook

structure Hooking.Inv (s : Hooking N) : Prop where
  init : s.hooks.initDone = false → s.registered = []
  usable : ∀ x ∈ s.registered, (s.hooks.objects x).Usable
  nodup : s.registered.Nodup
  alone : ∀ x ∈ s.registered, ∀ y ∈ s.registered,
    (s.hooks.objects x).place = (s.hooks.objects y).place → x = y
  held : ∀ x ∈ s.registered,
    s.hooks.links.Linked (.head (s.hooks.objects x).place) (.entry x) ∧
      s.hooks.links.next (.entry x) = some (.head (s.hooks.objects x).place)
  empty : s.hooks.initDone = true → ∀ i ∈ Hooks.heads,
    (∀ x ∈ s.registered, (s.hooks.objects x).place ≠ i) →
      s.hooks.links.next (.head i) = some (.head i)
  layer : ∀ k < hookMaxLayer, s.hooks.hookLayerFlag.getLsbD k = true ↔
    ∃ x ∈ s.registered, (s.hooks.objects x).place.1 = k
  pri : ∀ k < hookMaxLayer, ∀ j < maxHookPriority, (s.hooks.priFlag k).getLsbD j = true ↔
    ∃ x ∈ s.registered, (s.hooks.objects x).place = (k, j)

def Hooking.listed (s : Hooking N) (i : Nat × Nat) : List N :=
  s.registered.filter fun x => (s.hooks.objects x).place = i

omit [DecidableEq N] in
theorem Hooking.mem_listed {s : Hooking N} {i : Nat × Nat} {x : N} :
    x ∈ s.listed i ↔ x ∈ s.registered ∧ (s.hooks.objects x).place = i := by
  simp [listed]

omit [DecidableEq N] in
theorem Hooking.Inv.listed_cases {s : Hooking N} (hs : s.Inv) (i : Nat × Nat) :
    s.listed i = [] ∧ (∀ x ∈ s.registered, (s.hooks.objects x).place ≠ i) ∨
      ∃ x ∈ s.registered, (s.hooks.objects x).place = i ∧ s.listed i = [x] := by
  have hnodup : (s.listed i).Nodup := hs.nodup.filter _
  cases hlist : s.listed i with
  | nil =>
    refine .inl ⟨rfl, fun x hx hi => ?_⟩
    have hmem := Hooking.mem_listed.mpr ⟨hx, hi⟩
    rw [hlist] at hmem
    cases hmem
  | cons x xs =>
    have hmem : ∀ y ∈ x :: xs, y ∈ s.registered ∧ (s.hooks.objects y).place = i := by
      intro y hy
      rw [← hlist] at hy
      exact Hooking.mem_listed.mp hy
    obtain ⟨hx, hxi⟩ := hmem x List.mem_cons_self
    refine .inr ⟨x, hx, hxi, ?_⟩
    cases xs with
    | nil => rfl
    | cons y ys =>
      obtain ⟨hy, hyi⟩ := hmem y (by simp)
      have hxy := hs.alone x hx y hy (hxi.trans hyi.symm)
      rw [hlist, hxy] at hnodup
      simp at hnodup

omit [DecidableEq N] in
theorem Hooking.Inv.path {s : Hooking N} (hs : s.Inv) (hinit : s.hooks.initDone = true)
    {i : Nat × Nat} (hi : i ∈ Hooks.heads) :
    s.hooks.links.Path (.head i) ((s.listed i).map .entry) (.head i) := by
  rcases hs.listed_cases i with ⟨hnil, hnone⟩ | ⟨x, hx, rfl, hone⟩
  · rw [hnil]
    exact List.isChain_pair.mpr (hs.empty hinit i hi hnone)
  · rw [hone]
    obtain ⟨⟨hnext, -⟩, hback⟩ := hs.held x hx
    exact List.isChain_cons_cons.mpr ⟨hnext, List.isChain_pair.mpr hback⟩

omit [DecidableEq N] in
theorem Hooking.Inv.holds {s : Hooking N} (hs : s.Inv) (hinit : s.hooks.initDone = true) :
    s.hooks.Holds s.listed := fun _ hi => hs.path hinit hi

omit [DecidableEq N] in
theorem Hooking.Inv.listed_length {s : Hooking N} (hs : s.Inv) (i : Nat × Nat) :
    (s.listed i).length < 2 := by
  rcases hs.listed_cases i with ⟨hnil, -⟩ | ⟨x, -, -, hone⟩
  · simp [hnil]
  · simp [hone]

theorem Hooking.Inv.isRegistered {s : Hooking N} (hs : s.Inv) (hinit : s.hooks.initDone = true)
    {x : N} (hx : (s.hooks.objects x).Usable) {fuel : Nat} (hfuel : 2 ≤ fuel) :
    s.hooks.hookIsRegistered fuel x = some (decide (x ∈ s.registered)) := by
  rw [(hs.holds hinit).isRegistered hx.layer_index
    fun i _ => (hs.listed_length i).trans_le hfuel]
  congr 2
  apply propext
  constructor
  · rintro ⟨j, -, hj⟩
    exact (Hooking.mem_listed.mp hj).1
  · intro hreg
    exact ⟨_, hx.priority_lt, Hooking.mem_listed.mpr ⟨hreg, rfl⟩⟩

omit [DecidableEq N] in
theorem Hooks.foldUntil_callHook {s : Hooks N} {dataLen : Int} {dir : Bool} {xs : List N}
    (hxs : ∀ x ∈ xs, (s.objects x).hookFunc.isSome = true) (run : HookRun N) :
    (foldUntil (s.callHook dataLen dir) run (xs.map .entry)).map (Sum.elim id id) =
      some (s.callAll dataLen dir run (xs.filter fun x => dir == (s.objects x).inAndOut)) := by
  induction xs generalizing run with
  | nil => rfl
  | cons x xs ih =>
    obtain ⟨hookFunc, hfunc⟩ := Option.isSome_iff_exists.mp (hxs x List.mem_cons_self)
    have ih := ih fun y hy => hxs y (List.mem_cons_of_mem x hy)
    rw [List.map_cons, foldUntil, callHook]
    by_cases hdir : dir = (s.objects x).inAndOut
    · rw [List.filter_cons_of_pos (by simpa using hdir), callAll]
      simp only [hdir, ne_eq, not_true, if_false, hfunc]
      by_cases hret : (hookFunc run.data dataLen (s.objects x).inAndOut).1 = 0
      · simp only [hret, not_true, if_false]
        rw [← hdir]
        exact ih _
      · simp [hret]
    · rw [List.filter_cons_of_neg (by simpa using hdir)]
      simp only [hdir, ne_eq, not_false_eq_true, if_true]
      exact ih run

omit [DecidableEq N] in
theorem Hooks.callAll_ret {s : Hooks N} {dataLen : Int} {dir : Bool} {xs : List N} (hne : xs ≠ [])
    (hxs : ∀ x ∈ xs, (s.objects x).hookFunc.isSome = true) (ret : Int) (bytes : List UInt8) :
    s.callAll dataLen dir ⟨ret, bytes, []⟩ xs = s.callAll dataLen dir ⟨0, bytes, []⟩ xs := by
  cases xs with
  | nil => exact absurd rfl hne
  | cons x xs =>
    obtain ⟨hookFunc, hfunc⟩ := Option.isSome_iff_exists.mp (hxs x List.mem_cons_self)
    rw [callAll, callAll, hfunc]

omit [DecidableEq N] in
theorem Hooking.mem_dispatch {s : Hooking N} {layer : Nat} {dir : Bool} {x : N} :
    x ∈ s.dispatch layer dir ↔ x ∈ s.registered ∧ (s.hooks.objects x).place.1 = layer ∧
      (s.hooks.objects x).place.2 < maxHookPriority ∧ (s.hooks.objects x).inAndOut = dir := by
  simp only [dispatch, List.mem_flatMap, List.mem_range, List.mem_filter, Bool.and_eq_true,
    decide_eq_true_eq, beq_iff_eq, UmtpHook.place, Prod.mk.injEq]
  constructor
  · rintro ⟨j, hj, hx, ⟨hlayer, rfl⟩, rfl⟩
    exact ⟨hx, hlayer, hj, rfl⟩
  · rintro ⟨hx, hlayer, hj, rfl⟩
    exact ⟨_, hj, hx, ⟨hlayer, rfl⟩, rfl⟩

omit [DecidableEq N] in
theorem Hooking.dispatch_listed (s : Hooking N) (layer : Nat) (dir : Bool) :
    s.dispatch layer dir = ((List.range maxHookPriority).flatMap fun j => s.listed (layer, j)).filter
      fun x => dir == (s.hooks.objects x).inAndOut := by
  rw [List.filter_flatMap, dispatch]
  congr 1
  funext j
  rw [listed, List.filter_filter]
  congr 1
  funext x
  exact Bool.and_comm _ _

omit [DecidableEq N] in
theorem Hooking.Inv.hasHooks {s : Hooking N} (hs : s.Inv) (layer : Nat) :
    s.hooks.hasHooks layer = true ↔ ∃ x ∈ s.registered, (s.hooks.objects x).place.1 = layer := by
  unfold Hooks.hasHooks
  by_cases hlayer : layer < hookMaxLayer
  · rw [if_neg (by omega), bit_tested (Nat.lt_trans hlayer (by decide))]
    exact hs.layer layer hlayer
  · rw [if_pos (by omega)]
    simp only [Bool.false_eq_true, false_iff]
    rintro ⟨x, hx, rfl⟩
    exact hlayer (hs.usable x hx).layer_lt

/-- At a layer that has hooks, those for the direction are called. -/
theorem Hooking.Inv.doHooks {s : Hooking N} (hs : s.Inv) {layer : Nat}
    (hlayer : ∃ x ∈ s.registered, (s.hooks.objects x).place.1 = layer) (bytes : List UInt8)
    {dataLen : Int} (hlen : 0 < dataLen) (dir : Bool) (ret : Int) {fuel : Nat} (hfuel : 2 ≤ fuel) :
    s.hooks.umtpDoHooks fuel layer (some bytes) dataLen dir ret =
      some (s.hooks.callAll dataLen dir ⟨ret, bytes, []⟩ (s.dispatch layer dir)) := by
  obtain ⟨y, hy, rfl⟩ := hlayer
  have hk := (hs.usable y hy).layer_lt
  have hinit : s.hooks.initDone = true := by
    cases hinit : s.hooks.initDone with
    | true => rfl
    | false =>
      rw [hs.init hinit] at hy
      cases hy
  have hpriority : ∀ j ∈ List.range maxHookPriority, ∀ run,
      s.hooks.doPriority fuel (s.hooks.objects y).place.1 dataLen dir run j =
        (FuelLoop.run (eachStep s.hooks.links (.head ((s.hooks.objects y).place.1, j))
          (s.hooks.callHook dataLen dir)) fuel
          (s.hooks.links.next (.head ((s.hooks.objects y).place.1, j)), run)).join := by
    intro j hj run
    have hj := List.mem_range.mp hj
    have hi : ((s.hooks.objects y).place.1, j) ∈ Hooks.heads := Hooks.mem_heads.mpr ⟨hk, hj⟩
    rw [Hooks.doPriority, (hs.holds hinit).each hi _ run ((hs.listed_length _).trans_le hfuel)]
    split
    · rename_i hclear
      rcases hs.listed_cases ((s.hooks.objects y).place.1, j) with ⟨hnil, -⟩ | ⟨x, hx, hxi, -⟩
      · rw [hnil]
        rfl
      · have hbit := (hs.pri _ hk j hj).mpr ⟨x, hx, hxi⟩
        rw [BitVec.and_comm] at hclear
        rw [← bit_tested (Nat.lt_trans hj (by decide)), bne, hclear] at hbit
        cases hbit
    · rfl
  have hfuncs : ∀ x ∈ (List.range maxHookPriority).flatMap fun j =>
      s.listed ((s.hooks.objects y).place.1, j), (s.hooks.objects x).hookFunc.isSome = true := by
    intro x hx
    obtain ⟨j, -, hj⟩ := List.mem_flatMap.mp hx
    exact (hs.usable x (Hooking.mem_listed.mp hj).1).hookFunc
  have hhas : s.hooks.hasHooks (s.hooks.objects y).place.1 = true :=
    (hs.hasHooks _).mpr ⟨y, hy, rfl⟩
  rw [Hooks.umtpDoHooks, hhas, foldUntil_congr hpriority,
    (hs.holds hinit).layer_each hk _ _ fun i _ => (hs.listed_length i).trans_le hfuel,
    Hooks.foldUntil_callHook hfuncs, ← s.dispatch_listed]
  simp [Int.not_le.mpr hlen]

theorem Hooking.Inv.dispatches_iff {s : Hooking N} (hs : s.Inv) (layer : Nat) (bytes : List UInt8)
    {dataLen : Int} (hlen : 0 < dataLen) (dir : Bool) :
    s.Dispatches layer bytes dataLen dir ↔
      (∀ x ∈ s.registered, (s.hooks.objects x).place.1 ≠ layer) ∨
        ∃ x ∈ s.registered, (s.hooks.objects x).place.1 = layer ∧
          (s.hooks.objects x).inAndOut = dir := by
  by_cases hlayer : ∃ x ∈ s.registered, (s.hooks.objects x).place.1 = layer
  · by_cases hdir : ∃ x ∈ s.registered, (s.hooks.objects x).place.1 = layer ∧
        (s.hooks.objects x).inAndOut = dir
    · refine iff_of_true (fun ret => ⟨2, fun fuel hfuel => ?_⟩) (.inr hdir)
      obtain ⟨x, hx, hpoint, hdir⟩ := hdir
      have hmem : x ∈ s.dispatch layer dir :=
        Hooking.mem_dispatch.mpr ⟨hx, hpoint, (hs.usable x hx).priority_lt, hdir⟩
      rw [hs.doHooks hlayer bytes hlen dir ret hfuel]
      congr 1
      apply Hooks.callAll_ret (List.ne_nil_of_mem hmem)
      intro y hy
      exact (hs.usable y (Hooking.mem_dispatch.mp hy).1).hookFunc
    · refine iff_of_false (fun h => ?_) ?_
      · have hnil : s.dispatch layer dir = [] := by
          rw [List.eq_nil_iff_forall_not_mem]
          intro x hx
          obtain ⟨hx, hpoint, -, hxdir⟩ := Hooking.mem_dispatch.mp hx
          exact hdir ⟨x, hx, hpoint, hxdir⟩
        obtain ⟨n, hn⟩ := h 1
        have hrun := hn (max n 2) (Nat.le_max_left n 2)
        rw [hs.doHooks hlayer bytes hlen dir 1 (Nat.le_max_right n 2), hnil] at hrun
        simp [Hooks.callAll] at hrun
      · rintro (hnone | hsome)
        · obtain ⟨x, hx, hpoint⟩ := hlayer
          exact hnone x hx hpoint
        · exact hdir hsome
  · have hnone : ∀ x ∈ s.registered, (s.hooks.objects x).place.1 ≠ layer :=
      fun x hx hpoint => hlayer ⟨x, hx, hpoint⟩
    refine iff_of_true (fun ret => ⟨0, fun fuel _ => ?_⟩) (.inl hnone)
    have hnil : s.dispatch layer dir = [] := by
      rw [List.eq_nil_iff_forall_not_mem]
      intro x hx
      obtain ⟨hx, hpoint, -⟩ := Hooking.mem_dispatch.mp hx
      exact hnone x hx hpoint
    have hhas : s.hooks.hasHooks layer = false := by
      rw [Bool.eq_false_iff]
      exact fun h => hlayer ((hs.hasHooks layer).mp h)
    rw [Hooks.umtpDoHooks, hhas, hnil]
    rfl

theorem heads_init (is : List (Nat × Nat)) (l : Links (ListHead (Nat × Nat) N)) :
    (∀ i, (is.foldl (fun links i => initListHead links (.head i)) l).next (.head i) =
      if i ∈ is then some (.head i) else l.next (.head i)) ∧
      ∀ x, (is.foldl (fun links i => initListHead links (.head i)) l).next (.entry x) =
          l.next (.entry x) ∧
        (is.foldl (fun links i => initListHead links (.head i)) l).prev (.entry x) =
          l.prev (.entry x) := by
  induction is generalizing l with
  | nil => simp
  | cons i is ih =>
    obtain ⟨hhead, hentry⟩ := ih (initListHead l (.head i))
    constructor
    · intro j
      rw [List.foldl_cons, hhead]
      by_cases hj : j ∈ is
      · simp [hj]
      · by_cases hji : j = i
        · simp [hji, initListHead]
        · simp [hj, hji, initListHead]
    · intro x
      rw [List.foldl_cons, (hentry x).1, (hentry x).2]
      simp [initListHead]

def Hooking.ready (s : Hooking N) : Hooking N :=
  ⟨if s.hooks.initDone then s.hooks else s.hooks.umtpHookInit, s.registered⟩

theorem Hooking.ready_initDone (s : Hooking N) : s.ready.hooks.initDone = true := by
  unfold ready
  cases hinit : s.hooks.initDone <;> simp [hinit, Hooks.umtpHookInit]

theorem Hooking.ready_objects (s : Hooking N) : s.ready.hooks.objects = s.hooks.objects := by
  unfold ready
  cases s.hooks.initDone <;> rfl

theorem Hooking.ready_entry (s : Hooking N) (x : N) :
    s.ready.hooks.links.next (.entry x) = s.hooks.links.next (.entry x) ∧
      s.ready.hooks.links.prev (.entry x) = s.hooks.links.prev (.entry x) := by
  unfold ready
  cases s.hooks.initDone with
  | true => exact ⟨rfl, rfl⟩
  | false => exact (heads_init Hooks.heads s.hooks.links).2 x

theorem Hooking.ready_cases (s : Hooking N) (hcold : s.hooks.initDone = false → s.registered = []) :
    s.ready = s ∨ s.registered = [] ∧ s.ready = ⟨s.hooks.umtpHookInit, []⟩ := by
  cases hinit : s.hooks.initDone with
  | true => exact .inl (by simp [ready, hinit])
  | false =>
    have hnil := hcold hinit
    exact .inr ⟨hnil, by simp [ready, hinit, hnil]⟩

theorem Hooking.Inv.ready {s : Hooking N} (hs : s.Inv) : s.ready.Inv := by
  rcases s.ready_cases hs.init with hsame | ⟨hnil, hready⟩
  · rwa [hsame]
  · rw [hready]
    have hlayer := hs.layer
    rw [hnil] at hlayer
    refine ⟨fun _ => rfl, ?_, List.nodup_nil, ?_, ?_, ?_, hlayer, ?_⟩
    · intro x hx
      cases hx
    · intro x hx
      cases hx
    · intro x hx
      cases hx
    · intro _ i hi _
      exact ((heads_init Hooks.heads s.hooks.links).1 i).trans (if_pos hi)
    · simp [Hooks.umtpHookInit]

theorem Hooking.Inv.add {s : Hooking N} (hs : s.Inv) (hinit : s.hooks.initDone = true) {x : N}
    (hx : (s.hooks.objects x).Usable) (hnew : x ∉ s.registered)
    (halone : ∀ y ∈ s.registered, (s.hooks.objects y).place ≠ (s.hooks.objects x).place)
    (hjoins : s.Joins x) :
    ∃ links, listAddTail s.hooks.links (.head (s.hooks.objects x).place) (.entry x) = some links ∧
      Hooking.Inv ⟨{ s.hooks with
        hookLayerFlag := s.hooks.hookLayerFlag ||| (1#32 <<< (s.hooks.objects x).place.1)
        priFlag := Function.update s.hooks.priFlag (s.hooks.objects x).place.1
          (s.hooks.priFlag (s.hooks.objects x).place.1 |||
            (1#32 <<< (s.hooks.objects x).place.2))
        links }, s.registered ++ [x]⟩ := by
  obtain ⟨u, hprev, hu, hnext⟩ : ∃ u, s.hooks.links.prev (.entry x) = some (.entry u) ∧
      u ∉ s.registered ∧
      (u ≠ x → s.hooks.links.next (.entry x) = some (.head (s.hooks.objects x).place)) := by
    rcases hjoins with hself | ⟨hnext, u, hprev, hu⟩
    · exact ⟨x, hself, hnew, fun h => absurd rfl h⟩
    · exact ⟨u, hprev, hu, fun _ => hnext⟩
  have hadd : listAddTail s.hooks.links (.head (s.hooks.objects x).place) (.entry x) =
      some (s.hooks.links.link (.head (s.hooks.objects x).place) (.entry u) (.entry x)) := by
    simp [listAddTail, __listAdd, storeNext, storePrev, hprev, Links.link]
  refine ⟨_, hadd, ?_⟩
  have hxi : ∀ y ∈ s.registered ++ [x], y ∈ s.registered ∨ y = x := by simp
  constructor
  · intro h
    rw [hinit] at h
    cases h
  · intro y hy
    rcases hxi y hy with hy | rfl
    · exact hs.usable y hy
    · exact hx
  · rw [List.nodup_append_comm]
    exact List.nodup_cons.mpr ⟨hnew, hs.nodup⟩
  · intro y hy z hz hyz
    rcases hxi y hy with hyold | rfl
    · rcases hxi z hz with hzold | rfl
      · exact hs.alone y hyold z hzold hyz
      · exact absurd hyz (halone y hyold)
    · rcases hxi z hz with hzold | rfl
      · exact absurd hyz.symm (halone z hzold)
      · rfl
  · intro y hy
    rcases hxi y hy with hy | rfl
    · obtain ⟨⟨hfirst, hback⟩, hlast⟩ := hs.held y hy
      have hyx : y ≠ x := fun h => hnew (h ▸ hy)
      have hyu : y ≠ u := fun h => hu (h ▸ hy)
      refine ⟨⟨?_, ?_⟩, ?_⟩
      · simpa [Links.link, halone y hy] using hfirst
      · simpa [Links.link, hyx] using hback
      · simpa [Links.link, hyu] using hlast
    · refine ⟨⟨by simp [Links.link], by simp [Links.link]⟩, ?_⟩
      by_cases hyu : y = u
      · simp [Links.link, hyu]
      · simpa [Links.link, hyu] using hnext fun h => hyu h.symm
  · intro _ i hi hnone
    have hix : (s.hooks.objects x).place ≠ i := hnone x (by simp)
    have hempty := hs.empty hinit i hi fun y hy => hnone y (by simp [hy])
    simpa [Links.link, Ne.symm hix] using hempty
  · intro k hk
    rw [bit_set (Nat.lt_trans hk (by decide)), Bool.or_eq_true, hs.layer k hk]
    simp [or_and_right, exists_or]
  · intro k hk j hj
    rw [priFlag_set (Nat.lt_trans hj (by decide)), Bool.or_eq_true, hs.pri k hk j hj]
    simp [or_and_right, exists_or]

theorem Hooking.Inv.remove {s : Hooking N} (hs : s.Inv) (hinit : s.hooks.initDone = true) {x : N}
    (hx : x ∈ s.registered)
    (hlast : ∀ y ∈ s.registered,
      (s.hooks.objects y).place.1 = (s.hooks.objects x).place.1 → y = x) :
    ∃ links, listDel s.hooks.links (.entry x) = some links ∧
      Hooking.Inv ⟨{ s.hooks with
        hookLayerFlag := s.hooks.hookLayerFlag &&& ~~~(1#32 <<< (s.hooks.objects x).place.1)
        priFlag := Function.update s.hooks.priFlag (s.hooks.objects x).place.1
          (s.hooks.priFlag (s.hooks.objects x).place.1 &&&
            ~~~(1#32 <<< (s.hooks.objects x).place.2))
        links }, s.registered.erase x⟩ := by
  obtain ⟨⟨-, hprev⟩, hnext⟩ := hs.held x hx
  have hmem : ∀ y, y ∈ s.registered.erase x ↔ y ≠ x ∧ y ∈ s.registered :=
    fun y => hs.nodup.mem_erase_iff
  refine ⟨_, listDel_some hnext hprev, ?_⟩
  constructor
  · intro h
    rw [hinit] at h
    cases h
  · intro y hy
    exact hs.usable y ((hmem y).mp hy).2
  · exact hs.nodup.erase x
  · intro y hy z hz
    exact hs.alone y ((hmem y).mp hy).2 z ((hmem z).mp hz).2
  · intro y hy
    obtain ⟨hyx, hy⟩ := (hmem y).mp hy
    obtain ⟨⟨hfirst, hback⟩, hend⟩ := hs.held y hy
    have hplace : (s.hooks.objects y).place ≠ (s.hooks.objects x).place :=
      fun h => hyx (hs.alone y hy x hx h)
    refine ⟨⟨?_, ?_⟩, ?_⟩
    · simpa [Links.join, hplace] using hfirst
    · simpa [Links.join] using hback
    · simpa [Links.join] using hend
  · intro _ i hi hnone
    by_cases hix : i = (s.hooks.objects x).place
    · simp [Links.join, hix]
    · have hempty := hs.empty hinit i hi fun y hy hyi => by
        by_cases hyx : y = x
        · exact hix (hyx ▸ hyi.symm)
        · exact hnone y ((hmem y).mpr ⟨hyx, hy⟩) hyi
      simpa [Links.join, hix] using hempty
  · intro k hk
    rw [bit_cleared (Nat.lt_trans hk (by decide)), Bool.and_eq_true, hs.layer k hk]
    constructor
    · rintro ⟨⟨y, hy, rfl⟩, hne⟩
      have hyx : y ≠ x := by
        rintro rfl
        simp at hne
      exact ⟨y, (hmem y).mpr ⟨hyx, hy⟩, rfl⟩
    · rintro ⟨y, hy, rfl⟩
      obtain ⟨hyx, hy⟩ := (hmem y).mp hy
      have hne : (s.hooks.objects x).place.1 ≠ (s.hooks.objects y).place.1 :=
        fun h => hyx (hlast y hy h.symm)
      exact ⟨⟨y, hy, rfl⟩, by simpa using hne⟩
  · intro k hk j hj
    have hkept : (∃ y ∈ s.registered.erase x, (s.hooks.objects y).place = (k, j)) ↔
        (∃ y ∈ s.registered, (s.hooks.objects y).place = (k, j)) ∧
          (s.hooks.objects x).place ≠ (k, j) := by
      constructor
      · rintro ⟨y, hy, hyk⟩
        obtain ⟨hyx, hy⟩ := (hmem y).mp hy
        exact ⟨⟨y, hy, hyk⟩, fun h => hyx (hs.alone y hy x hx (hyk.trans h.symm))⟩
      · rintro ⟨⟨y, hy, hyk⟩, hne⟩
        have hyx : y ≠ x := by
          rintro rfl
          exact hne hyk
        exact ⟨y, (hmem y).mpr ⟨hyx, hy⟩, hyk⟩
    show _ ↔ ∃ y ∈ s.registered.erase x, (s.hooks.objects y).place = (k, j)
    rw [hkept, ← hs.pri k hk j hj, priFlag_cleared (Nat.lt_trans hj (by decide)),
      Bool.and_eq_true, decide_eq_true_eq]

omit [DecidableEq N] in
theorem Hooking.written_ne {s : Hooking N} {x : N} (hx : x ∉ s.registered) :
    ∀ y ∈ s.registered, y ≠ x := by
  rintro y hy rfl
  exact hx hy

theorem Hooking.objects_written {s : Hooking N} {x : N} (hx : x ∉ s.registered)
    (hook : UmtpHook) : ∀ y ∈ s.registered,
      Function.update s.hooks.objects x hook y = s.hooks.objects y :=
  fun y hy => Function.update_of_ne (written_ne hx y hy) _ _

theorem Hooking.Inv.write {s : Hooking N} (hs : s.Inv) {x : N} (hx : x ∉ s.registered)
    (hook : UmtpHook) (next prev : Option (ListHead (Nat × Nat) N)) :
    Hooking.Inv ⟨{ s.hooks with
      objects := Function.update s.hooks.objects x hook
      links := (s.hooks.links.setNext (.entry x) next).setPrev (.entry x) prev },
      s.registered⟩ := by
  have hne := Hooking.written_ne hx
  have hsame := Hooking.objects_written hx hook
  constructor
  · exact hs.init
  · intro y hy
    show (Function.update s.hooks.objects x hook y).Usable
    rw [hsame y hy]
    exact hs.usable y hy
  · exact hs.nodup
  · intro y hy z hz
    show (Function.update s.hooks.objects x hook y).place =
      (Function.update s.hooks.objects x hook z).place → y = z
    rw [hsame y hy, hsame z hz]
    exact hs.alone y hy z hz
  · intro y hy
    obtain ⟨⟨hfirst, hback⟩, hlast⟩ := hs.held y hy
    dsimp only
    rw [hsame y hy]
    refine ⟨⟨?_, ?_⟩, ?_⟩
    · simpa using hfirst
    · simpa [hne y hy] using hback
    · simpa [hne y hy] using hlast
  · intro hinit i hi hnone
    have hempty := hs.empty hinit i hi fun y hy => by
      have := hnone y hy
      dsimp only at this
      rwa [hsame y hy] at this
    simpa using hempty
  · intro k hk
    rw [hs.layer k hk]
    constructor
    · rintro ⟨y, hy, hyk⟩
      refine ⟨y, hy, ?_⟩
      dsimp only
      rw [hsame y hy]
      exact hyk
    · rintro ⟨y, hy, hyk⟩
      dsimp only at hyk
      rw [hsame y hy] at hyk
      exact ⟨y, hy, hyk⟩
  · intro k hk j hj
    rw [hs.pri k hk j hj]
    constructor
    · rintro ⟨y, hy, hyk⟩
      refine ⟨y, hy, ?_⟩
      dsimp only
      rw [hsame y hy]
      exact hyk
    · rintro ⟨y, hy, hyk⟩
      dsimp only at hyk
      rw [hsame y hy] at hyk
      exact ⟨y, hy, hyk⟩

theorem Hooks.register_known {s : Hooks N} (hinit : s.initDone = true) {x : N}
    (hx : (s.objects x).refused = false) {fuel : Nat}
    (hreg : s.hookIsRegistered fuel x = some true) :
    s.umtpHookRegister fuel (some x) = some (-eexist, s) := by
  simp [umtpHookRegister, hinit, hx, hreg]

theorem Hooks.register_new {s : Hooks N} (hinit : s.initDone = true) {x : N}
    (hx : (s.objects x).Usable) {fuel : Nat} (hreg : s.hookIsRegistered fuel x = some false)
    {links : Links (ListHead (Nat × Nat) N)}
    (hadd : listAddTail s.links (.head (s.objects x).place) (.entry x) = some links) :
    s.umtpHookRegister fuel (some x) = some (0, { s with
      hookLayerFlag := s.hookLayerFlag ||| (1#32 <<< (s.objects x).place.1)
      priFlag := Function.update s.priFlag (s.objects x).place.1
        (s.priFlag (s.objects x).place.1 ||| (1#32 <<< (s.objects x).place.2))
      links }) := by
  simp [umtpHookRegister, hinit, hx.not_refused, hreg, hx.layer_index, hx.priority_index, hadd]

theorem Hooks.unregister_unknown {s : Hooks N} {x : N} (hx : (s.objects x).refused = false)
    {fuel : Nat} (hreg : s.hookIsRegistered fuel x = some false) :
    s.umtpHookUnregister fuel (some x) = some (-enoent, s) := by
  simp [umtpHookUnregister, hx, hreg]

theorem Hooks.unregister_known {s : Hooks N} {x : N} (hx : (s.objects x).Usable) {fuel : Nat}
    (hreg : s.hookIsRegistered fuel x = some true) {links : Links (ListHead (Nat × Nat) N)}
    (hdel : listDel s.links (.entry x) = some links) :
    s.umtpHookUnregister fuel (some x) = some (0, { s with
      hookLayerFlag := s.hookLayerFlag &&& ~~~(1#32 <<< (s.objects x).place.1)
      priFlag := Function.update s.priFlag (s.objects x).place.1
        (s.priFlag (s.objects x).place.1 &&& ~~~(1#32 <<< (s.objects x).place.2))
      links }) := by
  have hguard : (guard (0 ≤ (s.objects x).priority) : Option Unit) = some () :=
    if_pos hx.priority.1
  simp only [umtpHookUnregister, hx.not_refused, Bool.false_eq_true, if_false, hreg,
    hx.layer_index, hguard, hdel, Option.bind_eq_bind, Option.bind_some, if_true]
  rfl

theorem Hooking.register_ready (s : Hooking N) (fuel : Nat) (hook : Option N) :
    s.hooks.umtpHookRegister fuel hook = s.ready.hooks.umtpHookRegister fuel hook := by
  unfold Hooks.umtpHookRegister
  rw [s.ready_initDone]
  rfl

theorem register_step {s : Hooking N} (hs : s.Inv) {hook : Option N}
    (hvalid : (HookCall.register hook).Valid s) (hgood : (HookCall.register hook).Good s) :
    ∃ s', (∀ fuel ≥ 2, (HookCall.register hook).exec fuel s = some s') ∧ s'.Inv := by
  have hready := hs.ready
  have hinit := s.ready_initDone
  cases hook with
  | none => exact ⟨s.ready, fun fuel _ => rfl, hready⟩
  | some x =>
    have hx : (s.ready.hooks.objects x).Usable := by
      rw [s.ready_objects]
      exact hvalid x rfl
    by_cases hreg : x ∈ s.registered
    · refine ⟨s.ready, fun fuel hfuel => ?_, hready⟩
      have hfound := hready.isRegistered hinit hx hfuel
      rw [decide_eq_true (show x ∈ s.ready.registered from hreg)] at hfound
      simp only [HookCall.exec, s.register_ready, Hooks.register_known hinit hx.not_refused hfound]
      rfl
    · obtain ⟨halone, hjoins⟩ := hgood.resolve_left hreg
      have hjoins' : s.ready.Joins x := by
        rw [Hooking.Joins, (s.ready_entry x).1, (s.ready_entry x).2, s.ready_objects]
        exact hjoins
      rw [← s.ready_objects] at halone
      obtain ⟨links, hadd, hinv⟩ := hready.add hinit hx hreg halone hjoins'
      refine ⟨_, fun fuel hfuel => ?_, hinv⟩
      have hfound := hready.isRegistered hinit hx hfuel
      rw [decide_eq_false (show x ∉ s.ready.registered from hreg)] at hfound
      simp only [HookCall.exec, s.register_ready, Hooks.register_new hinit hx hfound hadd]
      rfl

theorem unregister_step {s : Hooking N} (hs : s.Inv) {hook : Option N}
    (hvalid : (HookCall.unregister hook).Valid s) (hgood : (HookCall.unregister hook).Good s) :
    ∃ s', (∀ fuel ≥ 2, (HookCall.unregister hook).exec fuel s = some s') ∧ s'.Inv := by
  cases hook with
  | none => exact ⟨s, fun fuel _ => rfl, hs⟩
  | some x =>
    have hx : (s.hooks.objects x).Usable := hvalid x rfl
    obtain ⟨hinit, hlast⟩ := hgood
    by_cases hreg : x ∈ s.registered
    · have hlayer : ∀ y ∈ s.registered,
          (s.hooks.objects y).place.1 = (s.hooks.objects x).place.1 → y = x := by
        intro y hy hyx
        have hpoint := hx.at_layer.mpr hyx.symm
        rw [← (hs.usable y hy).at_layer.mpr rfl] at hpoint
        exact hlast hreg y hy hpoint.symm
      obtain ⟨links, hdel, hinv⟩ := hs.remove hinit hreg hlayer
      refine ⟨_, fun fuel hfuel => ?_, hinv⟩
      have hfound := hs.isRegistered hinit hx hfuel
      rw [decide_eq_true hreg] at hfound
      simp only [HookCall.exec, Hooks.unregister_known hx hfound hdel]
      rfl
    · refine ⟨s, fun fuel hfuel => ?_, hs⟩
      have hfound := hs.isRegistered hinit hx hfuel
      rw [decide_eq_false hreg] at hfound
      simp [HookCall.exec, Hooks.unregister_unknown hx.not_refused hfound, enoent]

theorem hookCall_step {s : Hooking N} (hs : s.Inv) {c : HookCall N} (hvalid : c.Valid s)
    (hgood : c.Good s) : ∃ s', (∀ fuel ≥ 2, c.exec fuel s = some s') ∧ s'.Inv := by
  cases c with
  | register hook => exact register_step hs hvalid hgood
  | unregister hook => exact unregister_step hs hvalid hgood
  | write x hook next prev => exact ⟨_, fun fuel _ => rfl, hs.write hvalid hook next prev⟩

theorem hookStep_inv {s s' : Hooking N} (hs : s.Inv) {c : HookCall N} (hstep : HookStep s c s')
    (hgood : c.Good s) : s'.Inv := by
  obtain ⟨hvalid, n, hn⟩ := hstep
  obtain ⟨t, ht, hinv⟩ := hookCall_step hs hvalid hgood
  have hsame := (hn (max n 2) (Nat.le_max_left n 2)).symm.trans (ht _ (Nat.le_max_right n 2))
  cases hsame
  exact hinv

omit [DecidableEq N] in
theorem Hooking.start_inv (objects : N → UmtpHook) (links : Links (ListHead (Nat × Nat) N)) :
    (Hooking.start objects links).Inv := by
  constructor <;> simp [start]

/-- While every call is good, each comes back, and `umtp_do_hooks` follows the registrations
exactly at the layers that have no hooks at all or have one for the direction. -/
theorem hook_dispatch (objects : N → UmtpHook) (links : Links (ListHead (Nat × Nat) N))
    {calls : List (HookCall N)} {s : Hooking N}
    (hr : Run (fun s c s' => HookStep s c s' ∧ c.Good s) (Hooking.start objects links) calls s) :
    (∀ (layer : Nat) (bytes : List UInt8) (dataLen : Int) (dir : Bool), 0 < dataLen →
      (s.Dispatches layer bytes dataLen dir ↔
        (∀ x ∈ s.registered, (s.hooks.objects x).hookPoint ≠ layer) ∨
          ∃ x ∈ s.registered, (s.hooks.objects x).hookPoint = layer ∧
            (s.hooks.objects x).inAndOut = dir)) ∧
      ∀ c : HookCall N, c.Valid s → c.Good s → ∃ s', HookStep s c s' := by
  have hs : s.Inv := hr.invariant Hooking.Inv (fun _ _ _ hs h => hookStep_inv hs h.1 h.2)
    (Hooking.start_inv objects links)
  refine ⟨fun layer bytes dataLen dir hlen => ?_, ?_⟩
  · rw [hs.dispatches_iff layer bytes hlen dir]
    have hlayer : ∀ x ∈ s.registered,
        (s.hooks.objects x).hookPoint = layer ↔ (s.hooks.objects x).place.1 = layer :=
      fun x hx => (hs.usable x hx).at_layer
    grind
  · intro c hvalid hgood
    obtain ⟨s', hexec, -⟩ := hookCall_step hs hvalid hgood
    exact ⟨s', hvalid, 2, hexec⟩

/-- Two hooks for the same place and direction, each linked to itself. -/
def twoHooks : Hooking Bool :=
  Hooking.start (fun _ => ⟨true, 0, 0, some fun bytes _ _ => (0, bytes)⟩)
    ⟨fun a => match a with | .head _ => none | .entry x => some (.entry x),
      fun a => match a with | .head _ => none | .entry x => some (.entry x)⟩

theorem twoHooks_usable : UmtpHook.Usable ⟨true, 0, 0, some fun bytes _ _ => (0, bytes)⟩ :=
  ⟨by decide, by decide, rfl⟩

def firstHook : Hooking Bool := ((HookCall.register (some false)).exec 2 twoHooks).getD twoHooks

def bothHooks : Hooking Bool := ((HookCall.register (some true)).exec 2 firstHook).getD firstHook

theorem firstHook_step : HookStep twoHooks (.register (some false)) firstHook := by
  refine ⟨fun _ _ => twoHooks_usable, 2, fun fuel hfuel => ?_⟩
  obtain ⟨k, rfl⟩ : ∃ k, fuel = k + 2 := ⟨fuel - 2, by omega⟩
  rfl

theorem bothHooks_step : HookStep firstHook (.register (some true)) bothHooks := by
  refine ⟨fun _ _ => twoHooks_usable, 2, fun fuel hfuel => ?_⟩
  obtain ⟨k, rfl⟩ : ∃ k, fuel = k + 2 := ⟨fuel - 2, by omega⟩
  rfl

/-- Two hooks of layer 0, of which `some false` has the higher priority, and one of layer 1. -/
def threeHooks : Hooking (Option Bool) :=
  Hooking.start (fun x => ⟨true, (x.getD false).toInt, (x.elim 1 fun _ => 0),
      some fun bytes _ _ => (0, bytes)⟩)
    ⟨fun a => match a with | .head _ => none | .entry x => some (.entry x),
      fun a => match a with | .head _ => none | .entry x => some (.entry x)⟩

theorem threeHooks_usable (x : Option Bool) : (threeHooks.hooks.objects x).Usable := by
  cases x with
  | none => exact ⟨by decide, by decide, rfl⟩
  | some x => cases x <;> exact ⟨by decide, by decide, rfl⟩

def threeHookCalls : List (HookCall (Option Bool)) :=
  [.register (some (some true)), .register (some none), .register (some (some false)),
    .unregister (some none)]

def hooksAfter (k : Nat) : Hooking (Option Bool) :=
  (threeHookCalls.take k).foldl (fun s c => (c.exec 2 s).getD s) threeHooks

theorem hooksAfter_step {k : Nat} {c : HookCall (Option Bool)} (hvalid : c.Valid (hooksAfter k))
    (hexec : ∀ fuel, c.exec (fuel + 2) (hooksAfter k) = some (hooksAfter (k + 1))) :
    HookStep (hooksAfter k) c (hooksAfter (k + 1)) := by
  refine ⟨hvalid, 2, fun fuel hfuel => ?_⟩
  obtain ⟨fuel, rfl⟩ : ∃ n, fuel = n + 2 := ⟨fuel - 2, by omega⟩
  exact hexec fuel

theorem threeHooks_run : Run (fun s c s' => HookStep s c s' ∧ c.Good s) threeHooks threeHookCalls
    (hooksAfter 4) := by
  have hfirst : HookStep threeHooks (.register (some (some true))) (hooksAfter 1) :=
    hooksAfter_step (k := 0) (fun x _ => threeHooks_usable x) fun _ => rfl
  have hlayer : HookStep (hooksAfter 1) (.register (some none)) (hooksAfter 2) :=
    hooksAfter_step (fun x _ => threeHooks_usable x) fun _ => rfl
  have hsecond : HookStep (hooksAfter 2) (.register (some (some false))) (hooksAfter 3) :=
    hooksAfter_step (fun x _ => threeHooks_usable x) fun _ => rfl
  have hgone : HookStep (hooksAfter 3) (.unregister (some none)) (hooksAfter 4) :=
    hooksAfter_step (fun x _ => threeHooks_usable x) fun _ => rfl
  have hlayerFree : ∀ y ∈ [some true],
      (threeHooks.hooks.objects y).place ≠ (threeHooks.hooks.objects none).place := by decide
  have hsecondFree : ∀ y ∈ [some true, none],
      (threeHooks.hooks.objects y).place ≠ (threeHooks.hooks.objects (some false)).place := by decide
  have hlast : ∀ y ∈ [some true, none, some false], (threeHooks.hooks.objects y).hookPoint =
      (threeHooks.hooks.objects none).hookPoint → y = none := by decide
  exact (((Run.nil.snoc ⟨hfirst, .inr ⟨fun y hy => (List.not_mem_nil hy).elim, .inl rfl⟩⟩).snoc
    ⟨hlayer, .inr ⟨hlayerFree, .inl rfl⟩⟩).snoc ⟨hsecond, .inr ⟨hsecondFree, .inl rfl⟩⟩).snoc
    ⟨hgone, rfl, fun _ => hlast⟩

theorem hook_dispatch_three :
    (hooksAfter 4).registered = [some true, some false] ∧
      (hooksAfter 4).dispatch 0 true = [some false, some true] ∧
      (hooksAfter 4).Dispatches 0 [7] 1 true ∧ ¬ (hooksAfter 4).Dispatches 0 [7] 1 false ∧
      (hooksAfter 4).Dispatches 1 [7] 1 true := by
  have hiff := (hook_dispatch _ _ threeHooks_run).1
  refine ⟨rfl, rfl, ?_, fun h => ?_, ?_⟩
  · exact (hiff 0 [7] 1 true (by decide)).mpr (.inr ⟨some true, List.mem_cons_self, rfl, rfl⟩)
  · rcases (hiff 0 [7] 1 false (by decide)).mp h with hnone | ⟨x, -, -, hdir⟩
    · exact hnone (some true) List.mem_cons_self rfl
    · cases hdir
  · refine (hiff 1 [7] 1 true (by decide)).mpr (.inl ?_)
    show ∀ x ∈ [some true, some false], (threeHooks.hooks.objects x).hookPoint ≠ 1
    decide

/-- A second hook at a place takes the list from the first: only the second is called. -/
theorem second_hook_replaces_first :
    Run HookStep twoHooks [.register (some false), .register (some true)] bothHooks ∧
      bothHooks.registered = [false, true] ∧ bothHooks.dispatch 0 true = [false, true] ∧
      (∀ ret, ∃ n, ∀ fuel ≥ n, bothHooks.hooks.umtpDoHooks fuel 0 (some [7]) 1 true ret =
        some ⟨0, [7], [true]⟩) ∧
      ¬ bothHooks.Dispatches 0 [7] 1 true := by
  have hcalls : ∀ ret, ∀ fuel ≥ 2, bothHooks.hooks.umtpDoHooks fuel 0 (some [7]) 1 true ret =
      some ⟨0, [7], [true]⟩ := by
    intro ret fuel hfuel
    obtain ⟨k, rfl⟩ : ∃ k, fuel = k + 2 := ⟨fuel - 2, by omega⟩
    rfl
  refine ⟨(Run.nil.snoc firstHook_step).snoc bothHooks_step, rfl, rfl,
    fun ret => ⟨2, hcalls ret⟩, fun h => ?_⟩
  obtain ⟨n, hn⟩ := h 0
  have hboth := hn (max n 2) (Nat.le_max_left n 2)
  rw [hcalls 0 _ (Nat.le_max_right n 2)] at hboth
  cases hboth

end Umtp
