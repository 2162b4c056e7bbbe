import Umtp.HookDispatch

set_option autoImplicit false

namespace Umtp
open LinkedRing FiniteRun

variable {N : Type}

inductive HookAct (N : Type) where
  | init
  | call (c : HookCall N)

def HookAct.Valid (s : Hooking N) : HookAct N → Prop
  | .init => True
  | .call c => c.Valid s

/-- Bit `j` of `hooks[k].pri_flag` is for the hooks of layer `k` with priority `j`, and bit `k`
of `hook_layer_flag` for all of the layer. -/
structure Hooking.FlagsAgree (s : Hooking N) : Prop where
  pri : ∀ k < hookMaxLayer, ∀ j < 32, (s.hooks.priFlag k).getLsbD j = true ↔
    ∃ x ∈ s.registered, (s.hooks.objects x).place = (k, j)
  layer : ∀ k < hookMaxLayer,
    s.hooks.hookLayerFlag.getLsbD k = true ↔ s.hooks.priFlag k ≠ 0

/-- Neither mask keeps `umtp_do_hooks` from the list of the hook. -/
def Hooking.Shows (s : Hooking N) (x : N) : Prop :=
  s.hooks.hasHooks (s.hooks.objects x).place.1 = true ∧
    ((1#32 <<< (s.hooks.objects x).place.2) &&& s.hooks.priFlag (s.hooks.objects x).place.1) ≠ 0

variable [DecidableEq N]

/-- The result, and the hooks afterwards: `umtp_hook_init` drops them all. -/
def HookAct.exec (fuel : Nat) (s : Hooking N) : HookAct N → Option (Int × Hooking N)
  | .init => some (0, ⟨s.hooks.umtpHookInit, []⟩)
  | .call (.register hook) => do
    let (ret, hooks) ← s.hooks.umtpHookRegister fuel hook
    return (ret, ⟨hooks, if ret = 0 then s.registered ++ hook.toList else s.registered⟩)
  | .call (.unregister hook) => do
    let (ret, hooks) ← s.hooks.umtpHookUnregister fuel hook
    return (ret,
      ⟨hooks, if ret = 0 then s.registered.filter (fun x => some x ≠ hook) else s.registered⟩)
  | .call (.write x hook next prev) => do
    let s' ← (HookCall.write x hook next prev).exec fuel s
    return (0, s')

/-- The call comes back with this result, however many more rounds it is given. -/
def HookAct.Returns (s : Hooking N) (a : HookAct N) (ret : Int) (s' : Hooking N) : Prop :=
  ∃ n, ∀ fuel ≥ n, a.exec fuel s = some (ret, s')

def HookActStep (s : Hooking N) (a : HookAct N) (s' : Hooking N) : Prop :=
  a.Valid s ∧ ∃ ret, a.Returns s ret s'

def Hooks.Finds (s : Hooks N) (x : N) : Prop :=
  ∃ n, ∀ fuel ≥ n, s.hookIsRegistered fuel x = some true

/-- A hook that is taken out leaves no other at its layer, and an initialisation none at all. -/
def HookAct.LeavesNone (s : Hooking N) : HookAct N → Prop
  | .init => s.registered = []
  | .call (.unregister (some x)) => s.hooks.Finds x → ∀ y ∈ s.registered,
      (s.hooks.objects y).hookPoint = (s.hooks.objects x).hookPoint → y = x
  | _ => True

theorem Hooks.register_cases {s s' : Hooks N} (hinit : s.initDone = true) {x : N}
    (hx : (s.objects x).Usable) {fuel : Nat} {ret : Int}
    (h : s.umtpHookRegister fuel (some x) = some (ret, s')) :
    (ret = -eexist ∧ s' = s) ∨ (ret = 0 ∧ ∃ links, s' = { s with
      hookLayerFlag := s.hookLayerFlag ||| (1#32 <<< (s.objects x).place.1)
      priFlag := Function.update s.priFlag (s.objects x).place.1
        (s.priFlag (s.objects x).place.1 ||| (1#32 <<< (s.objects x).place.2))
      links }) := by
  cases hreg : s.hookIsRegistered fuel x with
  | none => simp [umtpHookRegister, hinit, hx.not_refused, hreg] at h
  | some found =>
    cases found with
    | true =>
      rw [Hooks.register_known hinit hx.not_refused hreg] at h
      cases h
      exact .inl ⟨rfl, rfl⟩
    | false =>
      cases hadd : listAddTail s.links (.head (s.objects x).place) (.entry x) with
      | none =>
        simp [umtpHookRegister, hinit, hx.not_refused, hreg, hx.layer_index, hx.priority_index,
          hadd] at h
      | some links =>
        rw [Hooks.register_new hinit hx hreg hadd] at h
        cases h
        exact .inr ⟨rfl, links, rfl⟩

theorem Hooks.unregister_cases {s s' : Hooks N} {x : N} (hx : (s.objects x).Usable) {fuel : Nat}
    {ret : Int} (h : s.umtpHookUnregister fuel (some x) = some (ret, s')) :
    (ret = -enoent ∧ s.hookIsRegistered fuel x = some false ∧ s' = s) ∨
      (ret = 0 ∧ s.hookIsRegistered fuel x = some true ∧ ∃ links, s' = { s with
        hookLayerFlag := s.hookLayerFlag &&& ~~~(1#32 <<< (s.objects x).place.1)
        priFlag := Function.update s.priFlag (s.objects x).place.1
          (s.priFlag (s.objects x).place.1 &&& ~~~(1#32 <<< (s.objects x).place.2))
        links }) := by
  cases hreg : s.hookIsRegistered fuel x with
  | none => simp [umtpHookUnregister, hx.not_refused, hreg] at h
  | some found =>
    cases found with
    | false =>
      rw [Hooks.unregister_unknown hx.not_refused hreg] at h
      cases h
      exact .inl ⟨rfl, rfl, rfl⟩
    | true =>
      cases hdel : listDel s.links (.entry x) with
      | none => simp [umtpHookUnregister, hx.not_refused, hreg, hx.layer_index, hdel] at h
      | some links =>
        rw [Hooks.unregister_known hx hreg hdel] at h
        cases h
        exact .inr ⟨rfl, rfl, links, rfl⟩

structure Hooking.FlagsInv (s : Hooking N) : Prop where
  pri : ∀ k < hookMaxLayer, ∀ j < 32, (s.hooks.priFlag k).getLsbD j = true ↔
    ∃ x ∈ s.registered, (s.hooks.objects x).place = (k, j)
  layer : ∀ k < hookMaxLayer, s.hooks.hookLayerFlag.getLsbD k = true ↔
    ∃ x ∈ s.registered, (s.hooks.objects x).place.1 = k
  usable : ∀ x ∈ s.registered, (s.hooks.objects x).Usable
  init : s.hooks.initDone = false → s.registered = []

omit [DecidableEq N] in
theorem Hooking.priFlag_ne_zero {s : Hooking N} {k : Nat}
    (hpri : ∀ j < 32, (s.hooks.priFlag k).getLsbD j = true ↔
      ∃ x ∈ s.registered, (s.hooks.objects x).place = (k, j))
    (husable : ∀ x ∈ s.registered, (s.hooks.objects x).Usable) :
    s.hooks.priFlag k ≠ 0 ↔ ∃ x ∈ s.registered, (s.hooks.objects x).place.1 = k := by
  constructor
  · intro hne
    by_contra hnone
    apply hne
    apply BitVec.eq_of_getLsbD_eq
    intro j hj
    rw [Bool.eq_iff_iff, hpri j hj]
    simp only [BitVec.ofNat_eq_ofNat, BitVec.getLsbD_zero, Bool.false_eq_true, iff_false]
    rintro ⟨x, hx, hplace⟩
    exact hnone ⟨x, hx, congrArg Prod.fst hplace⟩
  · rintro ⟨x, hx, rfl⟩ hzero
    have hlt : (s.hooks.objects x).place.2 < 32 :=
      Nat.lt_trans (husable x hx).priority_lt (by decide)
    have hbit := (hpri _ hlt).mpr ⟨x, hx, rfl⟩
    rw [hzero] at hbit
    simp at hbit

omit [DecidableEq N] in
theorem Hooking.FlagsInv.agree {s : Hooking N} (hs : s.FlagsInv) : s.FlagsAgree where
  pri := hs.pri
  layer k hk := (hs.layer k hk).trans (Hooking.priFlag_ne_zero (hs.pri k hk) hs.usable).symm

omit [DecidableEq N] in
theorem Hooking.FlagsAgree.inv {s : Hooking N} (hs : s.FlagsAgree)
    (husable : ∀ x ∈ s.registered, (s.hooks.objects x).Usable)
    (hinit : s.hooks.initDone = false → s.registered = []) : s.FlagsInv where
  pri := hs.pri
  layer k hk := (hs.layer k hk).trans (Hooking.priFlag_ne_zero (hs.pri k hk) husable)
  usable := husable
  init := hinit

omit [DecidableEq N] in
theorem Hooking.FlagsInv.shows {s : Hooking N} (hs : s.FlagsInv) {x : N} (hx : x ∈ s.registered) :
    s.Shows x := by
  have hlayer := (hs.usable x hx).layer_lt
  have hlt : (s.hooks.objects x).place.2 < 32 :=
    Nat.lt_trans (hs.usable x hx).priority_lt (by decide)
  constructor
  · rw [Hooks.hasHooks, if_neg (by omega), bit_tested (Nat.lt_trans hlayer (by decide))]
    exact (hs.layer _ hlayer).mpr ⟨x, hx, rfl⟩
  · have hbit := (hs.pri _ hlayer _ hlt).mpr ⟨x, hx, rfl⟩
    rw [← bit_tested hlt, BitVec.and_comm] at hbit
    simpa using hbit

/-- An initialisation clears one of the masks only. -/
theorem Hooking.FlagsInv.of_init {s : Hooking N} (hs : s.FlagsInv)
    (h : Hooking.FlagsAgree ⟨s.hooks.umtpHookInit, []⟩) : s.registered = [] := by
  rw [List.eq_nil_iff_forall_not_mem]
  intro x hx
  have hlayer := (hs.usable x hx).layer_lt
  have hbit := (hs.layer _ hlayer).mpr ⟨x, hx, rfl⟩
  exact (h.layer _ hlayer).mp hbit rfl

theorem Hooking.FlagsInv.initialised {s : Hooking N} (hs : s.FlagsInv) (hnil : s.registered = []) :
    Hooking.FlagsInv ⟨s.hooks.umtpHookInit, []⟩ := by
  have hlayer := hs.layer
  rw [hnil] at hlayer
  exact ⟨by simp [Hooks.umtpHookInit], hlayer, by simp, fun _ => rfl⟩

theorem Hooking.FlagsInv.ready {s : Hooking N} (hs : s.FlagsInv) : s.ready.FlagsInv := by
  rcases s.ready_cases hs.init with hsame | ⟨hnil, hready⟩
  · rwa [hsame]
  · rw [hready]
    exact hs.initialised hnil

def Hooking.including (s : Hooking N) (x : N) (links : Links (ListHead (Nat × Nat) N)) :
    Hooking N where
  hooks :=
    { s.hooks with
      hookLayerFlag := s.hooks.hookLayerFlag ||| (1#32 <<< (s.hooks.objects x).place.1)
      priFlag := Function.update s.hooks.priFlag (s.hooks.objects x).place.1
        (s.hooks.priFlag (s.hooks.objects x).place.1 ||| (1#32 <<< (s.hooks.objects x).place.2))
      links }
  registered := s.registered ++ [x]

omit [DecidableEq N] in
theorem Hooking.mem_including {s : Hooking N} {x y : N}
    {links : Links (ListHead (Nat × Nat) N)} :
    y ∈ (s.including x links).registered ↔ y ∈ s.registered ∨ y = x := by
  simp [including]

omit [DecidableEq N] in
theorem Hooking.FlagsInv.including {s : Hooking N} (hs : s.FlagsInv)
    (hinit : s.hooks.initDone = true) {x : N} (hx : (s.hooks.objects x).Usable)
    (links : Links (ListHead (Nat × Nat) N)) : (s.including x links).FlagsInv := by
  refine ⟨fun k hk j hj => ?_, fun k hk => ?_, fun y hy => ?_, fun h => ?_⟩
  · simp only [Hooking.including]
    rw [priFlag_set hj, Bool.or_eq_true, hs.pri k hk j hj]
    simp [or_and_right, exists_or]
  · simp only [Hooking.including]
    rw [bit_set (Nat.lt_trans hk (by decide)), Bool.or_eq_true, hs.layer k hk]
    simp [or_and_right, exists_or]
  · rcases Hooking.mem_including.mp hy with hy | rfl
    · exact hs.usable y hy
    · exact hx
  · exact absurd (hinit.symm.trans h) (by decide)

def Hooking.without (s : Hooking N) (x : N) (links : Links (ListHead (Nat × Nat) N)) : Hooking N where
  hooks :=
    { s.hooks with
      hookLayerFlag := s.hooks.hookLayerFlag &&& ~~~(1#32 <<< (s.hooks.objects x).place.1)
      priFlag := Function.update s.hooks.priFlag (s.hooks.objects x).place.1
        (s.hooks.priFlag (s.hooks.objects x).place.1 &&&
          ~~~(1#32 <<< (s.hooks.objects x).place.2))
      links }
  registered := s.registered.filter fun y => some y ≠ some x

theorem Hooking.mem_without {s : Hooking N} {x y : N} {links : Links (ListHead (Nat × Nat) N)} :
    y ∈ (s.without x links).registered ↔ y ∈ s.registered ∧ y ≠ x := by simp [without]

section

variable {s : Hooking N} (hs : s.FlagsInv) {x : N} (hx : (s.hooks.objects x).Usable)
  (links : Links (ListHead (Nat × Nat) N))

include hs hx

/-- The bit of the layer is cleared, whatever else the layer has. -/
theorem Hooking.FlagsInv.of_without (h : (s.without x links).FlagsAgree) : ∀ y ∈ s.registered,
    (s.hooks.objects y).place.1 = (s.hooks.objects x).place.1 → y = x := by
  intro y hy hlayer
  by_contra hyx
  have hcleared : (s.hooks.hookLayerFlag &&& ~~~(1#32 <<< (s.hooks.objects x).place.1)).getLsbD
      (s.hooks.objects x).place.1 = false := by
    rw [bit_cleared (Nat.lt_trans hx.layer_lt (by decide))]
    simp
  have hbits := Hooking.priFlag_ne_zero (h.pri _ hx.layer_lt)
    fun z hz => hs.usable z (Hooking.mem_without.mp hz).1
  have hmem : y ∈ (s.without x links).registered := Hooking.mem_without.mpr ⟨hy, hyx⟩
  have hset := (h.layer _ hx.layer_lt).mpr (hbits.mpr ⟨y, hmem, hlayer⟩)
  exact Bool.false_ne_true (hcleared.symm.trans hset)

omit hx in
theorem Hooking.FlagsInv.without (hlast : ∀ y ∈ s.registered,
    (s.hooks.objects y).place.1 = (s.hooks.objects x).place.1 → y = x) :
    (s.without x links).FlagsInv := by
  refine ⟨fun k hk j hj => ?_, fun k hk => ?_,
    fun y hy => hs.usable y (Hooking.mem_without.mp hy).1, fun h => ?_⟩
  · simp only [Hooking.mem_without]
    simp only [Hooking.without]
    rw [priFlag_cleared hj, Bool.and_eq_true, hs.pri k hk j hj]
    constructor
    · rintro ⟨⟨y, hy, hplace⟩, hne⟩
      refine ⟨y, ⟨hy, ?_⟩, hplace⟩
      rintro rfl
      simp [hplace] at hne
    · rintro ⟨y, ⟨hy, hyx⟩, hplace⟩
      refine ⟨⟨y, hy, hplace⟩, ?_⟩
      simp only [ne_eq, decide_eq_true_eq]
      exact fun hxk => hyx (hlast y hy (congrArg Prod.fst (hplace.trans hxk.symm) :))
  · simp only [Hooking.mem_without]
    simp only [Hooking.without]
    rw [bit_cleared (Nat.lt_trans hk (by decide)), Bool.and_eq_true, hs.layer k hk]
    constructor
    · rintro ⟨⟨y, hy, hlayer⟩, hne⟩
      refine ⟨y, ⟨hy, ?_⟩, hlayer⟩
      rintro rfl
      simp [hlayer] at hne
    · rintro ⟨y, ⟨hy, hyx⟩, hlayer⟩
      refine ⟨⟨y, hy, hlayer⟩, ?_⟩
      simp only [ne_eq, decide_eq_true_eq]
      rintro rfl
      exact hyx (hlast y hy hlayer)
  · simp [Hooking.without, hs.init h]

end

theorem Hooking.FlagsInv.write {s : Hooking N} (hs : s.FlagsInv) {x : N} (hx : x ∉ s.registered)
    (hook : UmtpHook) (links : Links (ListHead (Nat × Nat) N)) :
    Hooking.FlagsInv ⟨{ s.hooks with
      objects := Function.update s.hooks.objects x hook
      links }, s.registered⟩ := by
  have hsame := Hooking.objects_written hx hook
  have hwhere : ∀ P : UmtpHook → Prop,
      (∃ y ∈ s.registered, P (Function.update s.hooks.objects x hook y)) ↔
        ∃ y ∈ s.registered, P (s.hooks.objects y) := by
    intro P
    exact exists_congr fun y => and_congr_right fun hy => by rw [hsame y hy]
  refine ⟨fun k hk j hj => ?_, fun k hk => ?_, fun y hy => ?_, hs.init⟩
  · exact (hs.pri k hk j hj).trans (hwhere fun hook => hook.place = (k, j)).symm
  · exact (hs.layer k hk).trans (hwhere fun hook => hook.place.1 = k).symm
  · dsimp only
    rw [hsame y hy]
    exact hs.usable y hy

theorem register_flags {s s' : Hooking N} (hs : s.FlagsInv) {hook : Option N}
    (hvalid : ∀ x ∈ hook, (s.hooks.objects x).Usable) {fuel : Nat} {ret : Int}
    (h : (HookAct.call (.register hook)).exec fuel s = some (ret, s')) : s'.FlagsInv := by
  obtain ⟨⟨r, hooks⟩, hreg, hret⟩ := Option.bind_eq_some_iff.mp h
  cases hret
  rw [s.register_ready] at hreg
  have hready := hs.ready
  cases hook with
  | none =>
    rw [Hooks.umtpHookRegister, s.ready_initDone] at hreg
    cases hreg
    exact hready
  | some x =>
    have hx : (s.ready.hooks.objects x).Usable := by
      rw [s.ready_objects]
      exact hvalid x rfl
    rcases Hooks.register_cases s.ready_initDone hx hreg with ⟨rfl, rfl⟩ | ⟨rfl, links, rfl⟩
    · exact hready
    · exact hready.including s.ready_initDone hx links

theorem unregister_flags {s s' : Hooking N} {x : N} (hx : (s.hooks.objects x).Usable) {ret : Int}
    (h : (HookAct.call (.unregister (some x))).Returns s ret s') :
    (¬ s.hooks.Finds x ∧ s' = s) ∨ (s.hooks.Finds x ∧ ∃ links, s' = s.without x links) := by
  obtain ⟨n, hn⟩ := h
  have hcases : ∀ fuel ≥ n, (s.hooks.hookIsRegistered fuel x = some false ∧ s' = s) ∨
      (s.hooks.hookIsRegistered fuel x = some true ∧ ∃ links, s' = s.without x links) := by
    intro fuel hfuel
    obtain ⟨⟨r, hooks⟩, hunreg, hret⟩ := Option.bind_eq_some_iff.mp (hn fuel hfuel)
    cases hret
    rcases Hooks.unregister_cases hx hunreg with ⟨rfl, hfound, rfl⟩ | ⟨rfl, hfound, links, rfl⟩
    · exact .inl ⟨hfound, rfl⟩
    · exact .inr ⟨hfound, links, rfl⟩
  by_cases hfinds : s.hooks.Finds x
  · obtain ⟨m, hm⟩ := hfinds
    rcases hcases (max n m) (Nat.le_max_left n m) with ⟨hfound, -⟩ | ⟨-, hout⟩
    · rw [hm _ (Nat.le_max_right n m)] at hfound
      cases hfound
    · exact .inr ⟨⟨m, hm⟩, hout⟩
  · refine .inl ⟨hfinds, ?_⟩
    by_contra hne
    refine hfinds ⟨n, fun fuel hfuel => ?_⟩
    exact ((hcases fuel hfuel).resolve_left fun h => hne h.2).1

omit [DecidableEq N] in
theorem Hooking.FlagsInv.same_layer {s : Hooking N} (hs : s.FlagsInv) {x : N}
    (hx : (s.hooks.objects x).Usable) :
    (∀ y ∈ s.registered, (s.hooks.objects y).hookPoint = (s.hooks.objects x).hookPoint → y = x) ↔
      ∀ y ∈ s.registered,
        (s.hooks.objects y).place.1 = (s.hooks.objects x).place.1 → y = x := by
  refine forall₂_congr fun y hy => ?_
  rw [hx.at_layer.mpr rfl, (hs.usable y hy).at_layer]

/-- The calls that leave none behind, and no others, keep the masks right. -/
theorem hookAct_flags {s s' : Hooking N} (hs : s.FlagsInv) {a : HookAct N}
    (hstep : HookActStep s a s') :
    (a.LeavesNone s → s'.FlagsInv) ∧ (s'.FlagsAgree → a.LeavesNone s) := by
  obtain ⟨hvalid, ret, hreturns⟩ := hstep
  obtain ⟨n, hn⟩ := hreturns
  have hexec := hn n (Nat.le_refl n)
  cases a with
  | init =>
    cases hexec
    exact ⟨hs.initialised, hs.of_init⟩
  | call c =>
    cases c with
    | register hook => exact ⟨fun _ => register_flags hs hvalid hexec, fun _ => trivial⟩
    | write x hook next prev =>
      cases hexec
      exact ⟨fun _ => hs.write hvalid hook _, fun _ => trivial⟩
    | unregister hook =>
      cases hook with
      | none =>
        cases hexec
        exact ⟨fun _ => hs, fun _ => trivial⟩
      | some x =>
        have hx : (s.hooks.objects x).Usable := hvalid x rfl
        rcases unregister_flags hx ⟨n, hn⟩ with ⟨hfinds, rfl⟩ | ⟨hfinds, links, rfl⟩
        · exact ⟨fun _ => hs, fun _ h => absurd h hfinds⟩
        · refine ⟨fun h => hs.without links ((hs.same_layer hx).mp (h hfinds)), fun h _ => ?_⟩
          exact (hs.same_layer hx).mpr (hs.of_without hx links h)

/-- For as long as every call leaves none behind, and no longer, the masks are right, and they
show every hook. -/
theorem hook_flags_agree (objects : N → UmtpHook) (links : Links (ListHead (Nat × Nat) N))
    {acts : List (HookAct N)} {s : Hooking N}
    (hr : Run (fun s a s' => HookActStep s a s' ∧ a.LeavesNone s) (Hooking.start objects links)
      acts s) :
    s.FlagsAgree ∧ (∀ x ∈ s.registered, s.Shows x) ∧
      ∀ a s', HookActStep s a s' → (a.LeavesNone s ↔ s'.FlagsAgree) := by
  have hs : s.FlagsInv := by
    apply hr.invariant Hooking.FlagsInv
    · rintro s a s' hs ⟨hstep, hleaves⟩
      exact (hookAct_flags hs hstep).1 hleaves
    · constructor <;> simp [Hooking.start]
  refine ⟨hs.agree, fun x hx => hs.shows hx, fun a s' hstep => ?_⟩
  obtain ⟨hkeep, hleave⟩ := hookAct_flags hs hstep
  exact ⟨fun h => (hkeep h).agree, hleave⟩

def layerHooks : Hooking Bool :=
  Hooking.start (fun x => ⟨true, x.toInt, 0, some fun bytes _ _ => (0, bytes)⟩)
    ⟨fun a => match a with | .head _ => none | .entry x => some (.entry x),
      fun a => match a with | .head _ => none | .entry x => some (.entry x)⟩

theorem layerHooks_usable (x : Bool) :
    UmtpHook.Usable ⟨true, x.toInt, 0, some fun bytes _ _ => (0, bytes)⟩ := by
  cases x <;> exact ⟨by decide, by decide, rfl⟩

def HookAct.runAll (s : Hooking Bool) (acts : List (HookAct Bool)) : Hooking Bool :=
  acts.foldl (fun s a => ((a.exec 2 s).map Prod.snd).getD s) s

def lowerHook : Hooking Bool := HookAct.runAll layerHooks [.call (.register (some false))]

def upperHook : Hooking Bool := HookAct.runAll lowerHook [.call (.register (some true))]

def upperAlone : Hooking Bool := HookAct.runAll upperHook [.call (.unregister (some false))]

theorem lowerHook_step : HookActStep layerHooks (.call (.register (some false))) lowerHook := by
  refine ⟨fun x _ => layerHooks_usable x, 0, 2, fun fuel hfuel => ?_⟩
  obtain ⟨k, rfl⟩ : ∃ k, fuel = k + 2 := ⟨fuel - 2, by omega⟩
  rfl

theorem upperHook_step : HookActStep lowerHook (.call (.register (some true))) upperHook := by
  refine ⟨fun x _ => layerHooks_usable x, 0, 2, fun fuel hfuel => ?_⟩
  obtain ⟨k, rfl⟩ : ∃ k, fuel = k + 2 := ⟨fuel - 2, by omega⟩
  rfl

theorem upperAlone_step : HookActStep upperHook (.call (.unregister (some false))) upperAlone := by
  refine ⟨fun x _ => layerHooks_usable x, 0, 2, fun fuel hfuel => ?_⟩
  obtain ⟨k, rfl⟩ : ∃ k, fuel = k + 2 := ⟨fuel - 2, by omega⟩
  rfl

theorem hook_flags_agree_two : upperHook.registered = [false, true] ∧ upperHook.FlagsAgree ∧
    upperHook.Shows true ∧
    ¬ HookAct.LeavesNone upperHook (.call (.unregister (some false))) := by
  have hr : Run (fun s a s' => HookActStep s a s' ∧ a.LeavesNone s) layerHooks
      [.call (.register (some false)), .call (.register (some true))] upperHook :=
    (Run.nil.snoc ⟨lowerHook_step, trivial⟩).snoc ⟨upperHook_step, trivial⟩
  obtain ⟨hagree, hshows, hiff⟩ := hook_flags_agree _ _ hr
  refine ⟨rfl, hagree, hshows true (by decide), fun h => ?_⟩
  have hlayer := ((hiff _ _ upperAlone_step).mp h).layer 0 (by decide)
  revert hlayer
  decide

/-- With the first of two hooks taken out the layer seems to have none, and `umtp_do_hooks` does
not call the other; and after an initialisation a layer without hooks seems to have some. -/
theorem unregister_hides_other :
    (∃ s, Run HookActStep layerHooks [.call (.register (some false)),
        .call (.register (some true)), .call (.unregister (some false))] s ∧
      s.registered = [true] ∧ s.hooks.priFlag 0 = 2#32 ∧ s.hooks.hookLayerFlag = 0#32 ∧
      (∀ fuel ret, s.hooks.umtpDoHooks fuel 0 (some [7]) 1 true ret = some ⟨0, [7], []⟩) ∧
      ¬ s.FlagsAgree) ∧
    ∃ s, Run HookActStep layerHooks [.call (.register (some false)), .init] s ∧
      s.registered = [] ∧ s.hooks.priFlag 0 = 0#32 ∧ s.hooks.hookLayerFlag = 1#32 ∧
      ¬ s.FlagsAgree := by
  constructor
  · refine ⟨upperAlone, ((Run.nil.snoc lowerHook_step).snoc upperHook_step).snoc upperAlone_step,
      rfl, rfl, rfl, fun _ _ => rfl, fun h => ?_⟩
    have hlayer := h.layer 0 (by decide)
    revert hlayer
    decide
  · refine ⟨⟨lowerHook.hooks.umtpHookInit, []⟩, (Run.nil.snoc lowerHook_step).snoc
      ⟨trivial, 0, 0, fun _ _ => rfl⟩, rfl, rfl, rfl, fun h => ?_⟩
    have hlayer := h.layer 0 (by decide)
    revert hlayer
    decide

end Umtp
