import Umtp.HookFlags

/-! What `umtp_hook_register` and `umtp_hook_unregister` make of any argument, the numbers in it
included. A call that comes back has found every index inside its array and no NULL link. -/

set_option autoImplicit false

namespace Umtp
open LinkedRing FiniteRun

variable {N : Type}

/-- Before the first initialisation, with the heads NULL as all of `hooks` is. -/
def Hooking.unused (objects : N → UmtpHook) (next prev : N → Option (ListHead (Nat × Nat) N)) :
    Hooking N :=
  Hooking.start objects
    ⟨fun a => match a with | .head _ => none | .entry x => next x,
      fun a => match a with | .head _ => none | .entry x => prev x⟩

/-- `listed` says which hooks are on which list: the registered ones, each at its place. -/
structure Hooking.Lists (s : Hooking N) (listed : Nat × Nat → List N) : Prop where
  holds : s.hooks.Holds listed
  nodup : ∀ i ∈ Hooks.heads, (listed i).Nodup
  mem : ∀ i ∈ Hooks.heads, ∀ x,
    x ∈ listed i ↔ x ∈ s.registered ∧ (s.hooks.objects x).place = i

def Hooking.Listed (s : Hooking N) : Prop :=
  (s.hooks.initDone = false → s.registered = []) ∧
    (s.hooks.initDone = true → ∃ listed, s.Lists listed)

/-- The application writes to hooks that are not registered; it calls with anything. -/
def HookAct.Allowed (s : Hooking N) : HookAct N → Prop
  | .call (.write x _ _ _) => x ∉ s.registered
  | _ => True

def Hooking.InList (s : Hooking N) : ListHead (Nat × Nat) N → Prop
  | .head i => i ∈ Hooks.heads
  | .entry x => x ∈ s.registered

variable [DecidableEq N]

/-- A new hook whose own links make it, by the swapped arguments, the first of its list: `prev` is
no list's, or the last's of this one, and `next` the first, unless `prev` is the hook itself, whose
`next` becomes the head. -/
def Hooking.Fits (s : Hooking N) (x : N) : Prop :=
  ∃ u, s.hooks.links.prev (.entry x) = some u ∧ u ≠ .head (s.hooks.objects x).place ∧
    (s.InList u → s.hooks.links.next u = some (.head (s.hooks.objects x).place)) ∧
    (if u = .entry x then some (.head (s.hooks.objects x).place)
      else s.hooks.links.next (.entry x)) =
      s.hooks.links.next (.head (s.hooks.objects x).place)

def HookAct.Proper (s : Hooking N) : HookAct N → Prop
  | .call (.register (some x)) => (s.hooks.objects x).refused = true ∨
      (s.hooks.objects x).Usable ∧ (x ∈ s.registered ∨ s.ready.Fits x)
  | .call (.unregister (some x)) => (s.hooks.objects x).refused = false ∧
      s.hooks.initDone = true ∧ 0 ≤ (s.hooks.objects x).hookPoint ∧
      (x ∈ s.registered →
        s.hooks.links.next (.head (s.hooks.objects x).place) = some (.entry x))
  | _ => True

/-- The call comes back, with an error and nothing changed exactly if the argument is invalid, or
registered already, or not registered. -/
def HookAct.Checked (s : Hooking N) : HookAct N → Prop
  | .call (.register hook) => ∃ ret s', (HookAct.call (.register hook)).Returns s ret s' ∧
      (ret < 0 ∧ s' = s.ready ↔
        ∀ x, hook = some x → ¬ (s.hooks.objects x).Usable ∨ x ∈ s.registered)
  | .call (.unregister hook) => ∃ ret s', (HookAct.call (.unregister hook)).Returns s ret s' ∧
      (ret < 0 ∧ s' = s ↔
        ∀ x, hook = some x → ¬ (s.hooks.objects x).Usable ∨ x ∉ s.registered)
  | _ => True

def HookAct.Leads (s : Hooking N) (a : HookAct N) (s' : Hooking N) : Prop :=
  a.Allowed s ∧ ∃ ret, a.Returns s ret s'

theorem HookAct.Returns.unique {s t t' : Hooking N} {a : HookAct N} {r r' : Int}
    (h : a.Returns s r t) (h' : a.Returns s r' t') : r = r' ∧ t = t' := by
  obtain ⟨n, hn⟩ := h
  obtain ⟨m, hm⟩ := h'
  have hsame := (hn _ (Nat.le_max_left n m)).symm.trans (hm _ (Nat.le_max_right n m))
  cases hsame
  exact ⟨rfl, rfl⟩

section

variable {s : Hooking N} {listed : Nat × Nat → List N} (hs : s.Lists listed)
  (husable : ∀ x ∈ s.registered, (s.hooks.objects x).Usable)

include hs

omit [DecidableEq N] in
theorem Hooking.Lists.length_le {i : Nat × Nat} (hi : i ∈ Hooks.heads) :
    (listed i).length ≤ s.registered.length :=
  (List.subperm_of_subset (hs.nodup i hi) fun x hx => ((hs.mem i hi x).mp hx).1).length_le

include husable

omit [DecidableEq N] in
theorem Hooking.Lists.place_mem {x : N} (hx : x ∈ s.registered) :
    (s.hooks.objects x).place ∈ Hooks.heads ∧ x ∈ listed (s.hooks.objects x).place := by
  have hmem := Hooks.mem_heads.mpr ⟨(husable x hx).layer_lt, (husable x hx).priority_lt⟩
  exact ⟨hmem, (hs.mem _ hmem x).mpr ⟨hx, rfl⟩⟩

theorem Hooking.Lists.isRegistered {x : N} {k : Nat}
    (hk : arrayIndex hookMaxLayer (s.hooks.objects x).hookPoint = some k) {fuel : Nat}
    (hfuel : s.registered.length < fuel) :
    s.hooks.hookIsRegistered fuel x = some (decide (x ∈ s.registered)) := by
  rw [hs.holds.isRegistered hk fun i hi => Nat.lt_of_le_of_lt (hs.length_le hi) hfuel]
  congr 2
  apply propext
  constructor
  · rintro ⟨j, hj, hx⟩
    exact ((hs.mem _ (Hooks.mem_heads.mpr ⟨arrayIndex_lt hk, hj⟩) x).mp hx).1
  · intro hx
    obtain ⟨-, hmem⟩ := hs.place_mem husable hx
    have hlayer := (husable x hx).layer_index
    rw [hk, Option.some.injEq] at hlayer
    rw [hlayer]
    exact ⟨_, (husable x hx).priority_lt, hmem⟩

end

section

omit [DecidableEq N] in
theorem entry_mem {listed : Nat × Nat → List N} {i : Nat × Nat} {x : N} (hx : x ∈ listed i) :
    .entry x ∈ (ListHead.head i : ListHead (Nat × Nat) N) :: (listed i).map .entry :=
  List.mem_cons_of_mem _ (List.mem_map_of_mem hx)

variable {s : Hooking N} {listed : Nat × Nat → List N} (hs : s.Lists listed)

include hs

omit [DecidableEq N] in
theorem Hooking.Lists.next {i : Nat × Nat} (hi : i ∈ Hooks.heads) {w : ListHead (Nat × Nat) N}
    (hw : w ∈ .head i :: (listed i).map .entry) :
    (∃ y ∈ listed i, s.hooks.links.next w = some (.entry y)) ∨
      s.hooks.links.next w = some (.head i) := by
  obtain ⟨z, hz, hwz⟩ := (hs.holds i hi).succ hw
  rcases List.mem_append.mp hz with hz | hz
  · obtain ⟨y, hy, rfl⟩ := List.mem_map.mp hz
    exact .inl ⟨y, hy, hwz⟩
  · rw [List.mem_singleton.mp hz] at hwz
    exact .inr hwz

omit [DecidableEq N] in
theorem Hooking.Lists.next_ne {i k : Nat × Nat} (hk : k ∈ Hooks.heads) (hki : k ≠ i)
    {w : ListHead (Nat × Nat) N} (hw : w ∈ .head k :: (listed k).map .entry) :
    s.hooks.links.next w ≠ some (.head i) := by
  intro h
  rcases hs.next hk hw with ⟨y, -, hy⟩ | hend
  · rw [h] at hy
    cases hy
  · rw [h] at hend
    cases hend
    exact hki rfl

omit [DecidableEq N] in
theorem Hooking.Lists.next_injective {i : Nat × Nat} (hi : i ∈ Hooks.heads)
    {w w' : ListHead (Nat × Nat) N} (hw : w ∈ .head i :: (listed i).map .entry)
    (hw' : w' ∈ .head i :: (listed i).map .entry)
    (h : s.hooks.links.next w = s.hooks.links.next w') : w = w' := by
  have hentries : ((listed i).map (ListHead.entry : N → ListHead (Nat × Nat) N)).Nodup :=
    (hs.nodup i hi).map fun _ _ h => ListHead.entry.inj h
  have hnodup : ((listed i).map (ListHead.entry : N → ListHead (Nat × Nat) N) ++
      [ListHead.head i]).Nodup := by
    rw [List.nodup_append_comm]
    exact List.nodup_cons.mpr ⟨by simp, hentries⟩
  exact (hs.holds i hi).next_injective hnodup hw hw' h

omit [DecidableEq N] in
theorem Hooking.Lists.nil_of_next {i : Nat × Nat} (hi : i ∈ Hooks.heads)
    (h : s.hooks.links.next (.head i) = some (.head i)) : listed i = [] := by
  have hp := hs.holds i hi
  cases hlist : listed i with
  | nil => rfl
  | cons y ys =>
    rw [hlist, List.map_cons, Links.path_cons, h] at hp
    obtain ⟨hy, -⟩ := hp
    cases hy

variable {x : N} (hx : (s.hooks.objects x).Usable) {u : ListHead (Nat × Nat) N}

include hx

theorem Hooking.Lists.including (hnew : x ∉ s.registered)
    (hu : u ≠ .head (s.hooks.objects x).place)
    (hin : s.InList u → s.hooks.links.next u = some (.head (s.hooks.objects x).place))
    (hfirst : (if u = .entry x then some (.head (s.hooks.objects x).place)
      else s.hooks.links.next (.entry x)) =
      s.hooks.links.next (.head (s.hooks.objects x).place)) :
    (s.including x (s.hooks.links.link (.head (s.hooks.objects x).place) u (.entry x))).Lists
      (Function.update listed (s.hooks.objects x).place
        (x :: listed (s.hooks.objects x).place)) := by
  have hi : (s.hooks.objects x).place ∈ Hooks.heads :=
    Hooks.mem_heads.mpr ⟨hx.layer_lt, hx.priority_lt⟩
  have hentry : ∀ k ∈ Hooks.heads, ∀ w ∈ (listed k).map .entry,
      (s.hooks.links.link (.head (s.hooks.objects x).place) u (.entry x)).next w =
        s.hooks.links.next w := by
    intro k hk w hw
    obtain ⟨y, hy, rfl⟩ := List.mem_map.mp hw
    rw [Links.link_next]
    split
    · rename_i hyu
      subst hyu
      exact (hin ((hs.mem k hk y).mp hy).1).symm
    · simp
  refine ⟨fun k hk => ?_, fun k hk => ?_, fun k hk y => ?_⟩
  · by_cases hki : k = (s.hooks.objects x).place
    · subst hki
      rw [Function.update_self, List.map_cons]
      refine Links.path_cons.mpr ⟨?_, (hs.holds _ hi).restart ?_ (hentry _ hi)⟩
      · simp [Hooking.including, Links.link_next, Ne.symm hu]
      · rw [← hfirst]
        simp [Hooking.including, Links.link_next, eq_comm]
    · rw [Function.update_of_ne hki]
      refine (hs.holds k hk).restart ?_ (hentry k hk)
      have hku : ListHead.head k ≠ u := by
        rintro rfl
        exact hs.next_ne hk hki List.mem_cons_self (hin hk)
      simp [Hooking.including, Links.link_next, hku, hki]
  · by_cases hki : k = (s.hooks.objects x).place
    · subst hki
      rw [Function.update_self]
      exact List.nodup_cons.mpr ⟨fun h => hnew ((hs.mem _ hi x).mp h).1, hs.nodup _ hi⟩
    · rw [Function.update_of_ne hki]
      exact hs.nodup k hk
  · rw [Hooking.mem_including]
    show y ∈ _ ↔ _ ∧ (s.hooks.objects y).place = k
    by_cases hki : k = (s.hooks.objects x).place
    · subst hki
      rw [Function.update_self, List.mem_cons, hs.mem _ hi]
      constructor
      · rintro (rfl | ⟨hy, hplace⟩)
        · exact ⟨.inr rfl, rfl⟩
        · exact ⟨.inl hy, hplace⟩
      · rintro ⟨hy | rfl, hplace⟩
        · exact .inr ⟨hy, hplace⟩
        · exact .inl rfl
    · rw [Function.update_of_ne hki, hs.mem k hk]
      constructor
      · rintro ⟨hy, hplace⟩
        exact ⟨.inl hy, hplace⟩
      · rintro ⟨hy | rfl, hplace⟩
        · exact ⟨hy, hplace⟩
        · exact absurd hplace.symm hki

theorem Hooking.Lists.of_including (hnew : x ∉ s.registered)
    (husable : ∀ y ∈ s.registered, (s.hooks.objects y).Usable)
    (hprev : s.hooks.links.prev (.entry x) = some u) {listed' : Nat × Nat → List N}
    (hs' : (s.including x
      (s.hooks.links.link (.head (s.hooks.objects x).place) u (.entry x))).Lists listed') :
    s.Fits x := by
  have hi : (s.hooks.objects x).place ∈ Hooks.heads :=
    Hooks.mem_heads.mpr ⟨hx.layer_lt, hx.priority_lt⟩
  have hmem : ∀ y, y ∈ listed' (s.hooks.objects x).place ↔
      y ∈ listed (s.hooks.objects x).place ∨ y = x := by
    intro y
    refine (hs'.mem _ hi y).trans ?_
    rw [Hooking.mem_including, hs.mem _ hi, or_and_right]
    refine or_congr_right (and_iff_left_of_imp ?_)
    rintro rfl
    rfl
  have hnext : ∀ w, (s.including x
      (s.hooks.links.link (.head (s.hooks.objects x).place) u (.entry x))).hooks.links.next w =
        if w = u then some (.head (s.hooks.objects x).place)
        else if w = .head (s.hooks.objects x).place then some (.entry x)
        else s.hooks.links.next w := fun w => Links.link_next ..
  have hhead : u ≠ .head (s.hooks.objects x).place := by
    rintro rfl
    have hloop := hnext (.head (s.hooks.objects x).place)
    rw [if_pos rfl] at hloop
    have hx' := (hmem x).mpr (.inr rfl)
    rw [hs'.nil_of_next hi hloop] at hx'
    cases hx'
  have hstart := hnext (.head (s.hooks.objects x).place)
  rw [if_neg hhead.symm, if_pos rfl] at hstart
  -- What was in the list before is in it still, and from then on after `x` or an old neighbour.
  have hold : ∀ t ∈ (listed (s.hooks.objects x).place).map .entry ++
      [.head (s.hooks.objects x).place],
      (if u = .entry x then some (.head (s.hooks.objects x).place)
        else s.hooks.links.next (.entry x)) = some t ∨
        ∃ v ∈ listed (s.hooks.objects x).place, .entry v = u ∧
          t = .head (s.hooks.objects x).place ∨
          .entry v ≠ u ∧ s.hooks.links.next (.entry v) = some t := by
    intro t ht
    have ht' : t ∈ (listed' (s.hooks.objects x).place).map .entry ++
        [.head (s.hooks.objects x).place] := by
      rcases List.mem_append.mp ht with h | h
      · obtain ⟨y, hy, rfl⟩ := List.mem_map.mp h
        simp [hmem, hy]
      · exact List.mem_append_right _ h
    obtain ⟨w, hw, hwt⟩ := (hs'.holds _ hi).pred ht'
    rcases List.mem_cons.mp hw with rfl | hw
    · rw [hstart] at hwt
      cases hwt
      refine absurd ?_ hnew
      simpa [hs.mem _ hi] using ht
    · obtain ⟨v, hv, rfl⟩ := List.mem_map.mp hw
      rw [hnext] at hwt
      rcases (hmem v).mp hv with hv | rfl
      · refine .inr ⟨v, hv, ?_⟩
        split at hwt
        · rename_i hvu
          cases hwt
          exact .inl ⟨hvu, rfl⟩
        · rename_i hvu
          exact .inr ⟨hvu, by simpa using hwt⟩
      · left
        simpa [eq_comm] using hwt
  have hfirst : (if u = .entry x then some (.head (s.hooks.objects x).place)
      else s.hooks.links.next (.entry x)) =
      s.hooks.links.next (.head (s.hooks.objects x).place) := by
    obtain ⟨t, ht, hht⟩ := (hs.holds _ hi).succ List.mem_cons_self
    rw [hht]
    rcases hold t ht with h | ⟨v, hv, ⟨-, rfl⟩ | ⟨-, hvt⟩⟩
    · exact h
    · rw [hs.nil_of_next hi hht] at hv
      cases hv
    · have hsame := hs.next_injective hi (entry_mem hv)
        List.mem_cons_self (hvt.trans hht.symm)
      cases hsame
  refine ⟨u, hprev, hhead, fun hin => ?_, hfirst⟩
  have hback := hnext u
  rw [if_pos rfl] at hback
  cases u with
  | head k =>
    have hki : k ≠ (s.hooks.objects x).place := fun h => hhead (congrArg _ h)
    exact absurd hback (hs'.next_ne hin hki List.mem_cons_self)
  | entry v =>
    have hk := (hs.place_mem husable hin).1
    have hv : v ∈ listed (s.hooks.objects x).place := by
      refine (hs.mem _ hi v).mpr ⟨hin, ?_⟩
      by_contra hvi
      refine hs'.next_ne hk hvi (entry_mem ?_) hback
      exact (hs'.mem _ hk v).mpr ⟨Hooking.mem_including.mpr (.inl hin), rfl⟩
    have hvmem : (.entry v : ListHead (Nat × Nat) N) ∈ .head (s.hooks.objects x).place ::
        (listed (s.hooks.objects x).place).map .entry := entry_mem hv
    obtain ⟨t, ht, hvt⟩ := (hs.holds _ hi).succ hvmem
    rcases hold t ht with h | ⟨v', hv', ⟨-, rfl⟩ | ⟨hne, hvt'⟩⟩
    · rw [hfirst, ← hvt] at h
      have hsame := hs.next_injective hi List.mem_cons_self hvmem h
      cases hsame
    · exact hvt
    · refine absurd ?_ hne
      exact hs.next_injective hi (entry_mem hv') hvmem
        (hvt'.trans hvt.symm)

end

section

variable {s : Hooking N} {listed : Nat × Nat → List N} (hs : s.Lists listed)
  (husable : ∀ y ∈ s.registered, (s.hooks.objects y).Usable) {x : N} (hx : x ∈ s.registered)
  {n : ListHead (Nat × Nat) N} (hn : s.hooks.links.next (.entry x) = some n)

include hs husable hx hn

theorem Hooking.Lists.without
    (hfirst : s.hooks.links.next (.head (s.hooks.objects x).place) = some (.entry x)) :
    ∃ listed', (s.without x
      (s.hooks.links.join (.head (s.hooks.objects x).place) n)).Lists listed' := by
  obtain ⟨hi, hmem⟩ := hs.place_mem husable hx
  have hp := hs.holds _ hi
  have hnodup := hs.nodup _ hi
  cases hlist : listed (s.hooks.objects x).place with
  | nil =>
    rw [hlist] at hmem
    cases hmem
  | cons y ys =>
    rw [hlist, List.map_cons, Links.path_cons, hfirst] at hp
    obtain ⟨hy, hp⟩ := hp
    cases hy
    rw [hlist] at hnodup
    obtain ⟨hxs, hnodup⟩ := List.nodup_cons.mp hnodup
    refine ⟨Function.update listed (s.hooks.objects x).place ys, fun k hk => ?_, fun k hk => ?_,
      fun k hk z => ?_⟩
    · by_cases hki : k = (s.hooks.objects x).place
      · subst hki
        rw [Function.update_self]
        refine hp.restart ?_ fun w hw => ?_
        · simp [Hooking.without, Links.join_next, hn]
        · obtain ⟨z, -, rfl⟩ := List.mem_map.mp hw
          simp [Hooking.without, Links.join_next]
      · rw [Function.update_of_ne hki]
        refine (hs.holds k hk).restart ?_ fun w hw => ?_
        · simp [Hooking.without, Links.join_next, hki]
        · obtain ⟨z, -, rfl⟩ := List.mem_map.mp hw
          simp [Hooking.without, Links.join_next]
    · by_cases hki : k = (s.hooks.objects x).place
      · subst hki
        rwa [Function.update_self]
      · rw [Function.update_of_ne hki]
        exact hs.nodup k hk
    · rw [Hooking.mem_without]
      show z ∈ _ ↔ _ ∧ (s.hooks.objects z).place = k
      by_cases hki : k = (s.hooks.objects x).place
      · subst hki
        have hz := hs.mem _ hi z
        rw [hlist, List.mem_cons] at hz
        rw [Function.update_self, and_right_comm, ← hz]
        constructor
        · intro h
          refine ⟨.inr h, ?_⟩
          rintro rfl
          exact hxs h
        · rintro ⟨h, hzx⟩
          exact h.resolve_left hzx
      · rw [Function.update_of_ne hki, hs.mem k hk, and_right_comm]
        refine (and_iff_left_of_imp ?_).symm
        rintro ⟨-, hplace⟩ rfl
        exact hki hplace.symm

/-- Whatever is before another is lost with it. -/
theorem Hooking.Lists.of_without {listed' : Nat × Nat → List N}
    (hs' : (s.without x
      (s.hooks.links.join (.head (s.hooks.objects x).place) n)).Lists listed') :
    s.hooks.links.next (.head (s.hooks.objects x).place) = some (.entry x) := by
  obtain ⟨hi, hmem⟩ := hs.place_mem husable hx
  rcases hs.next hi List.mem_cons_self with ⟨y, hy, hhead⟩ | hloop
  · by_cases hyx : y = x
    · rwa [hyx] at hhead
    · have hy' : y ∈ listed' (s.hooks.objects x).place := by
        obtain ⟨hreg, hplace⟩ := (hs.mem _ hi y).mp hy
        exact (hs'.mem _ hi y).mpr ⟨Hooking.mem_without.mpr ⟨hreg, hyx⟩, hplace⟩
      obtain ⟨w, hw, hwy⟩ := (hs'.holds _ hi).pred (x := .entry y) (by simp [hy'])
      have hwy : (if w = .head (s.hooks.objects x).place then some n
          else s.hooks.links.next w) = some (.entry y) := (Links.join_next ..).symm.trans hwy
      rcases List.mem_cons.mp hw with rfl | hw
      · rw [if_pos rfl, ← hn] at hwy
        have hsame := hs.next_injective hi (entry_mem hmem)
          List.mem_cons_self (hwy.trans hhead.symm)
        cases hsame
      · obtain ⟨v, hv, rfl⟩ := List.mem_map.mp hw
        obtain ⟨hreg, hplace⟩ := (hs'.mem _ hi v).mp hv
        have hv' := (hs.mem _ hi v).mpr ⟨(Hooking.mem_without.mp hreg).1, hplace⟩
        have hsame := hs.next_injective hi (entry_mem hv')
          List.mem_cons_self (hwy.trans hhead.symm)
        cases hsame
  · rw [hs.nil_of_next hi hloop] at hmem
    cases hmem

end

/-! The invariant. The last hook put into a list has the head behind it, and so has each of the
others since it was the last. -/

structure Hooking.ArgInv (s : Hooking N) : Prop where
  usable : ∀ x ∈ s.registered, (s.hooks.objects x).Usable
  listed : s.Listed
  cold : s.hooks.initDone = false → ∀ i ∈ Hooks.heads, s.hooks.links.next (.head i) = none
  back : ∀ x ∈ s.registered,
    s.hooks.links.prev (.entry x) = some (.head (s.hooks.objects x).place)

omit [DecidableEq N] in
theorem Hooking.ArgInv.unused (objects : N → UmtpHook)
    (next prev : N → Option (ListHead (Nat × Nat) N)) : (Hooking.unused objects next prev).ArgInv := by
  constructor <;> simp [Hooking.unused, Hooking.start, Hooking.Listed]

theorem Hooking.Listed.initialised (s : Hooks N) : Hooking.Listed ⟨s.umtpHookInit, []⟩ := by
  refine ⟨fun _ => rfl, fun _ => ⟨fun _ => [], fun i hi => ?_, fun _ _ => List.nodup_nil,
    fun i _ x => by simp⟩⟩
  rw [List.map_nil, Links.path_nil]
  exact ((heads_init Hooks.heads s.links).1 i).trans (if_pos hi)

theorem Hooking.ArgInv.initialised (s : Hooks N) : Hooking.ArgInv ⟨s.umtpHookInit, []⟩ :=
  ⟨by simp, Listed.initialised s, fun h => by simp [Hooks.umtpHookInit] at h, by simp⟩

theorem Hooking.ArgInv.ready {s : Hooking N} (hs : s.ArgInv) : s.ready.ArgInv := by
  rcases s.ready_cases hs.listed.1 with hsame | ⟨-, hready⟩
  · rwa [hsame]
  · rw [hready]
    exact .initialised s.hooks

theorem Hooking.ArgInv.including {s : Hooking N} (hs : s.ArgInv)
    (hinit : s.hooks.initDone = true) {x : N} (hx : (s.hooks.objects x).Usable)
    (hnew : x ∉ s.registered) {u : ListHead (Nat × Nat) N}
    (hlisted : (s.including x
      (s.hooks.links.link (.head (s.hooks.objects x).place) u (.entry x))).Listed) :
    (s.including x
      (s.hooks.links.link (.head (s.hooks.objects x).place) u (.entry x))).ArgInv := by
  refine ⟨fun y hy => ?_, hlisted, fun h => ?_, fun y hy => ?_⟩
  · rcases Hooking.mem_including.mp hy with hy | rfl
    · exact hs.usable y hy
    · exact hx
  · exact absurd (hinit.symm.trans h) (by decide)
  · rcases Hooking.mem_including.mp hy with hy | rfl
    · have hyx : y ≠ x := fun h => hnew (h ▸ hy)
      simpa [Hooking.including, Links.link_prev, hyx] using hs.back y hy
    · simp [Hooking.including, Links.link_prev]

omit [DecidableEq N] in
theorem Hooking.ArgInv.initDone {s : Hooking N} (hs : s.ArgInv) {x : N} (hx : x ∈ s.registered) :
    s.hooks.initDone = true := by
  cases hinit : s.hooks.initDone with
  | true => rfl
  | false =>
    rw [hs.listed.1 hinit] at hx
    cases hx

theorem Hooking.ArgInv.without {s : Hooking N} (hs : s.ArgInv) {x : N} (hx : x ∈ s.registered)
    {n : ListHead (Nat × Nat) N} (hn : s.hooks.links.next (.entry x) = some n)
    (hlisted : (s.without x
      (s.hooks.links.join (.head (s.hooks.objects x).place) n)).Listed) :
    (s.without x (s.hooks.links.join (.head (s.hooks.objects x).place) n)).ArgInv := by
  obtain ⟨listed, hl⟩ := hs.listed.2 (hs.initDone hx)
  obtain ⟨hi, hmem⟩ := hl.place_mem hs.usable hx
  refine ⟨fun y hy => hs.usable y (Hooking.mem_without.mp hy).1, hlisted, fun hinit i hi => ?_,
    fun y hy => ?_⟩
  · rw [hs.listed.1 hinit] at hx
    cases hx
  · show (s.hooks.links.join (.head (s.hooks.objects x).place) n).prev (.entry y) = _
    rw [Links.join_prev]
    split
    · rename_i hyn
      subst hyn
      rcases hl.next hi (entry_mem hmem) with
        ⟨z, hz, hnz⟩ | hend
      · rw [hn] at hnz
        cases hnz
        rw [← ((hl.mem _ hi y).mp hz).2]
        rfl
      · rw [hn] at hend
        cases hend
    · exact hs.back y (Hooking.mem_without.mp hy).1

theorem Hooking.ArgInv.write {s : Hooking N} (hs : s.ArgInv) {x : N} (hx : x ∉ s.registered)
    (hook : UmtpHook) (next prev : Option (ListHead (Nat × Nat) N)) :
    Hooking.ArgInv ⟨{ s.hooks with
      objects := Function.update s.hooks.objects x hook
      links := (s.hooks.links.setNext (.entry x) next).setPrev (.entry x) prev },
      s.registered⟩ := by
  have hne := Hooking.written_ne hx
  have hsame := Hooking.objects_written hx hook
  refine ⟨fun y hy => ?_, ⟨hs.listed.1, fun hinit => ?_⟩, fun hinit i hi => ?_, fun y hy => ?_⟩
  · show (Function.update s.hooks.objects x hook y).Usable
    rw [hsame y hy]
    exact hs.usable y hy
  · obtain ⟨listed, hl⟩ := hs.listed.2 hinit
    refine ⟨listed, fun i hi => ?_, hl.nodup, fun i hi y => ?_⟩
    · refine (hl.holds i hi).restart ?_ fun w hw => ?_
      · simp
      · obtain ⟨y, hy, rfl⟩ := List.mem_map.mp hw
        simp [hne y ((hl.mem i hi y).mp hy).1]
    · refine (hl.mem i hi y).trans (and_congr_right fun hy => ?_)
      show _ ↔ (Function.update s.hooks.objects x hook y).place = i
      rw [hsame y hy]
  · simpa using hs.cold hinit i hi
  · show _ = some (ListHead.head (Function.update s.hooks.objects x hook y).place)
    rw [hsame y hy]
    simpa [hne y hy] using hs.back y hy

inductive Hooking.Registers (s : Hooking N) (x : N) : Option (Int × Hooking N) → Prop
  | refused : (s.hooks.objects x).refused = true → s.Registers x (some (-einval, s.ready))
  | outside : (s.hooks.objects x).refused = false → ¬ (s.hooks.objects x).Usable →
      s.Registers x none
  | known : (s.hooks.objects x).Usable → x ∈ s.registered →
      s.Registers x (some (-eexist, s.ready))
  | unlinked : (s.hooks.objects x).Usable → x ∉ s.registered →
      s.hooks.links.prev (.entry x) = none → s.Registers x none
  | new (u : ListHead (Nat × Nat) N) : (s.hooks.objects x).Usable → x ∉ s.registered →
      s.hooks.links.prev (.entry x) = some u →
      s.Registers x (some (0, s.ready.including x
        (s.ready.hooks.links.link (.head (s.hooks.objects x).place) u (.entry x))))

inductive Hooking.Unregisters (s : Hooking N) (x : N) : Option (Int × Hooking N) → Prop
  | refused : (s.hooks.objects x).refused = true →
      s.Unregisters x (some (0, ⟨s.hooks, s.registered.filter fun y => some y ≠ some x⟩))
  | outside : (s.hooks.objects x).refused = false →
      s.hooks.initDone = false ∨ (s.hooks.objects x).hookPoint < 0 → s.Unregisters x none
  | unknown : (s.hooks.objects x).refused = false → s.hooks.initDone = true →
      0 ≤ (s.hooks.objects x).hookPoint → x ∉ s.registered →
      s.Unregisters x (some (-enoent, s))
  | known (n : ListHead (Nat × Nat) N) : (s.hooks.objects x).Usable → x ∈ s.registered →
      s.hooks.links.next (.entry x) = some n →
      s.Unregisters x (some (0, s.without x
        (s.hooks.links.join (.head (s.hooks.objects x).place) n)))

omit [DecidableEq N] in
/-- What the check lets pass without being usable has no index. -/
theorem UmtpHook.usable_of_indices {hook : UmtpHook} (h : hook.refused = false) {k j : Nat}
    (hk : arrayIndex hookMaxLayer hook.hookPoint = some k)
    (hj : arrayIndex maxHookPriority hook.priority = some j) : hook.Usable := by
  obtain ⟨hk, hlayer⟩ := arrayIndex_eq_some.mp hk
  obtain ⟨hj, hpriority⟩ := arrayIndex_eq_some.mp hj
  simp only [UmtpHook.refused, Bool.or_eq_false_iff] at h
  refine ⟨by omega, by omega, ?_⟩
  simpa [Option.isSome_iff_ne_none] using h.2

theorem Hooking.ArgInv.register {s : Hooking N} (hs : s.ArgInv) (x : N) :
    ∃ o, s.Registers x o ∧ ∀ fuel > s.registered.length,
      (HookAct.call (.register (some x))).exec fuel s = o := by
  have hinit := s.ready_initDone
  obtain ⟨listed, hl⟩ := hs.ready.listed.2 hinit
  have hobjects := s.ready_objects
  have hexec : ∀ fuel, (HookAct.call (.register (some x))).exec fuel s =
      (s.ready.hooks.umtpHookRegister fuel (some x)).bind fun r =>
        some (r.1, ⟨r.2, if r.1 = 0 then s.registered ++ [x] else s.registered⟩) := by
    intro fuel
    rw [← s.register_ready]
    rfl
  cases hrefused : (s.hooks.objects x).refused with
  | true =>
    refine ⟨_, .refused hrefused, fun fuel _ => ?_⟩
    rw [hexec]
    simp [Hooks.umtpHookRegister, hinit, hobjects, hrefused, einval]
    rfl
  | false =>
    by_cases hx : (s.hooks.objects x).Usable
    · have hx' : (s.ready.hooks.objects x).Usable := by rwa [hobjects]
      have hsearch : ∀ fuel > s.registered.length,
          s.ready.hooks.hookIsRegistered fuel x = some (decide (x ∈ s.registered)) :=
        fun fuel hfuel => hl.isRegistered hs.ready.usable hx'.layer_index hfuel
      by_cases hreg : x ∈ s.registered
      · refine ⟨_, .known hx hreg, fun fuel hfuel => ?_⟩
        have hfound := hsearch fuel hfuel
        rw [decide_eq_true hreg] at hfound
        rw [hexec, Hooks.register_known hinit hx'.not_refused hfound]
        rfl
      · cases hprev : s.hooks.links.prev (.entry x) with
        | none =>
          refine ⟨_, .unlinked hx hreg hprev, fun fuel hfuel => ?_⟩
          have hfound := hsearch fuel hfuel
          rw [decide_eq_false hreg] at hfound
          have hadd : listAddTail s.ready.hooks.links (.head (s.ready.hooks.objects x).place)
              (.entry x) = none := by
            simp [listAddTail, __listAdd, storeNext, storePrev, (s.ready_entry x).2, hprev]
          rw [hexec]
          simp [Hooks.umtpHookRegister, hinit, hx'.not_refused, hfound, hx'.layer_index,
            hx'.priority_index, hadd]
        | some u =>
          refine ⟨_, .new u hx hreg hprev, fun fuel hfuel => ?_⟩
          have hfound := hsearch fuel hfuel
          rw [decide_eq_false hreg] at hfound
          have hadd : listAddTail s.ready.hooks.links (.head (s.ready.hooks.objects x).place)
              (.entry x) = some (s.ready.hooks.links.link
                (.head (s.ready.hooks.objects x).place) u (.entry x)) :=
            listAddTail_some ((s.ready_entry x).2.trans hprev)
          rw [hexec, Hooks.register_new hinit hx' hfound hadd, hobjects]
          simp only [Option.bind_some, if_true, Hooking.including, hobjects]
          rfl
    · refine ⟨_, .outside hrefused hx, fun fuel hfuel => ?_⟩
      cases hk : arrayIndex hookMaxLayer (s.hooks.objects x).hookPoint with
      | none =>
        rw [hexec]
        simp [Hooks.umtpHookRegister, Hooks.hookIsRegistered, hinit, hobjects, hrefused, hk]
      | some k =>
        have hnot : x ∉ s.ready.registered := fun h => hx (hs.usable x h)
        have hfound := hl.isRegistered hs.ready.usable (by rwa [hobjects]) hfuel
        rw [decide_eq_false hnot] at hfound
        have hj : arrayIndex maxHookPriority (s.hooks.objects x).priority = none := by
          cases hj : arrayIndex maxHookPriority (s.hooks.objects x).priority with
          | none => rfl
          | some j => exact absurd (UmtpHook.usable_of_indices hrefused hk hj) hx
        rw [hexec]
        simp [Hooks.umtpHookRegister, hinit, hrefused, hfound, hk, hobjects, hj]

theorem Hooking.ArgInv.unregister {s : Hooking N} (hs : s.ArgInv) (x : N) :
    ∃ o, s.Unregisters x o ∧ ∀ fuel > s.registered.length,
      (HookAct.call (.unregister (some x))).exec fuel s = o := by
  have hexec : ∀ fuel, (HookAct.call (.unregister (some x))).exec fuel s =
      (s.hooks.umtpHookUnregister fuel (some x)).bind fun r => some (r.1, ⟨r.2,
        if r.1 = 0 then s.registered.filter (fun y => some y ≠ some x) else s.registered⟩) :=
    fun fuel => rfl
  cases hrefused : (s.hooks.objects x).refused with
  | true =>
    refine ⟨_, .refused hrefused, fun fuel _ => ?_⟩
    rw [hexec]
    simp [Hooks.umtpHookUnregister, hrefused]
  | false =>
    cases hk : arrayIndex hookMaxLayer (s.hooks.objects x).hookPoint with
    | none =>
      have hpoint : (s.hooks.objects x).hookPoint < 0 := by
        refine (arrayIndex_eq_none.mp hk).resolve_right ?_
        simp only [UmtpHook.refused, Bool.or_eq_false_iff] at hrefused
        simpa using hrefused.1.2
      refine ⟨_, .outside hrefused (.inr hpoint), fun fuel _ => ?_⟩
      rw [hexec]
      simp [Hooks.umtpHookUnregister, Hooks.hookIsRegistered, hrefused, hk]
    | some k =>
      cases hinit : s.hooks.initDone with
      | false =>
        refine ⟨_, .outside hrefused (.inl hinit), fun fuel hfuel => ?_⟩
        have hnull : s.hooks.links.next (.head (k, 0)) = none :=
          hs.cold hinit _ (Hooks.mem_heads.mpr ⟨arrayIndex_lt hk, Nat.zero_lt_succ _⟩)
        have hlost : s.hooks.hookIsRegistered fuel x = none := by
          obtain ⟨m, rfl⟩ : ∃ m, fuel = m + 1 := ⟨fuel - 1, by omega⟩
          simp [Hooks.hookIsRegistered, hk, List.range_succ, foldUntil, hnull, eachStep,
            FuelLoop.run]
        rw [hexec]
        simp [Hooks.umtpHookUnregister, hrefused, hlost]
      | true =>
        obtain ⟨listed, hl⟩ := hs.listed.2 hinit
        have hfound : ∀ fuel > s.registered.length,
            s.hooks.hookIsRegistered fuel x = some (decide (x ∈ s.registered)) :=
          fun fuel hfuel => hl.isRegistered hs.usable hk hfuel
        by_cases hreg : x ∈ s.registered
        · have hx := hs.usable x hreg
          obtain ⟨hi, hmem⟩ := hl.place_mem hs.usable hreg
          obtain ⟨n, -, hn⟩ := (hl.holds _ hi).succ
            (entry_mem hmem)
          refine ⟨_, .known n hx hreg hn, fun fuel hfuel => ?_⟩
          rw [hexec, Hooks.unregister_known hx (by simpa [hreg] using hfound fuel hfuel)
            (listDel_some hn (hs.back x hreg))]
          simp [Hooking.without]
        · have hpoint : 0 ≤ (s.hooks.objects x).hookPoint := by
            obtain ⟨hpoint, -⟩ := arrayIndex_eq_some.mp hk
            omega
          refine ⟨_, .unknown hrefused hinit hpoint hreg, fun fuel hfuel => ?_⟩
          rw [hexec, Hooks.unregister_unknown hrefused (by simpa [hreg] using hfound fuel hfuel)]
          simp [enoent]

theorem HookAct.returns_iff {s s' : Hooking N} {a : HookAct N} {ret : Int} {n : Nat}
    {o : Option (Int × Hooking N)} (h : ∀ fuel > n, a.exec fuel s = o) :
    a.Returns s ret s' ↔ o = some (ret, s') := by
  constructor
  · rintro ⟨m, hm⟩
    rw [← h (max m (n + 1)) (by omega)]
    exact hm _ (Nat.le_max_left m (n + 1))
  · intro ho
    exact ⟨n + 1, fun fuel hfuel => (h fuel hfuel).trans ho⟩

theorem Hooking.ArgInv.fits_iff {s : Hooking N} (hs : s.ArgInv) {x : N}
    (hx : (s.hooks.objects x).Usable) (hnew : x ∉ s.registered) {u : ListHead (Nat × Nat) N}
    (hprev : s.hooks.links.prev (.entry x) = some u) :
    s.ready.Fits x ↔ (s.ready.including x (s.ready.hooks.links.link
      (.head (s.hooks.objects x).place) u (.entry x))).Listed := by
  have hinit := s.ready_initDone
  obtain ⟨listed, hl⟩ := hs.ready.listed.2 hinit
  have hprev' := (s.ready_entry x).2.trans hprev
  rw [← s.ready_objects] at hx ⊢
  constructor
  · rintro ⟨u', hu', hhead, hin, hfirst⟩
    rw [hprev'] at hu'
    cases hu'
    have hlists := hl.including hx hnew hhead hin hfirst
    exact ⟨fun h => absurd (hinit.symm.trans h) (by decide), fun _ => ⟨_, hlists⟩⟩
  · intro hlisted
    obtain ⟨listed', hl'⟩ := hlisted.2 hinit
    exact hl.of_including hx hnew hs.ready.usable hprev' hl'

theorem Hooking.ArgInv.first_iff {s : Hooking N} (hs : s.ArgInv) {x : N} (hx : x ∈ s.registered)
    {n : ListHead (Nat × Nat) N} (hn : s.hooks.links.next (.entry x) = some n) :
    s.hooks.links.next (.head (s.hooks.objects x).place) = some (.entry x) ↔
      (s.without x (s.hooks.links.join (.head (s.hooks.objects x).place) n)).Listed := by
  have hinit := hs.initDone hx
  obtain ⟨listed, hl⟩ := hs.listed.2 hinit
  constructor
  · intro hfirst
    exact ⟨fun h => absurd (hinit.symm.trans h) (by decide),
      fun _ => hl.without hs.usable hx hn hfirst⟩
  · intro hlisted
    obtain ⟨listed', hl'⟩ := hlisted.2 hinit
    exact hl.of_without hs.usable hx hn hl'

theorem Hooking.ArgInv.register_proper {s : Hooking N} (hs : s.ArgInv) (x : N) :
    (HookAct.call (.register (some x))).Proper s ↔
      (HookAct.call (.register (some x))).Checked s ∧
        ∀ ret s', (HookAct.call (.register (some x))).Returns s ret s' → s'.Listed := by
  obtain ⟨o, ho, hexec⟩ := hs.register x
  simp only [HookAct.Checked, HookAct.Proper, HookAct.returns_iff hexec]
  cases ho with
  | refused h =>
    have hx : ¬ (s.hooks.objects x).Usable := fun hx => by simp [hx.not_refused] at h
    simp [h, hx, hs.ready.listed, einval]
  | outside h hx => simp [h, hx]
  | known hx hreg => simp [hx, hreg, hs.ready.listed, eexist]
  | unlinked hx hreg hprev =>
    have hfits : ¬ s.ready.Fits x := by
      rintro ⟨u, hu, -⟩
      rw [(s.ready_entry x).2, hprev] at hu
      cases hu
    simp [hx.not_refused, hreg, hfits]
  | new u hx hreg hprev => simp [hx, hx.not_refused, hreg, hs.fits_iff hx hreg hprev]

theorem Hooking.ArgInv.unregister_proper {s : Hooking N} (hs : s.ArgInv) (x : N) :
    (HookAct.call (.unregister (some x))).Proper s ↔
      (HookAct.call (.unregister (some x))).Checked s ∧
        ∀ ret s', (HookAct.call (.unregister (some x))).Returns s ret s' → s'.Listed := by
  obtain ⟨o, ho, hexec⟩ := hs.unregister x
  simp only [HookAct.Checked, HookAct.Proper, HookAct.returns_iff hexec]
  cases ho with
  | refused h =>
    have hx : ¬ (s.hooks.objects x).Usable := fun hx => by simp [hx.not_refused] at h
    simp [h, hx]
  | outside h hout =>
    rcases hout with hinit | hpoint
    · simp [hinit]
    · simp [Int.not_le.mpr hpoint]
  | unknown h hinit hpoint hreg => simp [h, hinit, hpoint, hreg, hs.listed, enoent]
  | known n hx hreg hn =>
    simp [hx, hx.not_refused, hx.hookPoint.1, hreg, hs.initDone hreg, hs.first_iff hreg hn]

theorem HookAct.returns_at_once {s t s' : Hooking N} {a : HookAct N} {r ret : Int}
    (h : ∀ fuel, a.exec fuel s = some (r, t)) : a.Returns s ret s' ↔ ret = r ∧ s' = t := by
  have hexec : ∀ fuel > 0, a.exec fuel s = some (r, t) := fun fuel _ => h fuel
  rw [HookAct.returns_iff hexec, Option.some.injEq, Prod.mk.injEq, eq_comm, eq_comm (a := s')]

theorem HookAct.register_none {s s' : Hooking N} {ret : Int} :
    (HookAct.call (.register none)).Returns s ret s' ↔ ret = -einval ∧ s' = s.ready :=
  returns_at_once fun _ => rfl

theorem HookAct.unregister_none {s s' : Hooking N} {ret : Int} :
    (HookAct.call (.unregister none)).Returns s ret s' ↔ ret = -einval ∧ s' = s :=
  returns_at_once fun _ => rfl

theorem HookAct.returns_init {s s' : Hooking N} {ret : Int} :
    HookAct.init.Returns s ret s' ↔ ret = 0 ∧ s' = ⟨s.hooks.umtpHookInit, []⟩ :=
  returns_at_once fun _ => rfl

theorem HookAct.returns_write {s s' : Hooking N} {x : N} {hook : UmtpHook}
    {next prev : Option (ListHead (Nat × Nat) N)} {ret : Int} :
    (HookAct.call (.write x hook next prev)).Returns s ret s' ↔ ret = 0 ∧ s' =
      ⟨{ s.hooks with
        objects := Function.update s.hooks.objects x hook
        links := (s.hooks.links.setNext (.entry x) next).setPrev (.entry x) prev },
        s.registered⟩ :=
  returns_at_once fun _ => rfl

theorem Hooking.ArgInv.proper_iff {s : Hooking N} (hs : s.ArgInv) {a : HookAct N}
    (ha : a.Allowed s) :
    a.Proper s ↔ a.Checked s ∧ ∀ ret s', a.Returns s ret s' → s'.Listed := by
  cases a with
  | init =>
    simp [HookAct.Proper, HookAct.Checked, HookAct.returns_init, Hooking.Listed.initialised]
  | call c =>
    cases c with
    | write x hook next prev =>
      simp [HookAct.Proper, HookAct.Checked, HookAct.returns_write,
        (hs.write ha hook next prev).listed]
    | register hook =>
      cases hook with
      | none =>
        simp [HookAct.Proper, HookAct.Checked, HookAct.register_none, hs.ready.listed, einval]
      | some x => exact hs.register_proper x
    | unregister hook =>
      cases hook with
      | none => simp [HookAct.Proper, HookAct.Checked, HookAct.unregister_none, hs.listed, einval]
      | some x => exact hs.unregister_proper x

theorem Hooking.ArgInv.step {s s' : Hooking N} (hs : s.ArgInv) {a : HookAct N}
    (hleads : a.Leads s s') (hproper : a.Proper s) : s'.ArgInv := by
  obtain ⟨ha, ret, hret⟩ := hleads
  have hlisted := ((hs.proper_iff ha).mp hproper).2 ret s' hret
  cases a with
  | init =>
    obtain ⟨-, rfl⟩ := HookAct.returns_init.mp hret
    exact .initialised s.hooks
  | call c =>
    cases c with
    | write x hook next prev =>
      obtain ⟨-, rfl⟩ := HookAct.returns_write.mp hret
      exact hs.write ha hook next prev
    | register hook =>
      cases hook with
      | none =>
        obtain ⟨-, rfl⟩ := HookAct.register_none.mp hret
        exact hs.ready
      | some x =>
        obtain ⟨o, ho, hexec⟩ := hs.register x
        cases (HookAct.returns_iff hexec).mp hret
        cases ho with
        | refused | known => exact hs.ready
        | new u hx hnew hprev =>
          rw [← s.ready_objects] at hx hlisted ⊢
          exact hs.ready.including s.ready_initDone hx hnew hlisted
    | unregister hook =>
      cases hook with
      | none =>
        obtain ⟨-, rfl⟩ := HookAct.unregister_none.mp hret
        exact hs
      | some x =>
        obtain ⟨o, ho, hexec⟩ := hs.unregister x
        cases (HookAct.returns_iff hexec).mp hret
        cases ho with
        | refused h => exact absurd (h.symm.trans hproper.1) (by decide)
        | unknown => exact hs
        | known n hx hreg hn => exact hs.without hreg hn hlisted

/-- For as long as the arguments are all right, and no longer, the calls check them: they come
back, say so if a hook cannot be put in or taken out, and leave the lists in order. -/
theorem hook_arguments_checked (objects : N → UmtpHook)
    (next prev : N → Option (ListHead (Nat × Nat) N)) {acts : List (HookAct N)} {s : Hooking N}
    (hr : Run (fun s a s' => a.Leads s s' ∧ a.Proper s) (Hooking.unused objects next prev)
      acts s) :
    s.Listed ∧ ∀ a : HookAct N, a.Allowed s →
      (a.Proper s ↔ a.Checked s ∧ ∀ ret s', a.Returns s ret s' → s'.Listed) := by
  have hs : s.ArgInv := by
    apply hr.invariant Hooking.ArgInv
    · rintro s a s' hs ⟨hleads, hproper⟩
      exact hs.step hleads hproper
    · exact .unused objects next prev
  exact ⟨hs.listed, fun a ha => hs.proper_iff ha⟩

omit [DecidableEq N] in
theorem Hooking.unused_eq (objects : N → UmtpHook) (links : Links (ListHead (Nat × Nat) N))
    (hnext : ∀ i, links.next (.head i) = none) (hprev : ∀ i, links.prev (.head i) = none) :
    Hooking.unused objects (fun x => links.next (.entry x)) (fun x => links.prev (.entry x)) =
      Hooking.start objects links := by
  obtain ⟨next, prev⟩ := links
  unfold unused
  congr 2
  · funext a
    cases a with
    | head i => exact (hnext i).symm
    | entry x => rfl
  · funext a
    cases a with
    | head i => exact (hprev i).symm
    | entry x => rfl

theorem hook_arguments_checked_two : upperHook.Listed ∧
    HookAct.Checked upperHook (.call (.register (some false))) ∧
    HookAct.Checked upperHook (.call (.unregister (some true))) := by
  have hr : Run (fun s (a : HookAct Bool) s' => a.Leads s s' ∧ a.Proper s) layerHooks
      [.call (.register (some false)), .call (.register (some true))] upperHook := by
    have hfalse : ¬ layerHooks.ready.InList (.entry false) := by
      show false ∉ []
      simp
    have htrue : ¬ lowerHook.ready.InList (.entry true) := by
      show true ∉ [false]
      simp
    have hlower : (HookAct.call (.register (some false))).Proper layerHooks :=
      .inr ⟨layerHooks_usable false, .inr
        ⟨.entry false, rfl, by decide, fun h => absurd h hfalse, rfl⟩⟩
    have hupper : (HookAct.call (.register (some true))).Proper lowerHook :=
      .inr ⟨layerHooks_usable true, .inr
        ⟨.entry true, rfl, by decide, fun h => absurd h htrue, rfl⟩⟩
    exact (Run.nil.snoc ⟨⟨trivial, lowerHook_step.2⟩, hlower⟩).snoc
      ⟨⟨trivial, upperHook_step.2⟩, hupper⟩
  rw [layerHooks, ← Hooking.unused_eq _ _ (fun _ => rfl) fun _ => rfl] at hr
  obtain ⟨hlisted, hiff⟩ := hook_arguments_checked _ _ _ hr
  have hregister : (HookAct.call (.register (some false))).Proper upperHook :=
    .inr ⟨layerHooks_usable false, .inl (by decide)⟩
  have hunregister : (HookAct.call (.unregister (some true))).Proper upperHook :=
    ⟨rfl, rfl, by decide, fun _ => rfl⟩
  exact ⟨hlisted, ((hiff (.call (.register _)) trivial).mp hregister).1,
    ((hiff (.call (.unregister _)) trivial).mp hunregister).1⟩

/-- Hooks for one past the last priority, for a layer below the first, for a priority that is
refused and, with NULL links, for the first place of all. -/
def oddHooks : Hooking (Fin 4) :=
  Hooking.unused
    (fun x =>
      match x with
      | 0 => ⟨true, 3, 0, some fun bytes _ _ => (0, bytes)⟩
      | 1 => ⟨true, 0, -1, some fun bytes _ _ => (0, bytes)⟩
      | 2 => ⟨true, 4, 0, some fun bytes _ _ => (0, bytes)⟩
      | 3 => ⟨true, 0, 0, some fun bytes _ _ => (0, bytes)⟩)
    (fun _ => none) fun _ => none

/-- Neither 3 nor -1 is an index, nothing is changed but no error is returned for 4, and without
an initialisation, or with NULL in the hook, a NULL link is followed. -/
theorem hook_arguments_not_checked :
    (∀ fuel, (HookAct.call (.register (some 0))).exec fuel oddHooks = none) ∧
    (∀ fuel, (HookAct.call (.register (some 1))).exec fuel oddHooks = none) ∧
    (∀ fuel, (HookAct.call (.unregister (some 2))).exec fuel oddHooks = some (0, oddHooks)) ∧
    (∀ fuel, (HookAct.call (.unregister (some 3))).exec fuel oddHooks = none) ∧
    (∀ fuel, (HookAct.call (.register (some 3))).exec fuel oddHooks = none) ∧
    ∀ a ∈ [HookAct.call (.register (some 0)), .call (.register (some 1)),
      .call (.unregister (some 2)), .call (.unregister (some 3)), .call (.register (some 3))],
      a.Allowed oddHooks ∧ ¬ a.Checked oddHooks := by
  have hzero : ∀ fuel, (HookAct.call (.register (some 0))).exec fuel oddHooks = none := by
    intro fuel
    cases fuel <;> rfl
  have hone : ∀ fuel, (HookAct.call (.register (some 1))).exec fuel oddHooks = none := by
    intro fuel
    cases fuel <;> rfl
  have htwo : ∀ fuel,
      (HookAct.call (.unregister (some 2))).exec fuel oddHooks = some (0, oddHooks) :=
    fun _ => rfl
  have hthree : ∀ fuel, (HookAct.call (.unregister (some 3))).exec fuel oddHooks = none := by
    intro fuel
    cases fuel <;> rfl
  have hlinks : ∀ fuel, (HookAct.call (.register (some 3))).exec fuel oddHooks = none := by
    intro fuel
    cases fuel <;> rfl
  have hnever : ∀ {a : HookAct (Fin 4)}, (∀ fuel, a.exec fuel oddHooks = none) →
      ∀ ret s', ¬ a.Returns oddHooks ret s' := by
    rintro a ha ret s' ⟨n, hn⟩
    have hsome := hn n (Nat.le_refl n)
    rw [ha n] at hsome
    cases hsome
  refine ⟨hzero, hone, htwo, hthree, hlinks, fun a ha => ?_⟩
  simp only [List.mem_cons, List.not_mem_nil, or_false] at ha
  rcases ha with rfl | rfl | rfl | rfl | rfl
  · refine ⟨trivial, ?_⟩
    rintro ⟨ret, s', hret, -⟩
    exact hnever hzero ret s' hret
  · refine ⟨trivial, ?_⟩
    rintro ⟨ret, s', hret, -⟩
    exact hnever hone ret s' hret
  · refine ⟨trivial, ?_⟩
    rintro ⟨ret, s', ⟨n, hn⟩, hiff⟩
    obtain ⟨hneg, -⟩ := hiff.mpr fun x hx => .inr (by simp [oddHooks, Hooking.unused, Hooking.start])
    have hsame := (htwo n).symm.trans (hn n (Nat.le_refl n))
    cases hsame
    exact absurd hneg (by decide)
  · refine ⟨trivial, ?_⟩
    rintro ⟨ret, s', hret, -⟩
    exact hnever hthree ret s' hret
  · refine ⟨trivial, ?_⟩
    rintro ⟨ret, s', hret, -⟩
    exact hnever hlinks ret s' hret

end Umtp
