import Umtp.Kit.FiniteRun
import Umtp.ListHead
import Umtp.Service

/-! `service.c`: the list of registered service types, and how it is kept over calls. -/

set_option autoImplicit false

namespace Umtp
open LinkedRing FiniteRun

variable {σ N : Type}

/-- The `struct service_type`s of an application, and the list through them. -/
structure ServiceRegistry (σ N : Type) where
  types : N → ServiceType σ
  links : Links (ListHead Unit N)

namespace ServiceRegistry

abbrev serviceTypeHead : ListHead Unit N := .head ()

variable [DecidableEq N]

def hasId (r : ServiceRegistry σ N) (id : Int) : Unit → ListHead Unit N → Option (Unit ⊕ N)
  | _, .head _ => none
  | _, .entry t => if (r.types t).id = id then some (.inr t) else some (.inl ())

/-- The search, if it comes back within `fuel` rounds. -/
def serviceTypeGet (fuel : Nat) (r : ServiceRegistry σ N) (id : Int) : Option (Option N) :=
  (FuelLoop.run (eachStep r.links serviceTypeHead (r.hasId id)) fuel
    (r.links.next serviceTypeHead, ())).join.map Sum.getRight?

def serviceTypeRegister (fuel : Nat) (r : ServiceRegistry σ N) (type : Option N) :
    Option (Int × ServiceRegistry σ N) :=
  match type with
  | none => some (-einval, r)
  | some t =>
    if (r.types t).reqHandler.isNone then some (-einval, r)
    else do
      match ← r.serviceTypeGet fuel (r.types t).id with
      | some _ => return (-eexist, r)
      | none =>
        let links ← listAdd r.links (.entry t) serviceTypeHead
        return (0, { r with links })

def serviceTypeUnregister (r : ServiceRegistry σ N) (type : Option N) :
    Option (ServiceRegistry σ N) :=
  match type with
  | none => some r
  | some t => (listDel r.links (.entry t)).map fun links => { r with links }

end ServiceRegistry

/-- A registry, and the types that have been registered and not since unregistered. -/
structure Registration (σ N : Type) where
  registry : ServiceRegistry σ N
  registered : List N

/-- `write` is the application's: any content for one of its types. -/
inductive RegistryCall (σ N : Type) where
  | register (type : Option N)
  | unregister (type : Option N)
  | write (t : N) (type : ServiceType σ) (next prev : Option (ListHead Unit N))

def RegistryCall.Valid (s : Registration σ N) : RegistryCall σ N → Prop
  | .write t _ _ _ => t ∉ s.registered
  | _ => True

variable [DecidableEq N]

/-- A call, if it comes back within `fuel` rounds of its loop. -/
def RegistryCall.exec (fuel : Nat) (s : Registration σ N) :
    RegistryCall σ N → Option (Registration σ N)
  | .register type => do
    let (ret, registry) ← s.registry.serviceTypeRegister fuel type
    return ⟨registry, if ret = 0 then type.toList ++ s.registered else s.registered⟩
  | .unregister type => do
    let registry ← s.registry.serviceTypeUnregister type
    return ⟨registry, type.elim s.registered s.registered.erase⟩
  | .write t type next prev =>
    some ⟨⟨Function.update s.registry.types t type,
      (s.registry.links.setNext (.entry t) next).setPrev (.entry t) prev⟩, s.registered⟩

def RegistryStep (s : Registration σ N) (c : RegistryCall σ N) (s' : Registration σ N) : Prop :=
  c.Valid s ∧ ∃ fuel, c.exec fuel s = some s'

/-- The list is a ring of the registered types, and a search finds what it should. -/
structure Registration.Kept (s : Registration σ N) : Prop where
  ring : ∃ xs : List N, s.registry.links.Ring ServiceRegistry.serviceTypeHead (xs.map .entry) ∧
    ∀ t, t ∈ xs ↔ t ∈ s.registered
  ids : ∀ t ∈ s.registered, ∀ u ∈ s.registered,
    (s.registry.types t).id = (s.registry.types u).id → t = u
  found : ∀ id, ∃ fuel t, s.registry.serviceTypeGet fuel id = some t ∧
    ∀ u, t = some u ↔ u ∈ s.registered ∧ (s.registry.types u).id = id

def Registration.Lists (s : Registration σ N) : ListHead Unit N → Prop
  | .head _ => True
  | .entry t => t ∈ s.registered

/-- A type that is taken out is in the list, or its old neighbours, if they are in the list,
are each other's neighbours anyway. -/
def RegistryCall.Good (s : Registration σ N) : RegistryCall σ N → Prop
  | .unregister (some t) => t ∈ s.registered ∨
    ∃ n p, s.registry.links.next (.entry t) = some n ∧ s.registry.links.prev (.entry t) = some p ∧
      (s.Lists n → s.registry.links.prev n = some p) ∧
      (s.Lists p → s.registry.links.next p = some n)
  | _ => True

def Registration.start (types : N → ServiceType σ) (links : Links (ListHead Unit N)) :
    Registration σ N :=
  ⟨⟨types, initListHead links ServiceRegistry.serviceTypeHead⟩, []⟩

structure Registration.Inv (s : Registration σ N) : Prop where
  ring : s.registry.links.Ring ServiceRegistry.serviceTypeHead (s.registered.map .entry)
  ids : ∀ t ∈ s.registered, ∀ u ∈ s.registered,
    (s.registry.types t).id = (s.registry.types u).id → t = u

omit [DecidableEq N] in
theorem entry_injective {H : Type} : Function.Injective (ListHead.entry : N → ListHead H N) :=
  fun _ _ h => ListHead.entry.inj h

omit [DecidableEq N] in
theorem mem_ring {s : Registration σ N} {a : ListHead Unit N} :
    a ∈ ServiceRegistry.serviceTypeHead :: s.registered.map .entry ↔ s.Lists a := by
  cases a with
  | head i => simp [Registration.Lists]
  | entry t => simp [Registration.Lists]

omit [DecidableEq N] in
theorem foldUntil_hasId (r : ServiceRegistry σ N) (id : Int) (xs : List N) :
    foldUntil (r.hasId id) () (xs.map .entry) =
      some ((xs.find? fun t => (r.types t).id == id).elim (.inl ()) .inr) := by
  induction xs with
  | nil => rfl
  | cons t xs ih =>
    by_cases ht : (r.types t).id = id
    · simp [foldUntil, ServiceRegistry.hasId, ht]
    · simp [foldUntil, ServiceRegistry.hasId, ht, ih]

theorem Registration.Inv.get {s : Registration σ N} (hs : s.Inv) (id : Int) :
    s.registry.serviceTypeGet (s.registered.length + 1) id =
      some (s.registered.find? fun t => (s.registry.types t).id == id) := by
  have hnot := (List.nodup_cons.mp hs.ring.nodup).1
  have hrun := hs.ring.path.each hnot (s.registry.hasId id) ()
  rw [List.length_map, foldUntil_hasId] at hrun
  rw [ServiceRegistry.serviceTypeGet, hrun]
  cases s.registered.find? fun t => (s.registry.types t).id == id <;> rfl

theorem Registration.Inv.get_types {s : Registration σ N} (hs : s.Inv) (id : Int) :
    (s.registry.serviceTypeGet (s.registered.length + 1) id).map (Option.map s.registry.types) =
      some (serviceTypeGet (s.registered.map s.registry.types) id) := by
  rw [hs.get, serviceTypeGet, List.find?_map]
  rfl

omit [DecidableEq N] in
theorem Registration.Inv.find {s : Registration σ N} (hs : s.Inv) {id : Int} {u : N} :
    (s.registered.find? fun t => (s.registry.types t).id == id) = some u ↔
      u ∈ s.registered ∧ (s.registry.types u).id = id := by
  constructor
  · intro h
    exact ⟨List.mem_of_find?_eq_some h, by simpa using List.find?_some h⟩
  · rintro ⟨hu, hid⟩
    cases hfind : s.registered.find? fun t => (s.registry.types t).id == id with
    | none =>
      have hnone := List.find?_eq_none.mp hfind u hu
      simp [hid] at hnone
    | some t =>
      have ht : (s.registry.types t).id = id := by simpa using List.find?_some hfind
      rw [hs.ids t (List.mem_of_find?_eq_some hfind) u hu (ht.trans hid.symm)]

theorem Registration.Inv.kept {s : Registration σ N} (hs : s.Inv) : s.Kept where
  ring := ⟨s.registered, hs.ring, fun _ => Iff.rfl⟩
  ids := hs.ids
  found id := ⟨_, _, hs.get id, fun _ => hs.find⟩

theorem Registration.start_inv (types : N → ServiceType σ) (links : Links (ListHead Unit N)) :
    (Registration.start types links).Inv where
  ring := by
    refine ⟨by simp [start], ?_⟩
    simp [start, initListHead, Links.Linked]
  ids t ht := by cases ht

/-- However many rounds a search is given, if it comes back it has found the same. -/
theorem Registration.Inv.get_unique {s : Registration σ N} (hs : s.Inv) {fuel : Nat} {id : Int}
    {t : Option N} (h : s.registry.serviceTypeGet fuel id = some t) :
    t = s.registered.find? fun t => (s.registry.types t).id == id := by
  have hget := hs.get id
  unfold ServiceRegistry.serviceTypeGet at h hget
  obtain ⟨x, hx, rfl⟩ := Option.map_eq_some_iff.mp h
  obtain ⟨y, hy, hfind⟩ := Option.map_eq_some_iff.mp hget
  rw [Option.join_eq_some_iff] at hx hy
  rw [← hfind, Option.some.inj (FuelLoop.ends_unique ⟨_, hx⟩ ⟨_, hy⟩)]

theorem Registration.Inv.add {s : Registration σ N} (hs : s.Inv) {t : N}
    (hnew : ∀ u ∈ s.registered, (s.registry.types u).id ≠ (s.registry.types t).id) :
    ∃ links, listAdd s.registry.links (.entry t) ServiceRegistry.serviceTypeHead = some links ∧
      Registration.Inv ⟨{ s.registry with links }, t :: s.registered⟩ := by
  obtain ⟨n, -, hn, -⟩ := hs.ring.next_mem List.mem_cons_self
  have ht : t ∉ s.registered := fun h => hnew t h rfl
  refine ⟨_, listAdd_some hn, ?_, ?_⟩
  · exact hs.ring.link (fun h => ht (mem_ring.mp h)) hn
  · intro u hu v hv hid
    simp only [List.mem_cons] at hu hv
    rcases hu with rfl | hu
    · rcases hv with rfl | hv
      · rfl
      · exact absurd hid.symm (hnew v hv)
    · rcases hv with rfl | hv
      · exact absurd hid (hnew u hu)
      · exact hs.ids u hu v hv hid

theorem Registration.Inv.remove {s : Registration σ N} (hs : s.Inv) {t : N}
    (ht : t ∈ s.registered) :
    ∃ links, listDel s.registry.links (.entry t) = some links ∧
      Registration.Inv ⟨{ s.registry with links }, s.registered.erase t⟩ := by
  have hmem : (.entry t : ListHead Unit N) ∈ s.registered.map .entry :=
    List.mem_map_of_mem ht
  obtain ⟨n, -, hn, -⟩ := hs.ring.next_mem (List.mem_cons_of_mem _ hmem)
  obtain ⟨p, -, -, hp⟩ := hs.ring.prev_mem (List.mem_cons_of_mem _ hmem)
  refine ⟨_, listDel_some hn hp, ?_, ?_⟩
  · have hring := hs.ring.unlink hmem hn hp
    rwa [← List.map_erase entry_injective] at hring
  · intro u hu v hv
    exact hs.ids u (List.mem_of_mem_erase hu) v (List.mem_of_mem_erase hv)

theorem Registration.Inv.write {s : Registration σ N} (hs : s.Inv) {t : N} (ht : t ∉ s.registered)
    (type : ServiceType σ) (next prev : Option (ListHead Unit N)) :
    Registration.Inv ⟨⟨Function.update s.registry.types t type,
      (s.registry.links.setNext (.entry t) next).setPrev (.entry t) prev⟩, s.registered⟩ := by
  have hne : ∀ a ∈ ServiceRegistry.serviceTypeHead :: s.registered.map .entry, a ≠ .entry t := by
    rintro a ha rfl
    exact ht (mem_ring.mp ha)
  have hsame : ∀ u ∈ s.registered,
      Function.update s.registry.types t type u = s.registry.types u := by
    intro u hu
    apply Function.update_of_ne
    rintro rfl
    exact ht hu
  constructor
  · apply hs.ring.congr
    · intro a ha
      simp [hne a ha]
    · intro a ha
      simp [hne a ha]
  · intro u hu v hv hid
    apply hs.ids u hu v hv
    rw [← hsame u hu, ← hsame v hv]
    exact hid

theorem register_inv {s s' : Registration σ N} (hs : s.Inv) {type : Option N} {fuel : Nat}
    (h : (RegistryCall.register type).exec fuel s = some s') : s'.Inv := by
  obtain ⟨⟨ret, registry⟩, hreg, hret⟩ := Option.bind_eq_some_iff.mp h
  cases hret
  cases type with
  | none =>
    cases hreg
    exact hs
  | some t =>
    unfold ServiceRegistry.serviceTypeRegister at hreg
    dsimp only at hreg
    split at hreg
    · cases hreg
      exact hs
    · obtain ⟨found, hget, hreg⟩ := Option.bind_eq_some_iff.mp hreg
      have hfound := hs.get_unique hget
      cases found with
      | some u =>
        cases hreg
        exact hs
      | none =>
        have hnone := List.find?_eq_none.mp hfound.symm
        obtain ⟨links, hadd, hinv⟩ := hs.add (t := t) fun u hu => by simpa using hnone u hu
        simp only [hadd] at hreg
        cases hreg
        exact hinv

theorem register_returns {s : Registration σ N} (hs : s.Inv) (type : Option N) :
    ∃ fuel s', (RegistryCall.register type).exec fuel s = some s' := by
  refine ⟨s.registered.length + 1, ?_⟩
  cases type with
  | none => exact ⟨_, rfl⟩
  | some t =>
    cases hreq : (s.registry.types t).reqHandler with
    | none => simp [RegistryCall.exec, ServiceRegistry.serviceTypeRegister, hreq]
    | some f =>
      cases hfind : s.registered.find? fun u => (s.registry.types u).id == (s.registry.types t).id with
      | some u => simp [RegistryCall.exec, ServiceRegistry.serviceTypeRegister, hreq, hs.get, hfind]
      | none =>
        have hnone := List.find?_eq_none.mp hfind
        obtain ⟨links, hadd, -⟩ := hs.add (t := t) fun u hu => by simpa using hnone u hu
        simp [RegistryCall.exec, ServiceRegistry.serviceTypeRegister, hreq, hs.get, hfind, hadd]

theorem unregister_inv {s s' : Registration σ N} (hs : s.Inv) {type : Option N} {fuel : Nat}
    (h : (RegistryCall.unregister type).exec fuel s = some s')
    (hgood : (RegistryCall.unregister type).Good s) : s'.Inv := by
  obtain ⟨registry, hdel, hret⟩ := Option.bind_eq_some_iff.mp h
  cases hret
  cases type with
  | none =>
    cases hdel
    exact hs
  | some t =>
    obtain ⟨links, hlinks, rfl⟩ := Option.map_eq_some_iff.mp hdel
    by_cases ht : t ∈ s.registered
    · obtain ⟨links', hlinks', hinv⟩ := hs.remove ht
      rw [hlinks] at hlinks'
      cases hlinks'
      exact hinv
    · obtain ⟨n, p, hn, hp, hnext, hprev⟩ := hgood.resolve_left ht
      rw [listDel_some hn hp] at hlinks
      cases hlinks
      have hsame : s.registered.erase t = s.registered := List.erase_of_not_mem ht
      refine ⟨?_, ?_⟩
      · show Links.Ring _ _ ((s.registered.erase t).map ListHead.entry)
        rw [hsame]
        exact hs.ring.join (fun hl => hnext (mem_ring.mp hl)) fun hl => hprev (mem_ring.mp hl)
      · intro u hu v hv
        exact hs.ids u (hsame ▸ hu) v (hsame ▸ hv)

theorem unregister_returns {s : Registration σ N} (hs : s.Inv) {type : Option N}
    (hgood : (RegistryCall.unregister type).Good s) :
    ∃ fuel s', (RegistryCall.unregister type).exec fuel s = some s' := by
  refine ⟨0, ?_⟩
  cases type with
  | none => exact ⟨_, rfl⟩
  | some t =>
    by_cases ht : t ∈ s.registered
    · obtain ⟨links, hdel, -⟩ := hs.remove ht
      simp [RegistryCall.exec, ServiceRegistry.serviceTypeUnregister, hdel]
    · obtain ⟨n, p, hn, hp, -⟩ := hgood.resolve_left ht
      simp [RegistryCall.exec, ServiceRegistry.serviceTypeUnregister, listDel_some hn hp]

theorem unregister_good {s s' : Registration σ N} (hs : s.Inv) {type : Option N} {fuel : Nat}
    (h : (RegistryCall.unregister type).exec fuel s = some s') (hk : s'.Kept) :
    (RegistryCall.unregister type).Good s := by
  obtain ⟨registry, hdel, hret⟩ := Option.bind_eq_some_iff.mp h
  cases hret
  cases type with
  | none => trivial
  | some t =>
    obtain ⟨links, hlinks, rfl⟩ := Option.map_eq_some_iff.mp hdel
    by_cases ht : t ∈ s.registered
    · exact .inl ht
    · right
      obtain ⟨n, p, hn, hp⟩ := listDel_pointers hlinks
      rw [listDel_some hn hp] at hlinks
      cases hlinks
      obtain ⟨xs, hring, hmem⟩ := hk.ring
      have hsame : ∀ a, a ∈ xs.map ListHead.entry ↔
          a ∈ s.registered.map (ListHead.entry : N → ListHead Unit N) := by
        intro a
        simp only [List.mem_map, hmem]
        show (∃ u, u ∈ s.registered.erase t ∧ _) ↔ _
        rw [List.erase_of_not_mem ht]
      obtain ⟨hnext, hprev⟩ := hs.ring.of_join hring hsame
      exact ⟨n, p, hn, hp, fun hl => hnext (mem_ring.mpr hl), fun hl => hprev (mem_ring.mpr hl)⟩

theorem registryStep_inv {s s' : Registration σ N} (hs : s.Inv) {c : RegistryCall σ N}
    (hstep : RegistryStep s c s') (hgood : c.Good s) : s'.Inv := by
  obtain ⟨hvalid, fuel, hexec⟩ := hstep
  cases c with
  | register type => exact register_inv hs hexec
  | unregister type => exact unregister_inv hs hexec hgood
  | write t type next prev =>
    cases hexec
    exact hs.write hvalid type next prev

theorem registryStep_returns {s : Registration σ N} (hs : s.Inv) {c : RegistryCall σ N}
    (hvalid : c.Valid s) (hgood : c.Good s) : ∃ s', RegistryStep s c s' := by
  cases c with
  | register type =>
    obtain ⟨fuel, s', h⟩ := register_returns hs type
    exact ⟨s', hvalid, fuel, h⟩
  | unregister type =>
    obtain ⟨fuel, s', h⟩ := unregister_returns hs hgood
    exact ⟨s', hvalid, fuel, h⟩
  | write t type next prev => exact ⟨_, hvalid, 0, rfl⟩

theorem registryStep_good {s s' : Registration σ N} (hs : s.Inv) {c : RegistryCall σ N}
    (hstep : RegistryStep s c s') (hk : s'.Kept) : c.Good s := by
  obtain ⟨-, fuel, hexec⟩ := hstep
  cases c with
  | unregister type => exact unregister_good hs hexec hk
  | register type => trivial
  | write t type next prev => trivial

/-- As long as every call is good the registry is kept, and the first that is not either does
not come back or leaves a registry that is not kept. -/
theorem service_registry_kept (types : N → ServiceType σ) (links : Links (ListHead Unit N))
    {calls : List (RegistryCall σ N)} {s : Registration σ N}
    (hr : Run (fun s c s' => RegistryStep s c s' ∧ c.Good s) (Registration.start types links)
      calls s) :
    s.Kept ∧ ∀ c : RegistryCall σ N, c.Valid s →
      (c.Good s ↔ ∃ s', RegistryStep s c s' ∧ s'.Kept) := by
  have hs : s.Inv := hr.invariant Registration.Inv
    (fun _ _ _ hs h => registryStep_inv hs h.1 h.2) (Registration.start_inv types links)
  refine ⟨hs.kept, fun c hvalid => ⟨fun hgood => ?_, ?_⟩⟩
  · obtain ⟨s', hstep⟩ := registryStep_returns hs hvalid hgood
    exact ⟨s', hstep, (registryStep_inv hs hstep hgood).kept⟩
  · rintro ⟨s', hstep, hk⟩
    exact registryStep_good hs hstep hk

def twoTypes : Registration Unit Bool :=
  Registration.start (fun t => ⟨t.toNat, some silentHandler, none, none, none⟩)
    ⟨fun _ => none, fun _ => none⟩

theorem twoTypes_registers :
    ∃ s, Run (fun s c s' => RegistryStep s c s' ∧ c.Good s) twoTypes
      [.register (some false), .unregister (some false), .register (some true)] s ∧
      s.registered = [true] ∧
      s.registry.links.next (.entry false) = some (.head ()) ∧
      s.registry.links.prev (.entry false) = some (.head ()) ∧
      s.registry.links.prev (.head ()) = some (.entry true) := by
  refine ⟨_, ((Run.nil.snoc ⟨⟨trivial, 1, rfl⟩, trivial⟩).snoc ⟨⟨trivial, 0, rfl⟩, .inl ?_⟩).snoc
    ⟨⟨trivial, 1, rfl⟩, trivial⟩, rfl, rfl, rfl, rfl⟩
  exact List.mem_cons_self

theorem service_registry_kept_two :
    ∃ s : Registration Unit Bool, s.registered = [true] ∧ s.Kept ∧
      ¬ ∃ s', RegistryStep s (.unregister (some false)) s' ∧ s'.Kept := by
  obtain ⟨s, hr, hreg, hnext, hprev, hlast⟩ := twoTypes_registers
  obtain ⟨hkept, hiff⟩ := service_registry_kept _ _ hr
  refine ⟨s, hreg, hkept, fun h => ?_⟩
  rcases (hiff (.unregister (some false)) trivial).mpr h with hmem | ⟨n, p, hn, hp, hlinked, -⟩
  · rw [hreg] at hmem
    exact absurd hmem (by decide)
  · rw [hnext] at hn
    rw [hprev] at hp
    cases hn
    cases hp
    have hhead := hlinked trivial
    rw [hlast] at hhead
    cases hhead

/-- A type that is unregistered once more takes out the type that came after it. -/
theorem unregister_twice_loses :
    ∃ s s', Run RegistryStep twoTypes
        [.register (some false), .unregister (some false), .register (some true)] s ∧
      RegistryStep s (.unregister (some false)) s' ∧ s'.registered = [true] ∧
      ∀ fuel, s'.registry.serviceTypeGet fuel 1 ≠ some (some true) := by
  refine ⟨_, _, ((Run.nil.snoc ⟨trivial, 1, rfl⟩).snoc ⟨trivial, 0, rfl⟩).snoc ⟨trivial, 1, rfl⟩,
    ⟨trivial, 0, rfl⟩, rfl, ?_⟩
  intro fuel
  cases fuel with
  | zero => simp [ServiceRegistry.serviceTypeGet, FuelLoop.run]
  | succ n =>
    intro h
    cases h

end Umtp
