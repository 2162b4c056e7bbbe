import Umtp.Kit.FuelLoop
import Mathlib.Data.List.Chain
import Mathlib.Data.List.Nodup
import Mathlib.Logic.Function.Basic

/-! Circular doubly linked lists, as the links of a heap of nodes. -/

set_option autoImplicit false

namespace LinkedRing
open FuelLoop

variable {α β γ : Type*}

/-- The two pointers in every node. `none` points to no node. -/
structure Links (α : Type*) where
  next : α → Option α
  prev : α → Option α

def Links.Linked (l : Links α) (a b : α) : Prop := l.next a = some b ∧ l.prev b = some a

/-- From `a` along `next` through `xs` to `b`. -/
def Links.Path (l : Links α) (a : α) (xs : List α) (b : α) : Prop :=
  (a :: (xs ++ [b])).IsChain fun x y => l.next x = some y

/-- The nodes after `h`, in order, and back to `h`. -/
structure Links.Ring (l : Links α) (h : α) (xs : List α) : Prop where
  nodup : (h :: xs).Nodup
  linked : (h :: (xs ++ [h])).IsChain l.Linked

theorem Links.Ring.path {l : Links α} {h : α} {xs : List α} (hr : l.Ring h xs) : l.Path h xs h :=
  hr.linked.imp fun _ _ hab => hab.1

section

variable {l l' : Links α} {a b : α} {xs : List α}

theorem Links.path_nil : l.Path a [] b ↔ l.next a = some b := List.isChain_pair

theorem Links.path_cons {x : α} : l.Path a (x :: xs) b ↔ l.next a = some x ∧ l.Path x xs b :=
  List.isChain_cons_cons

theorem Links.Path.succ (hp : l.Path a xs b) {w : α} (hw : w ∈ a :: xs) :
    ∃ x ∈ xs ++ [b], l.next w = some x := by
  induction xs generalizing a with
  | nil =>
    rw [List.mem_singleton.mp hw]
    exact ⟨b, List.mem_singleton_self b, path_nil.mp hp⟩
  | cons x xs ih =>
    obtain ⟨ha, hp⟩ := path_cons.mp hp
    rcases List.mem_cons.mp hw with rfl | hw
    · exact ⟨x, List.mem_cons_self, ha⟩
    · obtain ⟨y, hy, hwy⟩ := ih hp hw
      exact ⟨y, List.mem_cons_of_mem x hy, hwy⟩

theorem Links.Path.pred (hp : l.Path a xs b) {x : α} (hx : x ∈ xs ++ [b]) :
    ∃ w ∈ a :: xs, l.next w = some x := by
  induction xs generalizing a with
  | nil =>
    rw [List.mem_singleton.mp hx]
    exact ⟨a, List.mem_singleton_self a, path_nil.mp hp⟩
  | cons y xs ih =>
    obtain ⟨ha, hp⟩ := path_cons.mp hp
    rcases List.mem_cons.mp hx with rfl | hx
    · exact ⟨a, List.mem_cons_self, ha⟩
    · obtain ⟨w, hw, hwx⟩ := ih hp hx
      exact ⟨w, List.mem_cons_of_mem a hw, hwx⟩

theorem Links.Path.next_injective (hp : l.Path a xs b) (hnodup : (xs ++ [b]).Nodup) {w w' : α}
    (hw : w ∈ a :: xs) (hw' : w' ∈ a :: xs) (h : l.next w = l.next w') : w = w' := by
  induction xs generalizing a with
  | nil => rw [List.mem_singleton.mp hw, List.mem_singleton.mp hw']
  | cons x xs ih =>
    obtain ⟨ha, hp⟩ := path_cons.mp hp
    obtain ⟨hx, hnodup⟩ := List.nodup_cons.mp hnodup
    have hlater : ∀ v ∈ x :: xs, l.next v ≠ some x := by
      intro v hv hvx
      obtain ⟨y, hy, hvy⟩ := hp.succ hv
      rw [hvx] at hvy
      cases hvy
      exact hx hy
    rcases List.mem_cons.mp hw with hwa | hwx
    · rcases List.mem_cons.mp hw' with hwa' | hwx'
      · exact hwa.trans hwa'.symm
      · rw [hwa, ha] at h
        exact absurd h.symm (hlater w' hwx')
    · rcases List.mem_cons.mp hw' with hwa' | hwx'
      · rw [hwa', ha] at h
        exact absurd h (hlater w hwx)
      · exact ih hp hnodup hwx hwx'

theorem Links.Path.restart (hp : l.Path a xs b) {a' : α} (ha : l'.next a' = l.next a)
    (hsame : ∀ w ∈ xs, l'.next w = l.next w) : l'.Path a' xs b := by
  induction xs generalizing a a' with
  | nil => exact path_nil.mpr (ha.trans (path_nil.mp hp))
  | cons x xs ih =>
    obtain ⟨hx, hp⟩ := path_cons.mp hp
    refine path_cons.mpr ⟨ha.trans hx, ?_⟩
    exact ih hp (hsame x List.mem_cons_self) fun w hw => hsame w (List.mem_cons_of_mem x hw)

end

def foldUntil (body : β → α → Option (β ⊕ γ)) : β → List α → Option (β ⊕ γ)
  | b, [] => some (.inl b)
  | b, a :: as =>
    match body b a with
    | none => none
    | some (.inl b') => foldUntil body b' as
    | some (.inr c) => some (.inr c)

theorem foldUntil_append (body : β → α → Option (β ⊕ γ)) (b : β) (xs ys : List α) :
    foldUntil body b (xs ++ ys) =
      match foldUntil body b xs with
      | none => none
      | some (.inl b') => foldUntil body b' ys
      | some (.inr c) => some (.inr c) := by
  induction xs generalizing b with
  | nil => rfl
  | cons x xs ih =>
    rw [List.cons_append, foldUntil, foldUntil]
    cases body b x with
    | none => rfl
    | some r =>
      cases r with
      | inl b' => exact ih b'
      | inr c => rfl

theorem foldUntil_congr {body body' : β → α → Option (β ⊕ γ)} {xs : List α}
    (h : ∀ x ∈ xs, ∀ b, body b x = body' b x) (b : β) :
    foldUntil body b xs = foldUntil body' b xs := by
  induction xs generalizing b with
  | nil => rfl
  | cons x xs ih =>
    rw [foldUntil, foldUntil, h x List.mem_cons_self]
    have ih := ih fun y hy => h y (List.mem_cons_of_mem x hy)
    cases body' b x with
    | none => rfl
    | some r =>
      cases r with
      | inl b' => exact ih b'
      | inr c => rfl

theorem foldUntil_flatMap {ι : Type*} (body : β → α → Option (β ⊕ γ)) (g : ι → List α) (b : β)
    (is : List ι) :
    foldUntil (fun b i => foldUntil body b (g i)) b is = foldUntil body b (is.flatMap g) := by
  induction is generalizing b with
  | nil => rfl
  | cons i is ih =>
    rw [List.flatMap_cons, foldUntil_append, foldUntil]
    cases foldUntil body b (g i) with
    | none => rfl
    | some r =>
      cases r with
      | inl b' => exact ih b'
      | inr c => rfl

section

variable [DecidableEq α]

/-- One round of a loop over the nodes after `h`. The body goes on with `inl` and leaves the
loop with `inr`; it fails, and so does the loop, at what is no node. -/
def eachStep (l : Links α) (h : α) (body : β → α → Option (β ⊕ γ)) :
    Option α × β → (Option α × β) ⊕ Option (β ⊕ γ)
  | (none, _) => .inr none
  | (some a, b) =>
    if a = h then .inr (some (.inl b))
    else
      match body b a with
      | none => .inr none
      | some (.inl b') => .inl (l.next a, b')
      | some (.inr c) => .inr (some (.inr c))

theorem Links.Path.each {l : Links α} {a h : α} {xs : List α} (hp : l.Path a xs h) (hh : h ∉ xs)
    (body : β → α → Option (β ⊕ γ)) (b : β) :
    run (eachStep l h body) (xs.length + 1) (l.next a, b) = some (foldUntil body b xs) := by
  induction xs generalizing a b with
  | nil =>
    have ha : l.next a = some h := (List.isChain_cons_cons.mp hp).1
    simp [run, ha, eachStep, foldUntil]
  | cons x xs ih =>
    obtain ⟨ha, hp⟩ := List.isChain_cons_cons.mp hp
    simp only [List.mem_cons, not_or] at hh
    obtain ⟨hx, hh⟩ := hh
    have hstep : eachStep l h body (l.next a, b) =
        match body b x with
        | none => .inr none
        | some (.inl b') => .inl (l.next x, b')
        | some (.inr c) => .inr (some (.inr c)) := by
      rw [ha]
      exact if_neg fun h => hx h.symm
    rw [foldUntil]
    cases hbody : body b x with
    | none =>
      rw [hbody] at hstep
      exact run_leave hstep _
    | some r =>
      rw [hbody] at hstep
      cases r with
      | inl b' =>
        rw [List.length_cons, run_again hstep]
        exact ih hp hh b'
      | inr c => exact run_leave hstep _

end

theorem Links.Ring.next_mem {l : Links α} {h a : α} {xs : List α} (hr : l.Ring h xs)
    (ha : a ∈ h :: xs) : ∃ b ∈ h :: xs, l.Linked a b := by
  obtain ⟨s, t, hst⟩ := List.append_of_mem ha
  have hlinked := hr.linked
  rw [← List.cons_append, hst, List.append_assoc, List.cons_append] at hlinked
  cases t with
  | nil =>
    refine ⟨h, List.mem_cons_self, ?_⟩
    rw [List.nil_append, List.isChain_append_cons_cons] at hlinked
    exact hlinked.2.1
  | cons b t =>
    refine ⟨b, by rw [hst]; simp, ?_⟩
    rw [List.cons_append, List.isChain_append_cons_cons] at hlinked
    exact hlinked.2.1

theorem Links.Ring.prev_mem {l : Links α} {h b : α} {xs : List α} (hr : l.Ring h xs)
    (hb : b ∈ h :: xs) : ∃ a ∈ h :: xs, l.Linked a b := by
  have hmem : b ∈ xs ++ [h] := by simpa [or_comm] using hb
  obtain ⟨s, t, hst⟩ := List.append_of_mem hmem
  have hlinked := hr.linked
  rw [hst] at hlinked
  rcases List.eq_nil_or_concat s with rfl | ⟨s', a, rfl⟩
  · exact ⟨h, List.mem_cons_self, (List.isChain_cons_cons.mp hlinked).1⟩
  · rw [List.concat_eq_append, List.append_assoc, List.singleton_append] at hlinked
    rw [List.isChain_cons_append_cons_cons] at hlinked
    refine ⟨a, ?_, hlinked.2.1⟩
    have ha : a ∈ xs ++ [h] := by
      rw [hst]
      simp
    simpa [or_comm] using ha

theorem Links.Ring.congr {l l' : Links α} {h : α} {xs : List α} (hr : l.Ring h xs)
    (hnext : ∀ a ∈ h :: xs, l'.next a = l.next a) (hprev : ∀ a ∈ h :: xs, l'.prev a = l.prev a) :
    l'.Ring h xs := by
  refine ⟨hr.nodup, hr.linked.imp_of_mem_imp fun a b ha hb hab => ?_⟩
  have hmem : ∀ c ∈ h :: (xs ++ [h]), c ∈ h :: xs := by
    intro c hc
    simpa [or_comm, or_assoc] using hc
  exact ⟨(hnext a (hmem a ha)).trans hab.1, (hprev b (hmem b hb)).trans hab.2⟩

variable [DecidableEq α]

def Links.setNext (l : Links α) (a : α) (b : Option α) : Links α :=
  { l with next := Function.update l.next a b }

def Links.setPrev (l : Links α) (a : α) (b : Option α) : Links α :=
  { l with prev := Function.update l.prev a b }

section

variable (l : Links α) (a : α) (b : Option α)

@[simp] theorem Links.setNext_prev : (l.setNext a b).prev = l.prev := rfl

@[simp] theorem Links.setPrev_next : (l.setPrev a b).next = l.next := rfl

@[simp] theorem Links.setNext_next (x : α) :
    (l.setNext a b).next x = if x = a then b else l.next x := by
  simp [setNext, Function.update_apply]

@[simp] theorem Links.setPrev_prev (x : α) :
    (l.setPrev a b).prev x = if x = a then b else l.prev x := by
  simp [setPrev, Function.update_apply]

end

def Links.link (l : Links α) (x p n : α) : Links α :=
  (((l.setPrev n (some x)).setNext x (some n)).setPrev x (some p)).setNext p (some x)

def Links.join (l : Links α) (p n : α) : Links α := (l.setPrev n (some p)).setNext p (some n)

section

variable (l : Links α) (x p n a : α)

theorem Links.link_next : (l.link x p n).next a =
    if a = p then some x else if a = x then some n else l.next a := by
  simp [link]

theorem Links.link_prev : (l.link x p n).prev a =
    if a = x then some p else if a = n then some x else l.prev a := by
  simp [link]

theorem Links.join_next : (l.join p n).next a = if a = p then some n else l.next a := by
  simp [join]

theorem Links.join_prev : (l.join p n).prev a = if a = n then some p else l.prev a := by
  simp [join]

end

theorem Links.Ring.insert {l : Links α} {h x p n : α} {xs ys s t : List α}
    (hr : l.Ring h (xs ++ ys)) (hx : x ∉ h :: (xs ++ ys)) (hp : h :: xs = s ++ [p])
    (hn : ys ++ [h] = n :: t) : (l.link x p n).Ring h (xs ++ x :: ys) := by
  have hnodup := hr.nodup
  have hlinked := hr.linked
  have hsplit : h :: (xs ++ ys ++ [h]) = s ++ p :: n :: t := by
    rw [List.append_assoc, hn, ← List.cons_append, hp, List.append_assoc, List.singleton_append]
  rw [hsplit, List.isChain_append_cons_cons] at hlinked
  obtain ⟨hbefore, ⟨hpn, hnp⟩, hafter⟩ := hlinked
  have hmem : ∀ c ∈ s ++ p :: n :: t, c ≠ x := by
    rintro c hc rfl
    rw [← hsplit] at hc
    simp only [List.mem_cons, List.mem_append] at hx hc
    tauto
  -- A pair that does not have `n` second does not have `p` first.
  have hkeep : ∀ a b, a ≠ x → b ≠ x → b ≠ n → l.Linked a b → (l.link x p n).Linked a b := by
    rintro a b hax hbx hbn ⟨hab, hba⟩
    have hap : a ≠ p := by
      rintro rfl
      rw [hpn] at hab
      exact hbn (Option.some.inj hab).symm
    exact ⟨by simp [link_next, hap, hax, hab], by simp [link_prev, hbx, hbn, hba]⟩
  have hxp : x ≠ p := fun h => hmem p (by simp) h.symm
  have hxn : n ≠ x := hmem n (by simp)
  have hround : (xs ++ (ys ++ [h])).Nodup := by
    rw [← List.append_assoc, List.nodup_append_comm]
    exact hnodup
  rw [hn] at hround
  obtain ⟨-, hnt, hdisj⟩ := List.nodup_append.mp hround
  refine ⟨?_, ?_⟩
  · rw [← List.cons_append, List.nodup_middle]
    exact List.nodup_cons.mpr ⟨hx, hnodup⟩
  · have hsplit' : h :: (xs ++ x :: ys ++ [h]) = s ++ p :: x :: n :: t := by
      rw [List.append_assoc, List.cons_append, hn, ← List.cons_append, hp, List.append_assoc,
        List.singleton_append]
    rw [hsplit', List.isChain_append_cons_cons, List.isChain_cons_cons]
    refine ⟨hbefore.imp_of_mem_tail_imp fun a b ha hb hab => ?_, ⟨?_, ?_⟩, ⟨?_, ?_⟩,
      hafter.imp_of_mem_tail_imp fun a b ha hb hab => ?_⟩
    · have hb' : b ∈ xs := by
        rw [← hp] at hb
        exact hb
      have hsub : ∀ c ∈ s ++ [p], c ≠ x := fun c hc => hmem c (by simp at hc ⊢; tauto)
      exact hkeep a b (hsub a ha) (hsub b (List.mem_of_mem_tail hb))
        (hdisj b hb' n List.mem_cons_self) hab
    · simp [link_next]
    · simp [link_prev]
    · simp [link_next, hxp]
    · simp [link_prev, hxn]
    · have hsub : ∀ c ∈ n :: t, c ≠ x := fun c hc => hmem c (by simp at hc ⊢; tauto)
      have hbn : b ≠ n := by
        rintro rfl
        exact (List.nodup_cons.mp hnt).1 hb
      exact hkeep a b (hsub a ha) (hsub b (List.mem_of_mem_tail hb)) hbn hab

theorem Links.Ring.link {l : Links α} {h x n : α} {xs : List α} (hr : l.Ring h xs)
    (hx : x ∉ h :: xs) (hn : l.next h = some n) : (l.link x h n).Ring h (x :: xs) := by
  obtain ⟨m, t, ht⟩ : ∃ m t, xs ++ [h] = m :: t := by
    cases xs with
    | nil => exact ⟨h, [], rfl⟩
    | cons y ys => exact ⟨y, ys ++ [h], rfl⟩
  have hfirst := hr.linked
  rw [ht] at hfirst
  have hm := (List.isChain_cons_cons.mp hfirst).1.1
  rw [hn] at hm
  cases hm
  have hr' : l.Ring h ([] ++ xs) := hr
  exact hr'.insert hx (show [h] = [] ++ [h] from rfl) ht

theorem Links.Ring.link_last {l : Links α} {h x p : α} {xs : List α} (hr : l.Ring h xs)
    (hx : x ∉ h :: xs) (hp : l.prev h = some p) : (l.link x p h).Ring h (xs ++ [x]) := by
  obtain ⟨s, q, hs⟩ : ∃ s q, h :: xs = s ++ [q] :=
    ⟨_, _, (List.dropLast_append_getLast (List.cons_ne_nil h xs)).symm⟩
  have hlast := hr.linked
  rw [← List.cons_append, hs, List.append_assoc, List.singleton_append,
    List.isChain_append_cons_cons] at hlast
  have hq := hlast.2.1.2
  rw [hp] at hq
  cases hq
  have hr' : l.Ring h (xs ++ []) := by rwa [List.append_nil]
  exact hr'.insert (by rwa [List.append_nil]) hs rfl

/-- A node is taken out when its neighbours become each other's. -/
theorem Links.Ring.unlink {l : Links α} {h x p n : α} {xs : List α} (hr : l.Ring h xs)
    (hx : x ∈ xs) (hn : l.next x = some n) (hp : l.prev x = some p) :
    (l.join p n).Ring h (xs.erase x) := by
  obtain ⟨s, t, rfl⟩ := List.append_of_mem hx
  obtain ⟨s', p', hs⟩ : ∃ s' p', h :: s = s' ++ [p'] :=
    ⟨_, _, (List.dropLast_append_getLast (List.cons_ne_nil h s)).symm⟩
  obtain ⟨n', t', ht⟩ : ∃ n' t', t ++ [h] = n' :: t' := by
    cases t with
    | nil => exact ⟨h, [], rfl⟩
    | cons n' t => exact ⟨n', t ++ [h], rfl⟩
  have hnodup := hr.nodup
  rw [← List.cons_append, List.nodup_middle, List.nodup_cons, List.mem_append, not_or] at hnodup
  obtain ⟨⟨hxs, hxt⟩, hrest⟩ := hnodup
  have hxt' : x ∉ n' :: t' := by
    rw [← ht]
    simp only [List.mem_append, List.mem_singleton, not_or]
    exact ⟨hxt, fun hxh => hxs (hxh ▸ List.mem_cons_self)⟩
  have hlinked := hr.linked
  rw [List.append_assoc, List.cons_append, ht, ← List.cons_append, hs, List.append_assoc,
    List.singleton_append, List.isChain_append_cons_cons, List.isChain_cons_cons] at hlinked
  obtain ⟨hbefore, ⟨hpx, hp'⟩, ⟨hn', hnx⟩, hafter⟩ := hlinked
  rw [hp] at hp'
  rw [hn] at hn'
  cases hp'
  cases hn'
  -- A pair that does not have `x` does not have `p` first or `n` second.
  have hkeep : ∀ a b, a ≠ x → b ≠ x → l.Linked a b → (l.join p n).Linked a b := by
    rintro a b ha hb ⟨hab, hba⟩
    have hap : a ≠ p := by
      rintro rfl
      rw [hpx] at hab
      exact hb (Option.some.inj hab).symm
    have hbn : b ≠ n := by
      rintro rfl
      rw [hnx] at hba
      exact ha (Option.some.inj hba).symm
    constructor
    · simp [Links.join, hap, hab]
    · simp [Links.join, hbn, hba]
  have herase : (s ++ x :: t).erase x = s ++ t := by
    rw [List.erase_append_right _ fun h' => hxs (List.mem_cons_of_mem _ h'), List.erase_cons_head]
  rw [herase]
  refine ⟨hrest, ?_⟩
  rw [List.append_assoc, ht, ← List.cons_append, hs, List.append_assoc, List.singleton_append,
    List.isChain_append_cons_cons]
  refine ⟨hbefore.imp_of_mem_imp fun a b ha hb => ?_, ⟨?_, ?_⟩,
    hafter.imp_of_mem_imp fun a b ha hb => ?_⟩
  · rw [← hs] at ha hb
    exact hkeep a b (fun hax => hxs (hax ▸ ha)) fun hbx => hxs (hbx ▸ hb)
  · simp [Links.join]
  · simp [Links.join]
  · exact hkeep a b (fun hax => hxt' (hax ▸ ha)) fun hbx => hxt' (hbx ▸ hb)

/-- Nodes that are neighbours already, or are not in the ring, may be made neighbours. -/
theorem Links.Ring.join {l : Links α} {h p n : α} {xs : List α} (hr : l.Ring h xs)
    (hn : n ∈ h :: xs → l.prev n = some p) (hp : p ∈ h :: xs → l.next p = some n) :
    (l.join p n).Ring h xs := by
  apply hr.congr
  · intro a ha
    by_cases hap : a = p
    · subst hap
      simp [Links.join, hp ha]
    · simp [Links.join, hap]
  · intro a ha
    by_cases han : a = n
    · subst han
      simp [Links.join, hn ha]
    · simp [Links.join, han]

/-- And only these, if the nodes of the ring are to stay the same. -/
theorem Links.Ring.of_join {l : Links α} {h p n : α} {xs ys : List α} (hr : l.Ring h xs)
    (hr' : (l.join p n).Ring h ys) (hmem : ∀ a, a ∈ ys ↔ a ∈ xs) :
    (n ∈ h :: xs → l.prev n = some p) ∧ (p ∈ h :: xs → l.next p = some n) := by
  have hsame : ∀ a, a ∈ h :: ys ↔ a ∈ h :: xs := by simp [hmem]
  constructor
  · intro hn
    obtain ⟨m, hm, hmn, hnm⟩ := hr.prev_mem hn
    obtain ⟨q, hq, -, hqm⟩ := hr'.next_mem ((hsame m).mpr hm)
    by_cases hqn : q = n
    · subst hqn
      rw [hnm, ← hqm]
      simp [Links.join]
    · have hqm' : l.prev q = some m := by simpa [Links.join, hqn] using hqm
      obtain ⟨a, -, haq, hqa⟩ := hr.prev_mem ((hsame q).mp hq)
      rw [hqm'] at hqa
      cases hqa
      rw [hmn] at haq
      exact absurd (Option.some.inj haq).symm hqn
  · intro hp
    obtain ⟨m, hm, hpm, hmp⟩ := hr.next_mem hp
    obtain ⟨q, hq, hqm, -⟩ := hr'.prev_mem ((hsame m).mpr hm)
    by_cases hqp : q = p
    · subst hqp
      rw [hpm, ← hqm]
      simp [Links.join]
    · have hqm' : l.next q = some m := by simpa [Links.join, hqp] using hqm
      obtain ⟨b, -, hqb, hbq⟩ := hr.next_mem ((hsame q).mp hq)
      rw [hqm'] at hqb
      cases hqb
      rw [hmp] at hbq
      exact absurd (Option.some.inj hbq).symm hqp

end LinkedRing
