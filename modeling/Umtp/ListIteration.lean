import Umtp.Kit.RingCursor
import Umtp.ListSequence

/-! The loops of `list.h`, with bodies that take nodes out or put them into another list. -/

set_option autoImplicit false

namespace Umtp
open LinkedRing FuelLoop

variable {α β γ : Type}

section

variable [DecidableEq α]

def listIsFirst (l : Links α) (list head : α) : Bool := l.prev list == some head

def listIsLast (l : Links α) (list head : α) : Bool := l.next list == some head

/-- `for (pos = follow(head); pos != head; pos = follow(pos))`, if it comes to an end within
`fuel` rounds. The body goes on with `inl`, and breaks out of the loop with `inr`. -/
def eachOf (follow : Links α → α → Option α) (fuel : Nat) (l : Links α) (head : α)
    (body : Links α × β → α → Option ((Links α × β) ⊕ (Links α × γ))) (b : β) :
    Option ((Links α × β) ⊕ (Links α × γ)) :=
  (run (cursorStep follow head body) fuel ((l, b), follow l head)).join

/-- `for (pos = follow(head), n = follow(pos); pos != head; pos = n, n = follow(pos))` -/
def eachOfSafe (follow : Links α → α → Option α) (fuel : Nat) (l : Links α) (head : α)
    (body : Links α × β → α → Option ((Links α × β) ⊕ (Links α × γ))) (b : β) :
    Option ((Links α × β) ⊕ (Links α × γ)) :=
  (run (safeStep follow head body) fuel
    ((l, b), follow l head, (follow l head).bind (follow l))).join

section

variable (fuel : Nat) (l : Links α) (head : α)
  (body : Links α × β → α → Option ((Links α × β) ⊕ (Links α × γ))) (b : β)

/-- `list_for_each`, when the body changes links. -/
def listForEachLinks : Option ((Links α × β) ⊕ (Links α × γ)) :=
  eachOf Links.next fuel l head body b

def listForEachPrev : Option ((Links α × β) ⊕ (Links α × γ)) :=
  eachOf Links.prev fuel l head body b

def listForEachSafe : Option ((Links α × β) ⊕ (Links α × γ)) :=
  eachOfSafe Links.next fuel l head body b

def listForEachPrevSafe : Option ((Links α × β) ⊕ (Links α × γ)) :=
  eachOfSafe Links.prev fuel l head body b

end

/-- What a body does with the node it is at: nothing, `list_del`, or `list_del` and then
`list_add` or `list_add_tail` to another list. -/
inductive Fate where
  | keep
  | remove
  | moveFirst
  | moveLast

def Fate.run (other : α) (f : Fate) (l : Links α) (x : α) : Option (Links α) :=
  match f with
  | .keep => some l
  | .remove => listDel l x
  | .moveFirst => (listDel l x).bind fun l => listAdd l x other
  | .moveLast => (listDel l x).bind fun l => listAddTail l x other

def Fate.apply (f : Fate) (x : α) (q : List α × List α) : List α × List α :=
  match f with
  | .keep => q
  | .remove => (q.1.erase x, q.2)
  | .moveFirst => (q.1.erase x, x :: q.2)
  | .moveLast => (q.1.erase x, q.2 ++ [x])

def visitBody (other : α) (visit : β → α → Fate × (β ⊕ γ)) (s : Links α × β) (x : α) :
    Option ((Links α × β) ⊕ (Links α × γ)) :=
  ((visit s.2 x).1.run other s.1 x).map fun l => (visit s.2 x).2.map (Prod.mk l) (Prod.mk l)

def visitStep (visit : β → α → Fate × (β ⊕ γ)) (g : (List α × List α) × β) (x : α) :
    ((List α × List α) × β) ⊕ ((List α × List α) × γ) :=
  (visit g.2 x).2.map (Prod.mk ((visit g.2 x).1.apply x g.1))
    (Prod.mk ((visit g.2 x).1.apply x g.1))

end

structure TwoLists (l : Links α) (head other : α) (q : List α × List α) : Prop where
  first : l.Ring head q.1
  second : l.Ring other q.2
  apart : ∀ a ∈ head :: q.1, a ∉ other :: q.2

/-- Since the links were `l₀` and the lists `q₀`, nodes have only been taken out and moved. -/
structure Sorted (l₀ : Links α) (head other : α) (q₀ : List α × List α) (l : Links α)
    (q : List α × List α) : Prop where
  lists : TwoLists l head other q
  nodes : ∀ a ∈ q.1 ++ q.2, a ∈ q₀.1 ++ q₀.2
  spares : SparesOthers l₀ l (head :: q₀.1 ++ other :: q₀.2)

theorem SparesOthers.refl (l : Links α) (touched : List α) : SparesOthers l l touched :=
  fun _ _ => ⟨rfl, rfl⟩

theorem SparesOthers.trans {l₁ l₂ l₃ : Links α} {touched : List α}
    (h₁ : SparesOthers l₁ l₂ touched) (h₂ : SparesOthers l₂ l₃ touched) :
    SparesOthers l₁ l₃ touched :=
  fun a ha => ⟨(h₂ a ha).1.trans (h₁ a ha).1, (h₂ a ha).2.trans (h₁ a ha).2⟩

theorem SparesOthers.weaken {l l' : Links α} {touched touched' : List α}
    (h : SparesOthers l l' touched) (hsub : touched ⊆ touched') : SparesOthers l l' touched' :=
  fun a ha => h a fun hmem => ha (hsub hmem)

section

variable [DecidableEq α] {l : Links α} {head other x : α} {q : List α × List α}

theorem TwoLists.del (h : TwoLists l head other q) (hx : x ∈ q.1) :
    ∃ l', listDel l x = some l' ∧ TwoLists l' head other (q.1.erase x, q.2) ∧
      SparesOthers l l' (head :: q.1) ∧ (∀ y, l.next y ≠ some x → l'.next y = l.next y) ∧
      ∀ y, l.prev y ≠ some x → l'.prev y = l.prev y := by
  obtain ⟨n, hn, hnext⟩ := h.first.next_mem (List.mem_cons_of_mem head hx)
  obtain ⟨p, hp, hprev⟩ := h.first.prev_mem (List.mem_cons_of_mem head hx)
  have hspares : SparesOthers l (l.join p n) (head :: q.1) := join_spares l hp hn
  refine ⟨_, listDel_some hnext.1 hprev.2, ⟨h.first.unlink hx hnext.1 hprev.2, ?_, ?_⟩, hspares,
    ?_, ?_⟩
  · have hapart : ∀ a ∈ other :: q.2, a ∉ head :: q.1 := fun a ha ha' => h.apart a ha' ha
    exact h.second.congr (fun a ha => (hspares a (hapart a ha)).1)
      fun a ha => (hspares a (hapart a ha)).2
  · intro a ha
    rcases List.mem_cons.mp ha with rfl | ha
    · exact h.apart a List.mem_cons_self
    · exact h.apart a (List.mem_cons_of_mem head (List.mem_of_mem_erase ha))
  · intro y hy
    rw [Links.join_next, if_neg]
    rintro rfl
    exact hy hprev.1
  · intro y hy
    rw [Links.join_prev, if_neg]
    rintro rfl
    exact hy hnext.2

theorem TwoLists.put (h : TwoLists l head other q) (hx : x ∉ head :: q.1) {p n : α}
    (hp : p ∈ other :: q.2) (hn : n ∈ other :: q.2) {ys : List α}
    (hring : (l.link x p n).Ring other ys) (hys : ∀ a ∈ ys, a = x ∨ a ∈ q.2) :
    TwoLists (l.link x p n) head other (q.1, ys) ∧
      SparesOthers l (l.link x p n) (x :: other :: q.2) := by
  have hspares : SparesOthers l (l.link x p n) (x :: other :: q.2) :=
    link_spares l List.mem_cons_self (List.mem_cons_of_mem x hp) (List.mem_cons_of_mem x hn)
  have hfirst : ∀ a ∈ head :: q.1, a ∉ x :: other :: q.2 := by
    intro a ha hmem
    rcases List.mem_cons.mp hmem with rfl | hmem
    · exact hx ha
    · exact h.apart a ha hmem
  refine ⟨⟨?_, hring, ?_⟩, hspares⟩
  · exact h.first.congr (fun a ha => (hspares a (hfirst a ha)).1)
      fun a ha => (hspares a (hfirst a ha)).2
  · intro a ha hmem
    apply hfirst a ha
    rcases List.mem_cons.mp hmem with rfl | hmem
    · simp
    · rcases hys a hmem with rfl | hmem
      · exact List.mem_cons_self
      · simp [hmem]

theorem TwoLists.addFirst (h : TwoLists l head other q) (hx : x ∉ head :: q.1)
    (hx' : x ∉ other :: q.2) :
    ∃ l', listAdd l x other = some l' ∧ TwoLists l' head other (q.1, x :: q.2) ∧
      SparesOthers l l' (x :: other :: q.2) := by
  obtain ⟨n, hn, hnext⟩ := h.second.next_mem List.mem_cons_self
  obtain ⟨hlists, hspares⟩ := h.put hx List.mem_cons_self hn (h.second.link hx' hnext.1)
    fun a ha => List.mem_cons.mp ha
  exact ⟨_, listAdd_some hnext.1, hlists, hspares⟩

theorem TwoLists.addLast (h : TwoLists l head other q) (hx : x ∉ head :: q.1)
    (hx' : x ∉ other :: q.2) :
    ∃ l', listAddTail l x other = some l' ∧ TwoLists l' head other (q.1, q.2 ++ [x]) ∧
      SparesOthers l l' (x :: other :: q.2) := by
  obtain ⟨p, hp, hprev⟩ := h.second.prev_mem List.mem_cons_self
  obtain ⟨hlists, hspares⟩ := h.put hx hp List.mem_cons_self (h.second.link_last hx' hprev.2)
    fun a ha => by simpa [or_comm] using ha
  exact ⟨_, listAddTail_some hprev.2, hlists, hspares⟩

def Fate.Stays (f : Fate) : Prop := f = .keep ∨ f = .remove

/-- The links are changed at the neighbours of `x`, at `x` if it is moved, and outside the
list. -/
structure Turns (f : Fate) (x : α) (q : List α × List α) (head other : α) (l l' : Links α) :
    Prop where
  lists : TwoLists l' head other (f.apply x q)
  spares : SparesOthers l l' (head :: q.1 ++ other :: q.2)
  next : ∀ y ∈ q.1, y ≠ x ∨ f.Stays → l.next y ≠ some x → l'.next y = l.next y
  prev : ∀ y ∈ q.1, y ≠ x ∨ f.Stays → l.prev y ≠ some x → l'.prev y = l.prev y

theorem TwoLists.moved (h : TwoLists l head other q) (hx : x ∈ q.1) {f : Fate} {l₁ l₂ : Links α}
    (hspares₁ : SparesOthers l l₁ (head :: q.1))
    (hnext : ∀ y, l.next y ≠ some x → l₁.next y = l.next y)
    (hprev : ∀ y, l.prev y ≠ some x → l₁.prev y = l.prev y)
    (hlists : TwoLists l₂ head other (f.apply x q))
    (hspares₂ : SparesOthers l₁ l₂ (x :: other :: q.2)) (hmoves : ¬ f.Stays) :
    Turns f x q head other l l₂ := by
  have hstill : ∀ y ∈ q.1, y ≠ x ∨ f.Stays → y ∉ x :: other :: q.2 := by
    intro y hy hyx hmem
    rcases List.mem_cons.mp hmem with rfl | hmem
    · exact hyx.elim (fun hne => hne rfl) hmoves
    · exact h.apart y (List.mem_cons_of_mem head hy) hmem
  refine ⟨hlists, ?_, ?_, ?_⟩
  · apply (hspares₁.weaken (List.subset_append_left _ _)).trans
    apply hspares₂.weaken
    intro a ha
    rcases List.mem_cons.mp ha with rfl | ha
    · simp [hx]
    · exact List.mem_append_right _ ha
  · intro y hy hyx hne
    exact (hspares₂ y (hstill y hy hyx)).1.trans (hnext y hne)
  · intro y hy hyx hne
    exact (hspares₂ y (hstill y hy hyx)).2.trans (hprev y hne)

theorem Fate.run_turns (h : TwoLists l head other q) (hx : x ∈ q.1) (f : Fate) :
    ∃ l', f.run other l x = some l' ∧ Turns f x q head other l l' := by
  obtain ⟨l₁, hdel, hlists₁, hspares₁, hnext, hprev⟩ := h.del hx
  have hx₁ : x ∉ head :: q.1.erase x := by
    obtain ⟨hhead, hnodup⟩ := List.nodup_cons.mp h.first.nodup
    rw [List.mem_cons, not_or]
    exact ⟨fun he => hhead (he ▸ hx), hnodup.not_mem_erase⟩
  have hx₂ : x ∉ other :: q.2 := h.apart x (List.mem_cons_of_mem head hx)
  cases f with
  | keep => exact ⟨l, rfl, h, SparesOthers.refl l _, fun _ _ _ _ => rfl, fun _ _ _ _ => rfl⟩
  | remove =>
    exact ⟨l₁, hdel, hlists₁, hspares₁.weaken (List.subset_append_left _ _),
      fun y _ _ => hnext y, fun y _ _ => hprev y⟩
  | moveFirst =>
    obtain ⟨l₂, hadd, hlists₂, hspares₂⟩ := hlists₁.addFirst hx₁ hx₂
    refine ⟨l₂, ?_, h.moved hx hspares₁ hnext hprev hlists₂ hspares₂ (by simp [Fate.Stays])⟩
    rw [Fate.run, hdel]
    exact hadd
  | moveLast =>
    obtain ⟨l₂, hadd, hlists₂, hspares₂⟩ := hlists₁.addLast hx₁ hx₂
    refine ⟨l₂, ?_, h.moved hx hspares₁ hnext hprev hlists₂ hspares₂ (by simp [Fate.Stays])⟩
    rw [Fate.run, hdel]
    exact hadd

end

inductive Direction where
  | forward
  | backward

def Direction.follow : Direction → Links α → α → Option α
  | .forward => Links.next
  | .backward => Links.prev

def Direction.order : Direction → List α → List α
  | .forward, xs => xs
  | .backward, xs => xs.reverse

section

variable (d : Direction) {l : Links α} {head x y : α} {xs rest : List α}

theorem Direction.mem_order {a : α} : a ∈ d.order xs ↔ a ∈ xs := by
  cases d with
  | forward => exact Iff.rfl
  | backward => exact List.mem_reverse

theorem Direction.order_nodup (h : xs.Nodup) : (d.order xs).Nodup := by
  cases d with
  | forward => exact h
  | backward => exact List.nodup_reverse.mpr h

theorem Direction.order_length : (d.order xs).length = xs.length := by
  cases d with
  | forward => rfl
  | backward => exact List.length_reverse

theorem Direction.follows (hr : l.Ring head xs) :
    Follows d.follow head l (d.order xs) ∧ d.follow l head = (d.order xs ++ [head]).head? := by
  have hround : ∀ {l : Links α} {xs : List α}, l.Ring head xs →
      Follows Links.next head l xs ∧ l.next head = (xs ++ [head]).head? := by
    intro l xs hr
    cases xs with
    | nil => exact ⟨List.isChain_singleton head, Links.path_nil.mp hr.path⟩
    | cons x xs => exact ⟨(Links.path_cons.mp hr.path).2, (Links.path_cons.mp hr.path).1⟩
  cases d with
  | forward => exact hround hr
  | backward => exact hround hr.flip

theorem Direction.follow_ne (hr : l.Ring head xs) (hrest : x :: rest <:+ d.order xs)
    (hy : y ∈ x :: rest) : d.follow l y ≠ some x := by
  cases d with
  | forward => exact hr.next_ne hrest hy
  | backward => exact hr.flip.next_ne hrest hy

theorem Direction.order_erase [DecidableEq α] (hnodup : xs.Nodup)
    (hrest : x :: rest <:+ d.order xs) : rest <:+ d.order (xs.erase x) := by
  have horder : d.order (xs.erase x) = (d.order xs).filter (· != x) := by
    rw [hnodup.erase_eq_filter]
    cases d with
    | forward => rfl
    | backward => exact List.filter_reverse.symm
  have hx : x ∉ rest :=
    (List.nodup_cons.mp ((d.order_nodup hnodup).sublist hrest.sublist)).1
  have hkept : (x :: rest).filter (· != x) = rest := by
    rw [List.filter_cons_of_neg (by simp), List.filter_eq_self]
    intro a ha
    simpa using fun he : a = x => hx (he ▸ ha)
  rw [horder, ← hkept]
  exact hrest.filter _

theorem listIsFirst_iff [DecidableEq α] (hr : l.Ring head xs) (hx : x ∈ xs) :
    listIsFirst l x head = true ↔ xs.head? = some x := by
  have hfirst : l.next head = xs.head? := by
    cases xs with
    | nil => cases hx
    | cons y ys => exact (Direction.forward.follows hr).2
  rw [listIsFirst, beq_iff_eq, ← hfirst]
  constructor
  · intro hprev
    obtain ⟨p, -, hpx, hxp⟩ := hr.prev_mem (List.mem_cons_of_mem head hx)
    rw [hprev] at hxp
    cases hxp
    exact hpx
  · intro hnext
    obtain ⟨n, -, hheadn, hnhead⟩ := hr.next_mem List.mem_cons_self
    rw [hnext] at hheadn
    cases hheadn
    exact hnhead

theorem listIsLast_iff [DecidableEq α] (hr : l.Ring head xs) (hx : x ∈ xs) :
    listIsLast l x head = true ↔ xs.getLast? = some x := by
  rw [← List.head?_reverse]
  exact listIsFirst_iff hr.flip (List.mem_reverse.mpr hx)

end

section

variable {l₀ : Links α} {head other : α} {q₀ : List α × List α}

def Coming (l₀ : Links α) (head other : α) (q₀ : List α × List α) (d : Direction) (rest : List α)
    (g : (List α × List α) × β) (s : Links α × β) : Prop :=
  g.2 = s.2 ∧ Sorted l₀ head other q₀ s.1 g.1 ∧ rest <:+ d.order g.1.1

def LeftAs (l₀ : Links α) (head other : α) (q₀ : List α × List α)
    (g : (List α × List α) × γ) (s : Links α × γ) : Prop :=
  g.2 = s.2 ∧ Sorted l₀ head other q₀ s.1 g.1

theorem TwoLists.coming {l : Links α} {q : List α × List α} (h : TwoLists l head other q) (b : β)
    (d : Direction) : Coming l head other q d (d.order q.1) (q, b) (l, b) :=
  ⟨rfl, ⟨h, fun _ ha => ha, SparesOthers.refl l _⟩, List.suffix_rfl⟩

theorem TwoLists.head_not_mem {l : Links α} {q : List α × List α} (h : TwoLists l head other q)
    (d : Direction) : head ∉ d.order q.1 := by
  rw [d.mem_order]
  exact (List.nodup_cons.mp h.first.nodup).1

theorem Coming.left {d : Direction} {g : (List α × List α) × β} {s : Links α × β}
    (hc : Coming l₀ head other q₀ d [] g s) : LeftAs l₀ head other q₀ g s := ⟨hc.1, hc.2.1⟩

variable [DecidableEq α]

theorem Fate.apply_nodes (f : Fate) {x : α} {q : List α × List α} (hx : x ∈ q.1) {a : α}
    (ha : a ∈ (f.apply x q).1 ++ (f.apply x q).2) : a ∈ q.1 ++ q.2 := by
  have herase : a ∈ q.1.erase x → a ∈ q.1 := List.mem_of_mem_erase
  rw [List.mem_append] at ha ⊢
  cases f with
  | keep => exact ha
  | remove => exact ha.imp_left herase
  | moveFirst =>
    rcases ha with ha | ha
    · exact .inl (herase ha)
    · rcases List.mem_cons.mp ha with rfl | ha
      · exact .inl hx
      · exact .inr ha
  | moveLast =>
    rcases ha with ha | ha
    · exact .inl (herase ha)
    · rcases List.mem_append.mp ha with ha | ha
      · exact .inr ha
      · rw [List.mem_singleton.mp ha]
        exact .inl hx

theorem Coming.round {d : Direction} {x : α} {rest : List α} {g : (List α × List α) × β}
    {s : Links α × β} (h : Coming l₀ head other q₀ d (x :: rest) g s) (f : Fate) :
    ∃ l', f.run other s.1 x = some l' ∧ Sorted l₀ head other q₀ l' (f.apply x g.1) ∧
      rest <:+ d.order (f.apply x g.1).1 ∧
      ∀ y ∈ x :: rest, y ∈ rest ∨ f.Stays → d.follow l' y = d.follow s.1 y := by
  obtain ⟨-, ⟨hlists, hnodes, hspares⟩, hrest⟩ := h
  have hmem : ∀ y ∈ x :: rest, y ∈ g.1.1 := fun y hy => d.mem_order.mp (hrest.subset hy)
  have hx := hmem x List.mem_cons_self
  obtain ⟨hhead, hnodup⟩ := List.nodup_cons.mp hlists.first.nodup
  obtain ⟨l', hrun, hturns⟩ := Fate.run_turns hlists hx f
  have hafter := d.order_erase hnodup hrest
  refine ⟨l', hrun, ⟨hturns.lists, fun a ha => hnodes a (f.apply_nodes hx ha), ?_⟩, ?_, ?_⟩
  · apply hspares.trans (hturns.spares.weaken _)
    intro a ha
    have := hnodes a
    simp only [List.cons_append, List.mem_cons, List.mem_append] at ha this ⊢
    tauto
  · cases f with
    | keep => exact (List.suffix_cons x rest).trans hrest
    | remove => exact hafter
    | moveFirst => exact hafter
    | moveLast => exact hafter
  · intro y hy hyx
    have hne := d.follow_ne hlists.first hrest hy
    have hstill : y ≠ x ∨ f.Stays := by
      refine hyx.imp_left fun hyrest hyx => ?_
      subst hyx
      exact (List.nodup_cons.mp ((d.order_nodup hnodup).sublist hrest.sublist)).1 hyrest
    cases d with
    | forward => exact hturns.next y (hmem y hy) hstill hne
    | backward => exact hturns.prev y (hmem y hy) hstill hne

variable {visit : β → α → Fate × (β ⊕ γ)}

theorem Coming.go {d : Direction} {x : α} {rest : List α} {g g' : (List α × List α) × β}
    {s : Links α × β} (h : Coming l₀ head other q₀ d (x :: rest) g s)
    (hstep : visitStep visit g x = .inl g') :
    ∃ s', visitBody other visit s x = some (.inl s') ∧ Coming l₀ head other q₀ d rest g' s' ∧
      ∀ y ∈ x :: rest, y ∈ rest ∨ (visit s.2 x).1.Stays →
        d.follow s'.1 y = d.follow s.1 y := by
  obtain ⟨l', hrun, hsorted, hrest, hfollow⟩ := h.round (visit s.2 x).1
  rw [visitStep, h.1] at hstep
  rw [visitBody, hrun, Option.map_some]
  cases hvisit : (visit s.2 x).2 with
  | inr c =>
    rw [hvisit] at hstep
    cases hstep
  | inl b' =>
    rw [hvisit] at hstep
    cases hstep
    exact ⟨(l', b'), rfl, ⟨rfl, hsorted, hrest⟩, hfollow⟩

theorem Coming.break {d : Direction} {x : α} {rest : List α} {g : (List α × List α) × β}
    {c : (List α × List α) × γ} {s : Links α × β}
    (h : Coming l₀ head other q₀ d (x :: rest) g s) (hstep : visitStep visit g x = .inr c) :
    ∃ e, visitBody other visit s x = some (.inr e) ∧ LeftAs l₀ head other q₀ c e := by
  obtain ⟨l', hrun, hsorted, -, -⟩ := h.round (visit s.2 x).1
  rw [visitStep, h.1] at hstep
  rw [visitBody, hrun, Option.map_some]
  cases hvisit : (visit s.2 x).2 with
  | inl b' =>
    rw [hvisit] at hstep
    cases hstep
  | inr c' =>
    rw [hvisit] at hstep
    cases hstep
    exact ⟨(l', c'), rfl, rfl, hsorted⟩

/-- The loop has come to an end, and done to the two lists what a fold over `nodes` with the same
decisions does to the two sequences. -/
def VisitsAll (l : Links α) (head other : α) (q : List α × List α)
    (visit : β → α → Fate × (β ⊕ γ)) (b : β) (nodes : List α)
    (result : Option ((Links α × β) ⊕ (Links α × γ))) : Prop :=
  ∃ r, result = some r ∧
    Sum.LiftRel (LeftAs l head other q) (LeftAs l head other q)
      (foldBreak (visitStep visit) (q, b) nodes) r

section

variable {l : Links α} {q : List α × List α} (h : TwoLists l head other q) (b : β) {fuel : Nat}
  (hfuel : q.1.length < fuel)

include h hfuel

theorem eachOfSafe_visits (d : Direction) (visit : β → α → Fate × (β ⊕ γ)) :
    VisitsAll l head other q visit b (d.order q.1)
      (eachOfSafe d.follow fuel l head (visitBody other visit) b) := by
  obtain ⟨hfollows, hfirst⟩ := d.follows h.first
  have hloop : ∃ r, run (safeStep d.follow head (visitBody other visit))
        ((d.order q.1).length + 1) ((l, b), (d.order q.1 ++ [head]).head?,
          (d.order q.1 ++ [head]).head?.bind (d.follow l)) = some (some r) ∧
      Sum.LiftRel (Coming l head other q d []) (LeftAs l head other q)
        (foldBreak (visitStep visit) (q, b) (d.order q.1)) r := by
    apply safe_simulates _ (fun _ _ _ _ _ hc hstep => hc.break hstep) (h.coming b d) hfollows
      (h.head_not_mem d)
    intro x rest g s g' hc hstep
    obtain ⟨s', hbody, hc', hsame⟩ := hc.go hstep
    exact ⟨s', hbody, hc', fun y hy => hsame y (List.mem_cons_of_mem x hy) (.inl hy)⟩
  obtain ⟨r, hrun, hrel⟩ := hloop
  rw [d.order_length] at hrun
  refine ⟨r, ?_, hrel.mono (fun _ _ hc => hc.left) fun _ _ hc => hc⟩
  rw [eachOfSafe, hfirst, run_mono hfuel hrun]
  rfl

theorem eachOf_visits (d : Direction) (visit : β → α → Fate × (β ⊕ γ))
    (hstays : ∀ b x, (visit b x).1.Stays) :
    VisitsAll l head other q visit b (d.order q.1)
      (eachOf d.follow fuel l head (visitBody other visit) b) := by
  obtain ⟨hfollows, hfirst⟩ := d.follows h.first
  have hloop : ∃ r, run (cursorStep d.follow head (visitBody other visit))
        ((d.order q.1).length + 1) ((l, b), (d.order q.1 ++ [head]).head?) = some (some r) ∧
      Sum.LiftRel (Coming l head other q d []) (LeftAs l head other q)
        (foldBreak (visitStep visit) (q, b) (d.order q.1)) r := by
    apply cursor_simulates _ (fun _ _ _ _ _ hc hstep => hc.break hstep) (h.coming b d) hfollows
      (h.head_not_mem d)
    intro x rest g s g' hc hstep
    obtain ⟨s', hbody, hc', hsame⟩ := hc.go hstep
    exact ⟨s', hbody, hc', fun y hy => hsame y hy (.inr (hstays _ _))⟩
  obtain ⟨r, hrun, hrel⟩ := hloop
  rw [d.order_length] at hrun
  refine ⟨r, ?_, hrel.mono (fun _ _ hc => hc.left) fun _ _ hc => hc⟩
  rw [eachOf, hfirst, run_mono hfuel hrun]
  rfl

end

/-- A loop that reads the link at a node that has been moved leaves the list. -/
theorem TwoLists.strays {l : Links α} {q : List α × List α} (h : TwoLists l head other q) {x : α}
    (hx : x ∈ q.1) (d : Direction) {b b' : β} {f : Fate} (hf : ¬ f.Stays)
    (hvisit : visit b x = (f, .inl b')) :
    ∃ l' a, cursorStep d.follow head (visitBody other visit) ((l, b), some x) =
      .inl ((l', b'), some a) ∧ a ∉ head :: q.1 := by
  obtain ⟨l', hrun, hturns⟩ := Fate.run_turns h hx f
  obtain ⟨hhead, hnodup⟩ := List.nodup_cons.mp h.first.nodup
  have hlists := hturns.lists
  have hput : (f.apply x q).1 = q.1.erase x ∧ x ∈ (f.apply x q).2 := by
    cases f with
    | keep => exact absurd (.inl rfl) hf
    | remove => exact absurd (.inr rfl) hf
    | moveFirst => exact ⟨rfl, List.mem_cons_self⟩
    | moveLast => exact ⟨rfl, by simp [Fate.apply]⟩
  obtain ⟨hleft, hput⟩ := hput
  obtain ⟨a, ha, hxa⟩ : ∃ a ∈ other :: (f.apply x q).2, d.follow l' x = some a := by
    cases d with
    | forward =>
      obtain ⟨a, ha, hlinked⟩ := hlists.second.next_mem (List.mem_cons_of_mem other hput)
      exact ⟨a, ha, hlinked.1⟩
    | backward =>
      obtain ⟨a, ha, hlinked⟩ := hlists.second.prev_mem (List.mem_cons_of_mem other hput)
      exact ⟨a, ha, hlinked.2⟩
  have hax : a ≠ x := by
    rintro rfl
    obtain ⟨s, t, hst⟩ := List.append_of_mem (d.mem_order.mpr hput)
    exact d.follow_ne hlists.second ⟨s, hst.symm⟩ List.mem_cons_self hxa
  refine ⟨l', a, ?_, ?_⟩
  · have hxh : x ≠ head := fun he => hhead (he ▸ hx)
    simp [cursorStep, hxh, visitBody, hvisit, hrun, hxa]
  · intro hmem
    refine hlists.apart a ?_ ha
    rw [hleft]
    rcases List.mem_cons.mp hmem with rfl | hmem
    · exact List.mem_cons_self
    · exact List.mem_cons_of_mem head (hnodup.mem_erase_iff.mpr ⟨hax, hmem⟩)

theorem listForEachLinks_fixed (fuel : Nat) (l : Links α) (head : α) (body : β → α → Option (β ⊕ γ))
    (b : β) :
    listForEachLinks fuel l head
        (fun s a => (body s.2 a).map (Sum.map (Prod.mk s.1) (Prod.mk s.1))) b =
      (listForEach fuel l head body b).map (Sum.map (Prod.mk l) (Prod.mk l)) := by
  unfold listForEachLinks eachOf listForEach
  generalize l.next head = pos
  induction fuel generalizing pos b with
  | zero => rfl
  | succ fuel ih =>
    cases pos with
    | none => rfl
    | some a =>
      by_cases ha : a = head
      · simp [run, cursorStep, eachStep, ha]
      · cases hbody : body b a with
        | none => simp [run, cursorStep, eachStep, ha, hbody]
        | some r =>
          cases r with
          | inl b' => simpa [run, cursorStep, eachStep, ha, hbody] using ih b' (l.next a)
          | inr c => simp [run, cursorStep, eachStep, ha, hbody]

end

/-- The safe loops come to every node once, whatever the body does with those it has come to, and
so do the others as long as it only takes nodes out. When it moves a node, these go on outside
the list. -/
theorem list_loops_visit [DecidableEq α] {l : Links α} {head other : α} {q : List α × List α}
    (h : TwoLists l head other q) (visit : β → α → Fate × (β ⊕ γ)) :
    (∀ b, ∀ fuel > q.1.length,
      VisitsAll l head other q visit b q.1
        (listForEachSafe fuel l head (visitBody other visit) b) ∧
      VisitsAll l head other q visit b q.1.reverse
        (listForEachPrevSafe fuel l head (visitBody other visit) b) ∧
      ((∀ b x, (visit b x).1.Stays) →
        VisitsAll l head other q visit b q.1
          (listForEachLinks fuel l head (visitBody other visit) b) ∧
        VisitsAll l head other q visit b q.1.reverse
          (listForEachPrev fuel l head (visitBody other visit) b))) ∧
    ∀ x ∈ q.1, ∀ b b' f, ¬ f.Stays → visit b x = (f, .inl b') →
      ∀ follow ∈ [Links.next, Links.prev], ∃ l' a,
        cursorStep follow head (visitBody other visit) ((l, b), some x) = .inl ((l', b'), some a) ∧
          a ∉ head :: q.1 := by
  refine ⟨fun b fuel hfuel => ⟨eachOfSafe_visits h b hfuel .forward visit,
    eachOfSafe_visits h b hfuel .backward visit, fun hstays =>
      ⟨eachOf_visits h b hfuel .forward visit hstays,
        eachOf_visits h b hfuel .backward visit hstays⟩⟩, ?_⟩
  intro x hx b b' f hf hvisit follow hfollow
  simp only [List.mem_cons, List.not_mem_nil, or_false] at hfollow
  rcases hfollow with rfl | rfl
  · exact h.strays hx .forward hf hvisit
  · exact h.strays hx .backward hf hvisit

/-- The list of 1 and 2 at 0, and the empty list at 3. -/
def sortedLinks : Links (Fin 4) := initListHead pairLinks (Fin.last 3)

theorem sortedLinks_lists : TwoLists sortedLinks 0 3 ([1, 2], []) := by
  refine ⟨⟨by decide, ?_⟩, ⟨by decide, ?_⟩, by decide⟩
  · simp [Links.Linked, sortedLinks, initListHead, pairLinks]
  · simp [Links.Linked, sortedLinks, initListHead]

theorem list_loops_visit_sorted :
    VisitsAll sortedLinks 0 3 ([1, 2], [])
      (fun (n : Nat) _ => (Fate.moveLast, (.inl (n + 1) : Nat ⊕ Empty))) 0 [2, 1]
      (listForEachPrevSafe 3 sortedLinks 0
        (visitBody 3 fun (n : Nat) _ => (Fate.moveLast, .inl (n + 1))) 0) ∧
    foldBreak (visitStep fun (n : Nat) _ => (Fate.moveLast, (.inl (n + 1) : Nat ⊕ Empty)))
      ((([1, 2] : List (Fin 4)), []), 0) [2, 1] = .inl (([], [2, 1]), 2) :=
  ⟨((list_loops_visit sortedLinks_lists _).1 0 3 (by decide)).2.1, rfl⟩

end Umtp
