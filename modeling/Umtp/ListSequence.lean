import Umtp.ListHead

set_option autoImplicit false

namespace Umtp
open LinkedRing

variable {α : Type} [DecidableEq α]

def SparesOthers (l l' : Links α) (touched : List α) : Prop :=
  ∀ a, a ∉ touched → l'.next a = l.next a ∧ l'.prev a = l.prev a

/-- The list at `head` has come to be `xs`, and every list without a node of `touched` is what
it was. -/
structure BecomesList (l l' : Links α) (touched : List α) (head : α) (xs : List α) : Prop where
  ring : l'.Ring head xs
  others : ∀ head' ys, l.Ring head' ys → (∀ a ∈ head' :: ys, a ∉ touched) →
    l'.Ring head' ys ∧ ∀ a ∈ head' :: ys, l'.next a = l.next a ∧ l'.prev a = l.prev a

omit [DecidableEq α] in
theorem SparesOthers.becomes {l l' : Links α} {touched xs : List α} {head : α}
    (h : SparesOthers l l' touched) (hring : l'.Ring head xs) :
    BecomesList l l' touched head xs where
  ring := hring
  others head' ys hys hapart := by
    have hsame : ∀ a ∈ head' :: ys, l'.next a = l.next a ∧ l'.prev a = l.prev a :=
      fun a ha => h a (hapart a ha)
    exact ⟨hys.congr (fun a ha => (hsame a ha).1) (fun a ha => (hsame a ha).2), hsame⟩

theorem link_spares (l : Links α) {x p n : α} {touched : List α} (hx : x ∈ touched)
    (hp : p ∈ touched) (hn : n ∈ touched) : SparesOthers l (l.link x p n) touched := by
  intro a ha
  have hax : a ≠ x := fun h => ha (h ▸ hx)
  have hap : a ≠ p := fun h => ha (h ▸ hp)
  have han : a ≠ n := fun h => ha (h ▸ hn)
  simp [Links.link_next, Links.link_prev, hax, hap, han]

theorem join_spares (l : Links α) {p n : α} {touched : List α} (hp : p ∈ touched)
    (hn : n ∈ touched) : SparesOthers l (l.join p n) touched := by
  intro a ha
  have hap : a ≠ p := fun h => ha (h ▸ hp)
  have han : a ≠ n := fun h => ha (h ▸ hn)
  simp [Links.join_next, Links.join_prev, hap, han]

section

variable {l : Links α} {head : α} {xs : List α} (hr : l.Ring head xs)

include hr

theorem listAdd_sequence {new : α} (hnew : new ∉ head :: xs) :
    ∃ l', listAdd l new head = some l' ∧
      BecomesList l l' (new :: head :: xs) head (new :: xs) := by
  obtain ⟨n, hn, hlinked⟩ := hr.next_mem List.mem_cons_self
  refine ⟨_, listAdd_some hlinked.1, ?_⟩
  have hspares := link_spares l (p := head) (n := n) (List.mem_cons_self (a := new)
    (l := head :: xs)) (by simp) (List.mem_cons_of_mem new hn)
  exact hspares.becomes (hr.link hnew hlinked.1)

theorem listAddTail_sequence {new : α} (hnew : new ∉ head :: xs) :
    ∃ l', listAddTail l new head = some l' ∧
      BecomesList l l' (new :: head :: xs) head (xs ++ [new]) := by
  obtain ⟨p, hp, hlinked⟩ := hr.prev_mem List.mem_cons_self
  refine ⟨_, listAddTail_some hlinked.2, ?_⟩
  have hspares := link_spares l (p := p) (n := head) (List.mem_cons_self (a := new)
    (l := head :: xs)) (List.mem_cons_of_mem new hp) (by simp)
  exact hspares.becomes (hr.link_last hnew hlinked.2)

theorem listDel_sequence {entry : α} (hentry : entry ∈ xs) :
    ∃ l', listDel l entry = some l' ∧ BecomesList l l' (head :: xs) head (xs.erase entry) := by
  obtain ⟨n, hn, hnext⟩ := hr.next_mem (List.mem_cons_of_mem head hentry)
  obtain ⟨p, hp, hprev⟩ := hr.prev_mem (List.mem_cons_of_mem head hentry)
  refine ⟨_, listDel_some hnext.1 hprev.2, ?_⟩
  exact (join_spares l hp hn).becomes (hr.unlink hentry hnext.1 hprev.2)

theorem listForEach_sequence {β γ : Type} (body : β → α → Option (β ⊕ γ)) (b : β) {fuel : Nat}
    (hfuel : xs.length < fuel) : listForEach fuel l head body b = foldUntil body b xs := by
  have hrun := hr.path.each (List.nodup_cons.mp hr.nodup).1 body b
  rw [listForEach, FuelLoop.run_mono hfuel hrun]
  rfl

theorem listEmpty_sequence : listEmpty l head = true ↔ xs = [] := by
  have hlinked := hr.linked
  cases xs with
  | nil =>
    have hfirst := (List.isChain_cons_cons.mp hlinked).1.1
    simp [listEmpty, hfirst]
  | cons x xs =>
    have hfirst := (List.isChain_cons_cons.mp hlinked).1.1
    have hne : x ≠ head := fun h => (List.nodup_cons.mp hr.nodup).1 (h ▸ List.mem_cons_self)
    simp [listEmpty, hfirst, hne]

end

/-- A list is the sequence of its nodes: what is added comes first or last, what is taken out is
gone, a loop goes through the rest in order, and no other list sees any of it. -/
theorem list_refines_sequence {l : Links α} {head : α} {xs : List α} (hr : l.Ring head xs) :
    (∀ new, new ∉ head :: xs →
      (∃ l', listAdd l new head = some l' ∧
        BecomesList l l' (new :: head :: xs) head (new :: xs)) ∧
      ∃ l', listAddTail l new head = some l' ∧
        BecomesList l l' (new :: head :: xs) head (xs ++ [new])) ∧
    (∀ entry ∈ xs, ∃ l', listDel l entry = some l' ∧
      BecomesList l l' (head :: xs) head (xs.erase entry)) ∧
    (∀ (β γ : Type) (body : β → α → Option (β ⊕ γ)) (b : β), ∀ fuel > xs.length,
      listForEach fuel l head body b = foldUntil body b xs) ∧
    (listEmpty l head = true ↔ xs = []) :=
  ⟨fun _ hnew => ⟨listAdd_sequence hr hnew, listAddTail_sequence hr hnew⟩,
    fun _ hentry => listDel_sequence hr hentry,
    fun _ _ body b _ hfuel => listForEach_sequence hr body b hfuel, listEmpty_sequence hr⟩

def pairLinks : Links (Fin 4) where
  next
    | 0 => some 1
    | 1 => some 2
    | 2 => some 0
    | 3 => none
  prev
    | 0 => some 2
    | 1 => some 0
    | 2 => some 1
    | 3 => none

theorem pairLinks_ring : pairLinks.Ring 0 [1, 2] := by
  refine ⟨by decide, ?_⟩
  simp [Links.Linked, pairLinks]

theorem list_refines_sequence_pair :
    (∃ l', listAddTail pairLinks 3 0 = some l' ∧ BecomesList pairLinks l' [3, 0, 1, 2] 0 [1, 2, 3]) ∧
    (∃ l', listDel pairLinks 1 = some l' ∧ BecomesList pairLinks l' [0, 1, 2] 0 [2]) ∧
    listForEach 3 pairLinks 0 (fun seen a => some (.inl (seen ++ [a]))) [] =
      some (.inl [1, 2] : List (Fin 4) ⊕ Empty) := by
  obtain ⟨hadd, hdel, heach, -⟩ := list_refines_sequence pairLinks_ring
  exact ⟨(hadd 3 (by decide)).2, hdel 1 (by decide), heach _ _ _ [] 3 (by decide)⟩

end Umtp
