import Umtp.Kit.LinkedRing

/-! `list.c`: circular lists through the `struct list_head` in each object. An operation
fails when it follows a pointer to no `struct list_head`. -/

set_option autoImplicit false

namespace Umtp
open LinkedRing

/-- The `struct list_head`s there are: heads of the library, and one in each object. -/
inductive ListHead (H N : Type) where
  | head (i : H)
  | entry (x : N)
  deriving DecidableEq

variable {α : Type} [DecidableEq α]

def storeNext (l : Links α) (p q : Option α) : Option (Links α) := p.map fun a => l.setNext a q

def storePrev (l : Links α) (p q : Option α) : Option (Links α) := p.map fun a => l.setPrev a q

def initListHead (l : Links α) (list : α) : Links α :=
  (l.setNext list (some list)).setPrev list (some list)

def __listAdd (l : Links α) (new prev next : Option α) : Option (Links α) := do
  let l ← storePrev l next new
  let l ← storeNext l new next
  let l ← storePrev l new prev
  storeNext l prev new

def listAdd (l : Links α) (new head : α) : Option (Links α) :=
  __listAdd l (some new) (some head) (l.next head)

def listAddTail (l : Links α) (new head : α) : Option (Links α) :=
  __listAdd l (some new) (l.prev head) (some head)

def listDel (l : Links α) (entry : α) : Option (Links α) := do
  let listNext := l.next entry
  let listPrev := l.prev entry
  let l ← storePrev l listNext listPrev
  storeNext l listPrev listNext

def listEmpty (l : Links α) (head : α) : Bool := l.next head == some head

/-- A loop over a list, if it comes back within `fuel` rounds. The body goes on with `inl`, and
breaks out of the loop with `inr`. -/
def listForEach {β γ : Type} (fuel : Nat) (l : Links α) (head : α) (body : β → α → Option (β ⊕ γ))
    (b : β) : Option (β ⊕ γ) :=
  (FuelLoop.run (eachStep l head body) fuel (l.next head, b)).join

theorem listAdd_some {l : Links α} {new head n : α} (hn : l.next head = some n) :
    listAdd l new head = some (l.link new head n) := by
  simp [listAdd, __listAdd, storeNext, storePrev, hn, Links.link]

theorem listAddTail_some {l : Links α} {new head p : α} (hp : l.prev head = some p) :
    listAddTail l new head = some (l.link new p head) := by
  simp [listAddTail, __listAdd, storeNext, storePrev, hp, Links.link]

theorem listDel_some {l : Links α} {entry n p : α} (hn : l.next entry = some n)
    (hp : l.prev entry = some p) : listDel l entry = some (l.join p n) := by
  simp [listDel, storeNext, storePrev, hn, hp, Links.join]

theorem listDel_pointers {l l' : Links α} {entry : α} (h : listDel l entry = some l') :
    ∃ n p, l.next entry = some n ∧ l.prev entry = some p := by
  cases hn : l.next entry with
  | none => simp [listDel, storePrev, hn] at h
  | some n =>
    cases hp : l.prev entry with
    | none => simp [listDel, storePrev, storeNext, hn, hp] at h
    | some p => exact ⟨n, p, rfl, rfl⟩

end Umtp
