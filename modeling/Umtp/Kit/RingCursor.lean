import Umtp.Kit.LinkedRing

/-! Loops over a circular list whose body may change the links on the way. -/

set_option autoImplicit false

namespace LinkedRing
open FuelLoop

variable {α β γ G C : Type*}

def Links.flip (l : Links α) : Links α := ⟨l.prev, l.next⟩

theorem Links.Ring.flip {l : Links α} {h : α} {xs : List α} (hr : l.Ring h xs) :
    l.flip.Ring h xs.reverse := by
  refine ⟨?_, ?_⟩
  · obtain ⟨hh, hxs⟩ := List.nodup_cons.mp hr.nodup
    exact List.nodup_cons.mpr ⟨by rwa [List.mem_reverse], List.nodup_reverse.mpr hxs⟩
  · have hround : h :: (xs.reverse ++ [h]) = (h :: (xs ++ [h])).reverse := by simp
    rw [hround, List.isChain_reverse]
    exact hr.linked.imp fun _ _ hab => ⟨hab.2, hab.1⟩

theorem Links.Ring.next_ne {l : Links α} {h x y : α} {xs rest : List α} (hr : l.Ring h xs)
    (hrest : x :: rest <:+ xs) (hy : y ∈ x :: rest) : l.next y ≠ some x := by
  obtain ⟨before, rfl⟩ := hrest
  have hpath : l.Path x rest h := hr.path.suffix ⟨h :: before, by simp⟩
  obtain ⟨z, hz, hyz⟩ := hpath.succ hy
  rw [hyz]
  intro hzx
  cases hzx
  have hnodup := hr.nodup
  simp only [List.nodup_cons, List.nodup_append, List.mem_append, List.mem_cons] at hnodup hz
  rcases hz with hz | rfl | hz
  · exact hnodup.2.2.1.1 hz
  · exact hnodup.1 (.inr (.inl rfl))
  · cases hz

def foldBreak (step : G → α → G ⊕ C) : G → List α → G ⊕ C
  | g, [] => .inl g
  | g, a :: as =>
    match step g a with
    | .inl g' => foldBreak step g' as
    | .inr c => .inr c

section

variable [DecidableEq α] (follow : Links α → α → Option α) (h : α)
  (body : Links α × β → α → Option ((Links α × β) ⊕ γ))

/-- One round of a loop that goes on from the node it is at, by the links that the body has left
there. -/
def cursorStep : (Links α × β) × Option α →
    ((Links α × β) × Option α) ⊕ Option ((Links α × β) ⊕ γ)
  | (_, none) => .inr none
  | (s, some a) =>
    if a = h then .inr (some (.inl s))
    else
      match body s a with
      | none => .inr none
      | some (.inl s') => .inl (s', follow s'.1 a)
      | some (.inr c) => .inr (some (.inr c))

/-- One round of a loop that knows the node to go on with before the body is run. -/
def safeStep : (Links α × β) × Option α × Option α →
    ((Links α × β) × Option α × Option α) ⊕ Option ((Links α × β) ⊕ γ)
  | (_, none, _) => .inr none
  | (s, some a, n) =>
    if a = h then .inr (some (.inl s))
    else
      match body s a with
      | none => .inr none
      | some (.inl s') => .inl (s', n, n.bind (follow s'.1))
      | some (.inr c) => .inr (some (.inr c))

/-- The nodes that `follow` goes through before it comes to `h`. -/
def Follows (l : Links α) (xs : List α) : Prop :=
  (xs ++ [h]).IsChain fun x y => follow l x = some y

end

section

variable {follow : Links α → α → Option α} {h : α} {l l' : Links α}

theorem Follows.tail {x : α} {xs : List α} (hp : Follows follow h l (x :: xs)) :
    Follows follow h l xs := List.IsChain.tail hp

theorem Follows.congr {xs : List α} (hp : Follows follow h l xs)
    (hsame : ∀ y ∈ xs, follow l' y = follow l y) : Follows follow h l' xs := by
  induction xs with
  | nil => exact List.isChain_singleton h
  | cons x xs ih =>
    have htail := ih hp.tail fun y hy => hsame y (List.mem_cons_of_mem x hy)
    cases xs with
    | nil =>
      have hx := (List.isChain_cons_cons.mp hp).1
      exact List.isChain_cons_cons.mpr ⟨(hsame x List.mem_cons_self).trans hx, htail⟩
    | cons y ys =>
      have hx := (List.isChain_cons_cons.mp hp).1
      exact List.isChain_cons_cons.mpr ⟨(hsame x List.mem_cons_self).trans hx, htail⟩

theorem Follows.head {x : α} {xs : List α} (hp : Follows follow h l (x :: xs)) :
    follow l x = (xs ++ [h]).head? := by
  cases xs with
  | nil => exact (List.isChain_cons_cons.mp hp).1
  | cons y ys => exact (List.isChain_cons_cons.mp hp).1

end

/-! A loop over the links simulates a fold over the nodes. `R rest g s` relates the two while
the nodes of `rest` are still to come, and `Q` when the body has broken off. -/

section

variable [DecidableEq α] {follow : Links α → α → Option α} {h : α}
  {body : Links α × β → α → Option ((Links α × β) ⊕ γ)} {step : G → α → G ⊕ C}
  {R : List α → G → Links α × β → Prop} {Q : C → γ → Prop} {xs : List α} {g : G} {s : Links α × β}

/-- The body may do what it likes to the links of the nodes that have been passed. -/
theorem safe_simulates
    (hgo : ∀ x rest g s g', R (x :: rest) g s → step g x = .inl g' →
      ∃ s', body s x = some (.inl s') ∧ R rest g' s' ∧ ∀ y ∈ rest, follow s'.1 y = follow s.1 y)
    (hbreak : ∀ x rest g s c, R (x :: rest) g s → step g x = .inr c →
      ∃ d, body s x = some (.inr d) ∧ Q c d)
    (hR : R xs g s) (hp : Follows follow h s.1 xs) (hh : h ∉ xs) :
    ∃ r, run (safeStep follow h body) (xs.length + 1)
        (s, (xs ++ [h]).head?, (xs ++ [h]).head?.bind (follow s.1)) = some (some r) ∧
      Sum.LiftRel (R []) Q (foldBreak step g xs) r := by
  induction xs generalizing g s with
  | nil =>
    refine ⟨.inl s, ?_, .inl hR⟩
    simp [run, safeStep]
  | cons x xs ih =>
    simp only [List.mem_cons, not_or] at hh
    obtain ⟨hx, hh⟩ := hh
    have hxh : x ≠ h := fun he => hx he.symm
    rw [foldBreak]
    cases hstep : step g x with
    | inr c =>
      obtain ⟨d, hbody, hQ⟩ := hbreak x xs g s c hR hstep
      refine ⟨.inr d, run_leave ?_ _, .inr hQ⟩
      simp [safeStep, hxh, hbody]
    | inl g' =>
      obtain ⟨s', hbody, hR', hsame⟩ := hgo x xs g s g' hR hstep
      obtain ⟨r, hr, hrel⟩ := ih hR' (hp.tail.congr hsame) hh
      refine ⟨r, ?_, hrel⟩
      have hnext : follow s.1 x = (xs ++ [h]).head? := hp.head
      have hround : safeStep follow h body (s, (x :: xs ++ [h]).head?,
          (x :: xs ++ [h]).head?.bind (follow s.1)) =
          .inl (s', (xs ++ [h]).head?, (xs ++ [h]).head?.bind (follow s'.1)) := by
        simp only [List.cons_append, List.head?_cons, Option.bind_some, hnext, safeStep, if_neg hxh,
          hbody]
      rw [List.length_cons, run_again hround]
      exact hr

/-- Here it must also leave alone the link at the node it is at. -/
theorem cursor_simulates
    (hgo : ∀ x rest g s g', R (x :: rest) g s → step g x = .inl g' →
      ∃ s', body s x = some (.inl s') ∧ R rest g' s' ∧
        ∀ y ∈ x :: rest, follow s'.1 y = follow s.1 y)
    (hbreak : ∀ x rest g s c, R (x :: rest) g s → step g x = .inr c →
      ∃ d, body s x = some (.inr d) ∧ Q c d)
    (hR : R xs g s) (hp : Follows follow h s.1 xs) (hh : h ∉ xs) :
    ∃ r, run (cursorStep follow h body) (xs.length + 1) (s, (xs ++ [h]).head?) = some (some r) ∧
      Sum.LiftRel (R []) Q (foldBreak step g xs) r := by
  induction xs generalizing g s with
  | nil =>
    refine ⟨.inl s, ?_, .inl hR⟩
    simp [run, cursorStep]
  | cons x xs ih =>
    simp only [List.mem_cons, not_or] at hh
    obtain ⟨hx, hh⟩ := hh
    have hxh : x ≠ h := fun he => hx he.symm
    rw [foldBreak]
    cases hstep : step g x with
    | inr c =>
      obtain ⟨d, hbody, hQ⟩ := hbreak x xs g s c hR hstep
      refine ⟨.inr d, run_leave ?_ _, .inr hQ⟩
      simp [cursorStep, hxh, hbody]
    | inl g' =>
      obtain ⟨s', hbody, hR', hsame⟩ := hgo x xs g s g' hR hstep
      obtain ⟨r, hr, hrel⟩ :=
        ih hR' (hp.tail.congr fun y hy => hsame y (List.mem_cons_of_mem x hy)) hh
      refine ⟨r, ?_, hrel⟩
      have hnext : follow s'.1 x = (xs ++ [h]).head? :=
        (hsame x List.mem_cons_self).trans hp.head
      have hround : cursorStep follow h body (s, (x :: xs ++ [h]).head?) =
          .inl (s', (xs ++ [h]).head?) := by
        simp only [List.cons_append, List.head?_cons, cursorStep, if_neg hxh, hbody, hnext]
      rw [List.length_cons, run_again hround]
      exact hr

end

end LinkedRing
