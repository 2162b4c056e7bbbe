import Mathlib.Data.Finset.Card
import Mathlib.Data.Fintype.Card
import Mathlib.Logic.Function.Basic
import Mathlib.Tactic.Common

set_option autoImplicit false

namespace SlotMap

variable {ι κ ν : Type*}

/-- No key is in two slots, and the map has the values that are in the slots. -/
structure Stands (slots : ι → Option (κ × ν)) (m : κ → Option ν) : Prop where
  unique : ∀ i j k v v', slots i = some (k, v) → slots j = some (k, v') → i = j
  lookup : ∀ k v, m k = some v ↔ ∃ i, slots i = some (k, v)

variable {slots : ι → Option (κ × ν)} {m : κ → Option ν}

theorem Stands.at (h : Stands slots m) {i : ι} {k : κ} {v : ν} (hi : slots i = some (k, v)) :
    m k = some v := (h.lookup k v).mpr ⟨i, hi⟩

theorem Stands.none_iff (h : Stands slots m) (k : κ) :
    m k = none ↔ ∀ i v, slots i ≠ some (k, v) := by
  constructor
  · intro hk i v hi
    rw [h.at hi] at hk
    cases hk
  · intro hk
    cases hm : m k with
    | none => rfl
    | some v =>
      obtain ⟨i, hi⟩ := (h.lookup k v).mp hm
      exact absurd hi (hk i v)

theorem Stands.map_unique (h : Stands slots m) {m' : κ → Option ν} (h' : Stands slots m') :
    m = m' := by
  funext k
  apply Option.ext
  intro v
  rw [h.lookup, h'.lookup]

/-- What may be made of each value, or that it goes, is done slot by slot. -/
theorem Stands.bind (h : Stands slots m) (f : ν → Option ν) :
    Stands (fun i => (slots i).bind fun p => (f p.2).map (Prod.mk p.1))
      (fun k => (m k).bind f) := by
  have hslot : ∀ i k v, ((slots i).bind fun p => (f p.2).map (Prod.mk p.1)) = some (k, v) ↔
      ∃ u, slots i = some (k, u) ∧ f u = some v := by
    intro i k v
    constructor
    · intro hi
      obtain ⟨⟨k', u⟩, hu, hf⟩ := Option.bind_eq_some_iff.mp hi
      obtain ⟨v', hv', hpair⟩ := Option.map_eq_some_iff.mp hf
      cases hpair
      exact ⟨u, hu, hv'⟩
    · rintro ⟨u, hu, hv⟩
      simp [hu, hv]
  constructor
  · intro i j k v v' hi hj
    obtain ⟨u, hu, -⟩ := (hslot i k v).mp hi
    obtain ⟨u', hu', -⟩ := (hslot j k v').mp hj
    exact h.unique i j k u u' hu hu'
  · intro k v
    rw [Option.bind_eq_some_iff]
    constructor
    · rintro ⟨u, hu, hv⟩
      obtain ⟨i, hi⟩ := (h.lookup k u).mp hu
      exact ⟨i, (hslot i k v).mpr ⟨u, hi, hv⟩⟩
    · rintro ⟨i, hi⟩
      obtain ⟨u, hu, hv⟩ := (hslot i k v).mp hi
      exact ⟨u, h.at hu, hv⟩

section

variable [DecidableEq ι] [DecidableEq κ] {i : ι} {k : κ}

theorem Stands.insert (h : Stands slots m) (hi : slots i = none) (hk : m k = none) (v : ν) :
    Stands (Function.update slots i (some (k, v))) (Function.update m k (some v)) := by
  have hnew : ∀ j u, j ≠ i → slots j ≠ some (k, u) := fun j u _ => (h.none_iff k).mp hk j u
  constructor
  · intro a b k' u u' ha hb
    by_cases hai : a = i
    · by_cases hbi : b = i
      · rw [hai, hbi]
      · subst hai
        rw [Function.update_self, Option.some.injEq, Prod.mk.injEq] at ha
        rw [Function.update_of_ne hbi, ← ha.1] at hb
        exact absurd hb (hnew b u' hbi)
    · rw [Function.update_of_ne hai] at ha
      by_cases hbi : b = i
      · subst hbi
        rw [Function.update_self, Option.some.injEq, Prod.mk.injEq] at hb
        rw [← hb.1] at ha
        exact absurd ha (hnew a u hai)
      · rw [Function.update_of_ne hbi] at hb
        exact h.unique a b k' u u' ha hb
  · intro k' u
    by_cases hkk : k' = k
    · subst hkk
      rw [Function.update_self]
      constructor
      · rintro ⟨⟩
        exact ⟨i, Function.update_self i _ slots⟩
      · rintro ⟨a, ha⟩
        by_cases hai : a = i
        · subst hai
          rw [Function.update_self, Option.some.injEq, Prod.mk.injEq] at ha
          rw [ha.2]
        · rw [Function.update_of_ne hai] at ha
          exact absurd ha (hnew a u hai)
    · rw [Function.update_of_ne hkk, h.lookup]
      constructor
      · rintro ⟨a, ha⟩
        have hai : a ≠ i := by
          rintro rfl
          rw [hi] at ha
          cases ha
        exact ⟨a, (Function.update_of_ne hai _ _).trans ha⟩
      · rintro ⟨a, ha⟩
        by_cases hai : a = i
        · subst hai
          rw [Function.update_self, Option.some.injEq, Prod.mk.injEq] at ha
          exact absurd ha.1.symm hkk
        · rw [Function.update_of_ne hai] at ha
          exact ⟨a, ha⟩

theorem Stands.erase (h : Stands slots m) {u : ν} (hi : slots i = some (k, u)) :
    Stands (Function.update slots i none) (Function.update m k none) := by
  have hslot : ∀ a k' v, Function.update slots i none a = some (k', v) ↔
      a ≠ i ∧ slots a = some (k', v) := by
    intro a k' v
    by_cases hai : a = i
    · subst hai
      simp
    · simp [hai]
  constructor
  · intro a b k' v v' ha hb
    exact h.unique a b k' v v' ((hslot a k' v).mp ha).2 ((hslot b k' v').mp hb).2
  · intro k' v
    by_cases hkk : k' = k
    · subst hkk
      rw [Function.update_self]
      constructor
      · intro hv
        cases hv
      · rintro ⟨a, ha⟩
        obtain ⟨hai, ha⟩ := (hslot a k' v).mp ha
        exact absurd (h.unique a i k' v u ha hi) hai
    · rw [Function.update_of_ne hkk, h.lookup]
      constructor
      · rintro ⟨a, ha⟩
        have hai : a ≠ i := by
          rintro rfl
          rw [hi, Option.some.injEq, Prod.mk.injEq] at ha
          exact hkk ha.1.symm
        exact ⟨a, (hslot a k' v).mpr ⟨hai, ha⟩⟩
      · rintro ⟨a, ha⟩
        exact ⟨a, ((hslot a k' v).mp ha).2⟩

theorem Stands.assign (h : Stands slots m) {u : ν} (hi : slots i = some (k, u)) (v : ν) :
    Stands (Function.update slots i (some (k, v))) (Function.update m k (some v)) := by
  have hcleared := h.erase hi
  have hnew := hcleared.insert (Function.update_self i none slots)
    (Function.update_self k none m) v
  rwa [Function.update_idem, Function.update_idem] at hnew

end

/-- With no slot free, as many keys as there are slots are all in the map. -/
theorem Stands.full [Fintype ι] (h : Stands slots m) (keys : Finset κ)
    (hcard : keys.card = Fintype.card ι) (hkeys : ∀ i k v, slots i = some (k, v) → k ∈ keys)
    (hfull : ∀ i, slots i ≠ none) {k : κ} (hk : k ∈ keys) : m k ≠ none := by
  classical
  choose key value hslot using fun i => (by
    obtain ⟨p, hp⟩ := Option.ne_none_iff_exists'.mp (hfull i)
    exact ⟨p.1, p.2, hp⟩ : ∃ k v, slots i = some (k, v))
  have hinj : Function.Injective key := by
    intro i j hij
    exact h.unique i j (key i) (value i) (value j) (hslot i) (hij ▸ hslot j)
  have himage : Finset.univ.image key = keys := by
    apply Finset.eq_of_subset_of_card_le
    · intro k' hk'
      obtain ⟨i, -, rfl⟩ := Finset.mem_image.mp hk'
      exact hkeys i _ _ (hslot i)
    · rw [Finset.card_image_of_injective _ hinj, Finset.card_univ, hcard]
  rw [← himage] at hk
  obtain ⟨i, -, rfl⟩ := Finset.mem_image.mp hk
  rw [h.at (hslot i)]
  exact Option.some_ne_none _

end SlotMap
