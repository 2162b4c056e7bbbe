import Mathlib.Data.List.Basic
import Mathlib.Tactic.Common

/-! Authenticated ciphers: a sealed text of the same length and a tag, which together are
opened if and only if they have been sealed with the same key and initial vector. -/

set_option autoImplicit false

namespace SealedText

variable {Key Iv Tag α : Type*}

structure Cipher (Key Iv Tag α : Type*) where
  encrypt : Key → Iv → List α → List α × Tag
  decrypt : Key → Iv → List α → Tag → Option (List α)
  length_encrypt : ∀ key iv text, (encrypt key iv text).1.length = text.length
  decrypt_eq_some : ∀ {key iv sealed tag text},
    decrypt key iv sealed tag = some text ↔ encrypt key iv text = (sealed, tag)

namespace Cipher

variable (c : Cipher Key Iv Tag α) {key : Key} {iv : Iv} {sealed text : List α} {tag : Tag}

@[simp] theorem decrypt_encrypt :
    c.decrypt key iv (c.encrypt key iv text).1 (c.encrypt key iv text).2 = some text :=
  c.decrypt_eq_some.mpr rfl

theorem length_decrypt (h : c.decrypt key iv sealed tag = some text) :
    text.length = sealed.length := by
  have hlen := c.length_encrypt key iv text
  rw [c.decrypt_eq_some.mp h] at hlen
  exact hlen.symm

end Cipher

/-- A cipher that undoes itself, with a code of what it gives. -/
def Cipher.encryptThenMac [DecidableEq Tag] (mask : Key → Iv → List α → List α)
    (mac : Key → Iv → List α → Tag)
    (hlength : ∀ key iv text, (mask key iv text).length = text.length)
    (hmask : ∀ key iv, Function.Involutive (mask key iv)) : Cipher Key Iv Tag α where
  encrypt key iv text := (mask key iv text, mac key iv (mask key iv text))
  decrypt key iv sealed tag := if mac key iv sealed = tag then some (mask key iv sealed) else none
  length_encrypt := hlength
  decrypt_eq_some := by
    intro key iv sealed tag text
    rw [Option.ite_none_right_eq_some, Option.some.injEq, Prod.mk.injEq]
    constructor
    · rintro ⟨rfl, rfl⟩
      rw [hmask key iv sealed]
      exact ⟨rfl, rfl⟩
    · rintro ⟨rfl, rfl⟩
      exact ⟨rfl, hmask key iv text⟩

end SealedText
