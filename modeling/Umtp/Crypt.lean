import Umtp.DlUdp
import Umtp.Kit.SealedText

/-! `crypt.c`, and the two hooks of `dl_udp.c` over it. A frame is the initial vector, the tag
and the sealed message. -/

set_option autoImplicit false

namespace Umtp
open CheckedBuffer StateExcept SealedText

abbrev keySize : Nat := 32
abbrev ivSize : Nat := 16
abbrev tagSize : Nat := 16

/-- OpenSSL, with AES-256-GCM. Nothing is known of what it does for a length below 0. -/
structure Evp where
  aes256Gcm : Cipher (Buf UInt8 keySize) (Buf UInt8 ivSize) (Buf UInt8 tagSize) UInt8
  /-- What `EVP_DecryptUpdate` stores, before the tag is compared. -/
  update : Buf UInt8 keySize → Buf UInt8 ivSize → List UInt8 → List UInt8
  length_update : ∀ key iv text, (update key iv text).length = text.length
  negative : Int → Int × List UInt8

/-- Which of the calls in `encrypt` or `decrypt` succeed, in their order. -/
structure EvpCalls where
  ctxNew : Bool
  initCipher : Bool
  setIvlen : Bool
  initKey : Bool
  update : Bool
  final : Bool
  tag : Bool
  deriving DecidableEq

def EvpCalls.ready (calls : EvpCalls) : Bool :=
  calls.ctxNew && calls.initCipher && calls.setIvlen && calls.initKey

def EvpCalls.all : EvpCalls := ⟨true, true, true, true, true, true, true⟩

/-- The result, what is stored in `out`, and the tag, if it is stored. -/
def encrypt (evp : Evp) (calls : EvpCalls) (input : List UInt8) (key : Buf UInt8 keySize)
    (iv : Buf UInt8 ivSize) : Int × List UInt8 × Option (Buf UInt8 tagSize) :=
  if !calls.ready || !calls.update then (0, [], none)
  else
    let (out, tag) := evp.aes256Gcm.encrypt key iv input
    if !calls.final || !calls.tag then (0, out, none)
    else (out.length, out, some tag)

variable {τ : Type}

def readBytes (src : Ptr) (len : Nat) : EStateM Stop τ (List UInt8) :=
  if src.off + len ≤ src.obj.length then pure (src.bytes.take len)
  else throw (.overread src.store (max src.obj.length src.off))

/-- What comes of a sealed text: the result of `decrypt`, and what is stored in `out`. -/
def decryptText (evp : Evp) (calls : EvpCalls) (text : List UInt8) (tag : Buf UInt8 tagSize)
    (key : Buf UInt8 keySize) (iv : Buf UInt8 ivSize) : Int × List UInt8 :=
  if !calls.update then (0, [])
  else if !calls.tag then (0, evp.update key iv text)
  else if !calls.final then (-1, evp.update key iv text)
  else
    match evp.aes256Gcm.decrypt key iv text tag with
    | some out => (out.length, out)
    | none => (-1, evp.update key iv text)

def decrypt (evp : Evp) (calls : EvpCalls) (input : Ptr) (inLen : Int) (tag : Buf UInt8 tagSize)
    (key : Buf UInt8 keySize) (iv : Buf UInt8 ivSize) : EStateM Stop τ (Int × List UInt8) := do
  if !calls.ready then
    return (0, [])
  if inLen < 0 then
    return evp.negative inLen
  let text ← readBytes input inLen.toNat
  return decryptText evp calls text tag key iv

/-- `iv` is what `RAND_bytes` gives, and `stale` what is on the stack in the place of `tag`. -/
def dludpEncrypt (evp : Evp) (calls : EvpCalls) (key : Buf UInt8 keySize) (iv : Buf UInt8 ivSize)
    (stale : Buf UInt8 tagSize) (input : List UInt8) : Int × List UInt8 :=
  let (len, out, tag) := encrypt evp calls input key iv
  let output := iv.cells ++ (tag.getD stale).cells ++ out
  if len > 0 then (len + ivSize + tagSize, output) else (len, output)

structure DecryptArgs where
  input : Ptr
  inLen : Int
  tag : Buf UInt8 tagSize
  iv : Buf UInt8 ivSize

def dludpDecryptArgs (input : Ptr) (inputLen : Int) : EStateM Stop τ DecryptArgs := do
  let iv ← memcpy .application (Buf.fill ivSize 0) 0 input ivSize
  let inputLen := inputLen - ivSize
  let tag ← memcpy .application (Buf.fill tagSize 0) 0 (input.add ivSize) tagSize
  let inputLen := inputLen - tagSize
  return ⟨input.add (ivSize + tagSize), inputLen, tag, iv⟩

def dludpDecrypt (evp : Evp) (calls : EvpCalls) (key : Buf UInt8 keySize) (input : Ptr)
    (inputLen : Int) : EStateM Stop τ (Int × List UInt8) := do
  let args ← dludpDecryptArgs input inputLen
  decrypt evp calls args.input args.inLen args.tag key args.iv

def receivedPdu (bytes : List UInt8) : List UInt8 :=
  bytes ++ List.replicate (maxPdu - bytes.length) 0

/-- `dludp_decrypt` as `dludp_recv_data` calls it, with what has been received after the
signature. -/
def dludpDecryptHook (evp : Evp) (calls : EvpCalls) (key : Buf UInt8 keySize)
    (received : List UInt8) : Int × List UInt8 :=
  match (dludpDecrypt evp calls key ⟨.dludpPdu, receivedPdu (umtpSignature :: received), 1⟩
    received.length).run () with
  | .ok r _ => r
  | .error _ _ => (0, [])

def Dludp.crypted (dl : Dludp) (evp : Evp) (calls : EvpCalls) (key : Buf UInt8 keySize)
    (iv : Buf UInt8 ivSize) (stale : Buf UInt8 tagSize) : Dludp :=
  { dl with
    encrypt := some (dludpEncrypt evp calls key iv stale)
    decrypt := some (dludpDecryptHook evp calls key) }

theorem memcpy_field {n : Nat} (hn : 0 < n) {store : Store} {src : Ptr} {b : Buf UInt8 n}
    {rest : List UInt8} (h : src.bytes = b.cells ++ rest) (s : τ) :
    (memcpy store (Buf.fill n 0) 0 src n).run s = .ok b s := by
  have hlen := congrArg List.length h
  simp only [Ptr.bytes, List.length_drop, List.length_append, Buf.length_cells] at hlen
  apply memcpy_run
  · omega
  · rw [h, List.take_left' b.size]
    simp [Buf.write, Buf.fill]

theorem exists_fields {xs : List UInt8} (h : ivSize + tagSize ≤ xs.length) :
    ∃ (iv : Buf UInt8 ivSize) (tag : Buf UInt8 tagSize) (text : List UInt8),
      xs = iv.cells ++ tag.cells ++ text := by
  refine ⟨⟨xs.take ivSize, by simp; omega⟩, ⟨(xs.drop ivSize).take tagSize, by simp; omega⟩,
    xs.drop (ivSize + tagSize), ?_⟩
  rw [← List.drop_drop, List.append_assoc, List.take_append_drop, List.take_append_drop]

section

variable (evp : Evp) (calls : EvpCalls) (key : Buf UInt8 keySize) {iv : Buf UInt8 ivSize}
  {tag : Buf UInt8 tagSize}

theorem dludpDecryptArgs_run {input : Ptr} {rest : List UInt8}
    (h : input.bytes = iv.cells ++ tag.cells ++ rest) (inputLen : Int) (s : τ) :
    (dludpDecryptArgs input inputLen).run s =
      .ok ⟨input.add (ivSize + tagSize), inputLen - ivSize - tagSize, tag, iv⟩ s := by
  have hiv : input.bytes = iv.cells ++ (tag.cells ++ rest) := by rw [h, List.append_assoc]
  have htag : (input.add ivSize).bytes = tag.cells ++ rest := by
    rw [Ptr.add_bytes, hiv, List.drop_left' iv.size]
  simp [dludpDecryptArgs, memcpy_field (by decide) hiv, memcpy_field (by decide) htag]

theorem dludpDecrypt_run {input : Ptr} {text more : List UInt8}
    (h : input.bytes = iv.cells ++ tag.cells ++ (text ++ more)) (s : τ) :
    (dludpDecrypt evp calls key input (ivSize + tagSize + text.length : Nat)).run s =
      .ok (if calls.ready then decryptText evp calls text tag key iv else (0, [])) s := by
  have hrest : (input.add (ivSize + tagSize)).bytes = text ++ more := by
    rw [Ptr.add_bytes, h, List.drop_left' (by simp)]
  have hlen := congrArg List.length h
  have htags : tagSize = 16 := rfl
  simp only [Ptr.bytes, List.length_drop, List.length_append, Buf.length_cells] at hlen
  have hread : (readBytes (input.add (ivSize + tagSize)) text.length).run s = .ok text s := by
    unfold readBytes
    rw [if_pos (by simp; omega), hrest, List.take_left]
    rfl
  have hin : ((ivSize + tagSize + text.length : Nat) : Int) - ivSize - tagSize = text.length := by
    omega
  unfold dludpDecrypt decrypt
  rw [EStateM.run_bind, dludpDecryptArgs_run h, hin]
  cases calls.ready with
  | false => rfl
  | true =>
    have hneg : ¬ (text.length : Int) < 0 := by omega
    simp [hread, hneg]

theorem decrypt_ok {input : Ptr} {inLen : Int} (h : input.off + inLen.toNat ≤ input.obj.length) :
    ∃ r, ∀ (υ : Type) (s : υ), (decrypt evp calls input inLen tag key iv).run s = .ok r s := by
  by_cases hready : calls.ready = true
  · by_cases hneg : inLen < 0
    · exact ⟨evp.negative inLen, fun υ s => by simp [decrypt, hready, hneg]⟩
    · exact ⟨decryptText evp calls (input.bytes.take inLen.toNat) tag key iv,
        fun υ s => by simp [decrypt, readBytes, hready, hneg, h]⟩
  · exact ⟨(0, []), fun υ s => by simp [decrypt, hready]⟩

theorem dludpDecrypt_ok {input : Ptr} (hroom : ivSize + tagSize ≤ input.bytes.length)
    {inputLen : Int} (hlen : inputLen ≤ input.bytes.length) :
    ∃ r, ∀ (υ : Type) (s : υ), (dludpDecrypt evp calls key input inputLen).run s = .ok r s := by
  obtain ⟨iv, tag, rest, hfields⟩ := exists_fields hroom
  have hsizes : ivSize + tagSize = 32 := rfl
  rw [Ptr.bytes, List.length_drop] at hroom hlen
  have hread : (input.add (ivSize + tagSize)).off + (inputLen - ivSize - tagSize).toNat ≤
      (input.add (ivSize + tagSize)).obj.length := by
    rw [Ptr.add_off, Ptr.add_obj]
    omega
  obtain ⟨r, hr⟩ := decrypt_ok evp calls key hread
  refine ⟨r, fun υ s => ?_⟩
  rw [dludpDecrypt, EStateM.run_bind, dludpDecryptArgs_run hfields]
  exact hr υ s

theorem dludpDecryptHook_run {text : List UInt8} :
    dludpDecryptHook evp calls key (iv.cells ++ tag.cells ++ text) =
      if calls.ready then decryptText evp calls text tag key iv else (0, []) := by
  have hlen : (iv.cells ++ tag.cells ++ text).length = ivSize + tagSize + text.length := by
    simp [Nat.add_assoc]
  have hbytes : (Ptr.mk .dludpPdu
      (receivedPdu (umtpSignature :: (iv.cells ++ tag.cells ++ text))) 1).bytes =
      iv.cells ++ tag.cells ++ (text ++ List.replicate
        (maxPdu - (umtpSignature :: (iv.cells ++ tag.cells ++ text)).length) 0) := by
    simp [Ptr.bytes, receivedPdu]
  unfold dludpDecryptHook
  rw [hlen, dludpDecrypt_run evp calls key hbytes]

theorem decryptText_length (text : List UInt8) :
    (decryptText evp calls text tag key iv).2.length ≤ text.length := by
  unfold decryptText
  split
  · simp
  · split
    · simp [evp.length_update]
    · split
      · simp [evp.length_update]
      · cases hopen : evp.aes256Gcm.decrypt key iv text tag with
        | none => simp [evp.length_update]
        | some out => simp [evp.aes256Gcm.length_decrypt hopen]

/-- A message comes out only if no call fails, and only of what it has been sealed into. -/
theorem decryptText_pos {text : List UInt8} (hready : calls.ready = true)
    (h : 0 < (decryptText evp calls text tag key iv).1) :
    calls = .all ∧ ∃ out, out ≠ [] ∧ evp.aes256Gcm.encrypt key iv out = (text, tag) := by
  obtain ⟨ctxNew, initCipher, setIvlen, initKey, update, final, tagged⟩ := calls
  unfold decryptText at h
  cases update with
  | false => simp at h
  | true =>
    cases tagged with
    | false => simp at h
    | true =>
      cases final with
      | false => simp at h
      | true =>
        refine ⟨?_, ?_⟩
        · simpa [EvpCalls.ready, EvpCalls.all, and_assoc] using hready
        · cases hopen : evp.aes256Gcm.decrypt key iv text tag with
          | none => simp [hopen] at h
          | some out =>
            refine ⟨out, ?_, evp.aes256Gcm.decrypt_eq_some.mp hopen⟩
            rintro rfl
            simp [hopen] at h

def sealedFrame (iv : Buf UInt8 ivSize) (input : List UInt8) : List UInt8 :=
  iv.cells ++ (evp.aes256Gcm.encrypt key iv input).2.cells ++
    (evp.aes256Gcm.encrypt key iv input).1

variable (iv)

theorem sealedFrame_length (input : List UInt8) :
    (sealedFrame evp key iv input).length = ivSize + tagSize + input.length := by
  simp [sealedFrame, evp.aes256Gcm.length_encrypt, Nat.add_assoc]

theorem dludpEncrypt_run (stale : Buf UInt8 tagSize) {input : List UInt8} (hne : input ≠ []) :
    dludpEncrypt evp .all key iv stale input =
      (((sealedFrame evp key iv input).length : Int), sealedFrame evp key iv input) := by
  have hpos : 0 < input.length := List.length_pos_iff.mpr hne
  rw [sealedFrame_length]
  simp [dludpEncrypt, encrypt, EvpCalls.ready, EvpCalls.all, evp.aes256Gcm.length_encrypt, hpos,
    sealedFrame]
  omega

theorem dludpEncrypt_pos {stale : Buf UInt8 tagSize} {input : List UInt8}
    (h : 0 < (dludpEncrypt evp calls key iv stale input).1) :
    input ≠ [] ∧
      (dludpEncrypt evp calls key iv stale input).2 = sealedFrame evp key iv input := by
  unfold dludpEncrypt encrypt at h ⊢
  by_cases hready : (!calls.ready || !calls.update) = true
  · simp [hready] at h
  · by_cases hfinal : (!calls.final || !calls.tag) = true
    · simp [hready, hfinal] at h
    · simp only [hready, hfinal, Bool.false_eq_true, if_false, Option.getD_some,
        evp.aes256Gcm.length_encrypt] at h ⊢
      by_cases hne : input = []
      · simp [hne] at h
      · have hpos : (input.length : Int) > 0 := by
          have := List.length_pos_iff.mpr hne
          omega
        rw [if_pos hpos]
        exact ⟨hne, rfl⟩

theorem dludpDecryptHook_frame (input : List UInt8) :
    dludpDecryptHook evp .all key (sealedFrame evp key iv input) =
      ((input.length : Int), input) := by
  rw [sealedFrame, dludpDecryptHook_run]
  simp [EvpCalls.ready, EvpCalls.all, decryptText]

end

end Umtp
