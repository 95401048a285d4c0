import Doppelganger.Lib.Base64
import Doppelganger.Lib.Utf8

/-!
# Encrypted messages

`encrypt` and `decrypt` of `crypto.js`. A message is encoded as UTF-8, encrypted with AES-GCM under
the shared key, and sent as base64 with its initialization vector. AES-GCM is not part of the
repository; what is assumed of it is `AesGcm.Inverts`.

Each codec undoes its partner but one: `TextDecoder` takes a U+FEFF in front of a message for a byte
order mark.
-/

open Text

namespace Doppelganger

/-- `crypto.subtle.encrypt` and `crypto.subtle.decrypt` with the name AES-GCM, on a key, an
initialization vector and data; `none` where the promise is rejected. -/
structure AesGcm (SharedKey : Type) where
  encrypt : SharedKey → List UInt8 → List UInt8 → List UInt8
  decrypt : SharedKey → List UInt8 → List UInt8 → Option (List UInt8)

/-- Decryption inverts encryption under the same key and vector. -/
def AesGcm.Inverts {SharedKey : Type} (aes : AesGcm SharedKey) (sharedKey : SharedKey)
    (iv : List UInt8) : Prop :=
  ∀ data, aes.decrypt sharedKey iv (aes.encrypt sharedKey iv data) = some data

namespace Messages

/-- `_toBase64(uint8Array)`. -/
def toBase64 (bytes : List UInt8) : Option Str := Base64.btoa (bytes.map UInt8.toUInt16)

/-- `_fromBase64(b64)`; a byte string is iterated unit by unit. -/
def fromBase64 (b64 : Str) : Option (List UInt8) :=
  (Base64.atob b64).map fun s => s.map UInt16.toUInt8

structure Encrypted where
  iv : Str
  ciphertext : Str
deriving DecidableEq

variable {SharedKey : Type} (aes : AesGcm SharedKey) (sharedKey : SharedKey)

/-- `encrypt(sharedKey, plaintext)`, where `iv` is drawn. -/
def encrypt (iv : List UInt8) (plaintext : Str) : Option Encrypted := do
  let encrypted := aes.encrypt sharedKey iv (Utf8.encode plaintext)
  return ⟨← toBase64 iv, ← toBase64 encrypted⟩

/-- `decrypt(sharedKey, iv_b64, ciphertext_b64)`. -/
def decrypt (iv_b64 ciphertext_b64 : Str) : Option Str := do
  let iv ← fromBase64 iv_b64
  let ciphertext ← fromBase64 ciphertext_b64
  let decrypted ← aes.decrypt sharedKey iv ciphertext
  return Utf8.decode decrypted

/-- `_fromBase64` undoes `_toBase64`, which never throws. -/
theorem fromBase64_toBase64 (bytes : List UInt8) : (toBase64 bytes).bind fromBase64 = some bytes := by
  have hback : (bytes.map UInt8.toUInt16).map UInt16.toUInt8 = bytes := by
    simp [List.map_map, Function.comp_def]
  rcases Option.bind_eq_some_iff.mp (Base64.atob_btoa bytes) with ⟨b64, hto, hfrom⟩
  rw [toBase64, hto, Option.bind_some, fromBase64, hfrom, Option.map_some, hback]

variable {aes sharedKey}

/-- What arrives is what the two text codecs make of the plaintext. -/
theorem decrypt_encrypt {iv : List UInt8} (haes : aes.Inverts sharedKey iv) (plaintext : Str) :
    ∃ e, encrypt aes sharedKey iv plaintext = some e ∧
      decrypt aes sharedKey e.iv e.ciphertext = some (Utf8.decode (Utf8.encode plaintext)) := by
  rcases Option.bind_eq_some_iff.mp (fromBase64_toBase64 iv) with ⟨iv_b64, hiv, hiv'⟩
  obtain ⟨ciphertext_b64, hct, hct'⟩ := Option.bind_eq_some_iff.mp
    (fromBase64_toBase64 (aes.encrypt sharedKey iv (Utf8.encode plaintext)))
  refine ⟨⟨iv_b64, ciphertext_b64⟩, ?_, ?_⟩
  · simp [encrypt, hiv, hct]
  · simp [decrypt, hiv', hct', haes _]

end Messages

open Messages

/-- Every byte array comes back from base64, and a well-formed message comes back from encryption
exactly when it does not start with U+FEFF, whatever vector was drawn. -/
theorem message_round_trips_iff {SharedKey : Type} (aes : AesGcm SharedKey) (sharedKey : SharedKey)
    (iv : List UInt8) (haes : aes.Inverts sharedKey iv) (p : Str) (hp : wellFormed p = true) :
    (∀ bytes, (toBase64 bytes).bind fromBase64 = some bytes) ∧
    ((∃ e, encrypt aes sharedKey iv p = some e ∧
        decrypt aes sharedKey e.iv e.ciphertext = some p) ↔ p.head? ≠ some 0xFEFF) := by
  refine ⟨fromBase64_toBase64, ?_⟩
  rcases decrypt_encrypt haes p with ⟨e, he, hdecrypt⟩
  rw [← Utf8.decode_encode_iff hp]
  constructor
  · rintro ⟨e', he', hround⟩
    obtain rfl := Option.some.inj (he.symm.trans he')
    exact Option.some.inj (hdecrypt.symm.trans hround)
  · intro hround
    exact ⟨e, he, by rw [hdecrypt, hround]⟩

namespace Sample

/-- The first block that AES-256 in counter mode yields under the zero key and the zero vector. -/
def keyStream : List UInt8 :=
  [0xCE, 0xA7, 0x40, 0x3D, 0x4D, 0x60, 0x6B, 0x6E, 0x07, 0x4E, 0xC5, 0xD3, 0xBA, 0xF3, 0x9D, 0x18]

/-- The tags of the two messages below. -/
def tag (ciphertext : List UInt8) : List UInt8 :=
  if ciphertext = [0xA6, 0xCE] then
    [0xAD, 0x14, 0x5C, 0xEF, 0x3E, 0x9E, 0xEB, 0x28, 0xF8, 0xDA, 0x02, 0x39, 0xAE, 0xF5, 0x38, 0xE5]
  else if ciphertext = [0x21, 0x1C, 0xFF, 0x55, 0x24] then
    [0xE0, 0x8A, 0xBD, 0x9D, 0x19, 0x76, 0xE1, 0x89, 0x18, 0xC9, 0xD5, 0xCB, 0x56, 0x6A, 0xCA, 0x28]
  else List.replicate 16 0

def xorStream : List UInt8 → List UInt8 → List UInt8
  | b :: bs, k :: ks => (b ^^^ k) :: xorStream bs ks
  | bs, _ => bs

/-- AES-256-GCM under the zero key and the zero vector, as far as the two messages need it. -/
def aesGcm : AesGcm Unit where
  encrypt := fun _ _ data => xorStream data keyStream ++ tag (xorStream data keyStream)
  decrypt := fun _ _ ciphertext =>
    let body := ciphertext.take (ciphertext.length - 16)
    if ciphertext.drop (ciphertext.length - 16) = tag body then some (xorStream body keyStream)
    else none

def zeroIv : List UInt8 := List.replicate 12 0

theorem xorStream_xorStream (bs ks : List UInt8) : xorStream (xorStream bs ks) ks = bs := by
  induction bs generalizing ks with
  | nil => cases ks <;> rfl
  | cons b bs ih =>
    cases ks with
    | nil => rfl
    | cons k ks => rw [xorStream, xorStream, ih, UInt8.xor_assoc, UInt8.xor_self, UInt8.xor_zero]

theorem aesGcm_inverts (iv : List UInt8) : aesGcm.Inverts () iv := by
  intro data
  have htag : ∀ body, (tag body).length = 16 := by
    intro body
    unfold tag
    split_ifs <;> rfl
  simp [aesGcm, htag, xorStream_xorStream]

end Sample

theorem message_round_trips_sample :
    wellFormed (lit "hi") = true ∧
    ∃ e, encrypt Sample.aesGcm () Sample.zeroIv (lit "hi") = some e ∧
      decrypt Sample.aesGcm () e.iv e.ciphertext = some (lit "hi") := by
  refine ⟨by decide, ?_⟩
  exact ((message_round_trips_iff Sample.aesGcm () Sample.zeroIv (Sample.aesGcm_inverts _)
    (lit "hi") (by decide)).2).mpr (by decide)

/-- A message that starts with U+FEFF arrives without it. -/
theorem message_loses_mark :
    let p := 0xFEFF :: lit "hi"
    wellFormed p = true ∧ Sample.aesGcm.Inverts () Sample.zeroIv ∧
    encrypt Sample.aesGcm () Sample.zeroIv p =
      some ⟨lit "AAAAAAAAAAAAAAAA", lit "IRz/VSTgir2dGXbhiRjJ1ctWasoo"⟩ ∧
    decrypt Sample.aesGcm () (lit "AAAAAAAAAAAAAAAA") (lit "IRz/VSTgir2dGXbhiRjJ1ctWasoo") =
      some (lit "hi") ∧ lit "hi" ≠ p := by
  refine ⟨by decide, Sample.aesGcm_inverts _, ?_, ?_, ?_⟩ <;> decide +kernel

end Doppelganger
