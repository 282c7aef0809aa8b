import NimbusCore.Store.Mem

/-!
# Store — encryption of values

`internal/store/crypto.go`.  AES-256-GCM is a parameter (`Aead`): `lock` and `unlock` are `gcm.Seal`
and `gcm.Open` without the nonce `encryptValue` puts in front.  What the code relies on is
`Aead.Lawful`: a sealed value opens with the key that sealed it, and with no other key.

`Sealed A key c p` says that `c` is a ciphertext of `p` under `key`.  Every fact about
`decryptValue` the store needs is `decryptValue_sealed` and `decryptValue_other`.
-/

namespace NimbusCore.Store

/-- `EncryptionKeySize`. -/
def EncryptionKeySize : Nat := 32

/-- `gcm.NonceSize()`. -/
def nonceSize : Nat := 12

/-- An authenticated cipher: key, nonce, text. -/
structure Aead where
  lock : Bytes → Bytes → Bytes → Bytes
  unlock : Bytes → Bytes → Bytes → Option Bytes

/-- A sealed value opens with the key that sealed it, and with no other key. -/
structure Aead.Lawful (A : Aead) : Prop where
  open_seal : ∀ k n p, k.length = EncryptionKeySize → A.unlock k n (A.lock k n p) = some p
  open_other : ∀ k k' n p, k.length = EncryptionKeySize → k'.length = EncryptionKeySize →
    k' ≠ k → A.unlock k' n (A.lock k n p) = none

/-- The nonce `encryptValue` draws. -/
structure Nonce where
  bytes : Bytes
  size : bytes.length = nonceSize

/-- `encryptValue`, where `nonce` is what the random source delivers, `none` when it fails. -/
def encryptValue (A : Aead) (key : Bytes) (nonce : Option Nonce) (plaintext : Bytes) :
    Except StoreError Bytes :=
  if key.length ≠ EncryptionKeySize then .error (.keySize key.length)
  else match nonce with
    | none => .error .nonce
    | some n => .ok (n.bytes ++ A.lock key n.bytes plaintext)

/-- `decryptValue`. -/
def decryptValue (A : Aead) (key ciphertext : Bytes) : Except StoreError Bytes :=
  if key.length ≠ EncryptionKeySize then .error (.keySize key.length)
  else if ciphertext.length < nonceSize then .error .shortCiphertext
  else match A.unlock key (ciphertext.take nonceSize) (ciphertext.drop nonceSize) with
    | none => .error .unauthentic
    | some p => .ok p

/-- `c` is a ciphertext of `p` under the 32-byte key `key`. -/
def Sealed (A : Aead) (key c p : Bytes) : Prop :=
  key.length = EncryptionKeySize ∧ ∃ n : Nonce, c = n.bytes ++ A.lock key n.bytes p

variable {A : Aead} {key c p : Bytes}

theorem encryptValue_ok {nonce : Option Nonce}
    (h : encryptValue A key nonce p = .ok c) : Sealed A key c p := by
  simp only [encryptValue] at h
  split at h
  · cases h
  · next hk =>
    cases nonce with
    | none => cases h
    | some n => cases h; exact ⟨not_not.mp hk, n, rfl⟩

/-- The nonce is split off where it was put. -/
theorem decryptValue_append (A : Aead) (hk : key.length = EncryptionKeySize)
    (n : Nonce) (c : Bytes) :
    decryptValue A key (n.bytes ++ c) =
      match A.unlock key n.bytes c with
      | none => .error .unauthentic
      | some p => .ok p := by
  have hlen : ¬ (n.bytes ++ c).length < nonceSize := by
    rw [List.length_append, n.size]; omega
  rw [decryptValue, if_neg (not_not.mpr hk), if_neg hlen, ← n.size, List.take_left,
    List.drop_left]

theorem decryptValue_sealed (hA : A.Lawful) (h : Sealed A key c p) :
    decryptValue A key c = .ok p := by
  obtain ⟨hk, n, rfl⟩ := h
  rw [decryptValue_append A hk, hA.open_seal _ _ _ hk]

/-- No other key opens a sealed value, whatever its length. -/
theorem decryptValue_other (hA : A.Lawful) {key' : Bytes}
    (h : Sealed A key c p) (hne : key' ≠ key) : ∃ e, decryptValue A key' c = .error e := by
  obtain ⟨hk, n, rfl⟩ := h
  by_cases hk' : key'.length = EncryptionKeySize
  · exact ⟨.unauthentic, by rw [decryptValue_append A hk', hA.open_other _ _ _ _ hk hk' hne]⟩
  · exact ⟨.keySize key'.length, by rw [decryptValue, if_pos hk']⟩

end NimbusCore.Store
