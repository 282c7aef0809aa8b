import NimbusCore.Store.Contents

/-!
# Controller — key rotation

`internal/controller/key_rotation.go`: one tick draws a key, rotates to it and re-encrypts every
value.  Its errors are logged, not returned.  `Holds.rotateTick`: from a store whose values are all
under its current key, a tick that reaches its end keeps the contents and leaves every value under
the new key, the only one held.
-/

namespace NimbusCore.Controller

open Store

/-- What one tick meets: the key `rand.Read` delivers, and what the re-encryption meets. -/
structure RotateDraw where
  newKey : Option { key : Bytes // key.length = EncryptionKeySize }
  listOrder : List GoString
  order : List GoString
  draws : Nat → Draw

/-- How a tick ends: with which log line. -/
inductive RotateResult where
  /-- "secret-key-rotator: generate key: %v". -/
  | keyNotGenerated
  /-- "secret-key-rotator: rotate: %v". -/
  | notRotated (err : StoreError)
  /-- "secret-key-rotator: re-encrypt (completed %d entries before error): %v". -/
  | notReencrypted (err : StoreError)
  /-- "secret-key-rotator: rotated encryption key, re-encrypted %d entries". -/
  | rotated (n : Nat)

/-- `KeyRotationReconciler.rotate`. -/
def rotate (A : Aead) (J : Json) (s : RaftStore) (draw : RotateDraw) : RaftStore × RotateResult :=
  match draw.newKey with
  | none => (s, .keyNotGenerated)
  | some newKey =>
    match s.rotateEncryptionKey newKey.1 with
    | .error err => (s, .notRotated err)
    | .ok s₁ =>
      match s₁.reencryptAll A J draw.listOrder draw.order draw.draws with
      | (s₂, .error err) => (s₂, .notReencrypted err)
      | (s₂, .ok n) => (s₂, .rotated n)

/-- The two loops of a tick visit every key of the contents once. -/
def RotateDraw.Fits (draw : RotateDraw) (m : Data) : Prop :=
  Finmap.IsOrder draw.listOrder m ∧ Finmap.IsOrder draw.order m

variable {A : Aead} {J : Json} {s s' : RaftStore} {draw : RotateDraw} {n : Nat}

/-- A tick that reaches its end has drawn a key, rotated to it, and re-encrypted. -/
theorem rotate_rotated (h : rotate A J s draw = (s', .rotated n)) :
    ∃ newKey s₁, draw.newKey = some newKey ∧ s.rotateEncryptionKey newKey.1 = .ok s₁ ∧
      s₁.reencryptAll A J draw.listOrder draw.order draw.draws = (s', .ok n) := by
  simp only [rotate] at h
  split at h
  · cases h
  · next newKey hk =>
    split at h
    · cases h
    · next s₁ hr =>
      split at h
      · cases h
      · next s₂ n' he => cases h; exact ⟨newKey, s₁, hk, hr, he⟩

variable {m : Data}

/-- The keys of the contents are those of the machine. -/
theorem isOrder_of_holds (h : Holds A s m) {ks : List GoString}
    (ho : Finmap.IsOrder ks m) : Finmap.IsOrder ks s.fsm.data := by
  refine ⟨ho.1, Finset.ext fun k => ?_⟩
  rw [ho.2, Finmap.mem_keys, Finmap.mem_keys, ← not_iff_not, ← Finmap.lookup_eq_none,
    ← Finmap.lookup_eq_none, h.lookup_none]

/-- **One tick of the rotation.** -/
theorem Holds.rotateTick (hA : A.Lawful) (hJ : J.Lawful)
    (h : Holds A s m) (hcur : ∀ k, CurrentAt A s k) (hkey : s.encKey.bytes ≠ []) (hf : draw.Fits m)
    (ht : rotate A J s draw = (s', .rotated n)) :
    Holds A s' m ∧ (∀ k, CurrentAt A s' k) ∧
      ∃ newKey, draw.newKey = some newKey ∧ s'.encKey.bytes = newKey.1 ∧ s'.prevEncKey = .none := by
  obtain ⟨newKey, s₁, hk, hr, he⟩ := rotate_rotated ht
  have hu : UnderCurrentKey A s := fun k c hc => by
    rcases hcur k c hc with h0 | ⟨p, hp⟩
    · exact absurd h0 hkey
    · exact ⟨p, decryptValue_sealed hA hp⟩
  have h₁ := h.rotate hA hu hr
  obtain ⟨h₂, henc, -, hok⟩ := h₁.reencryptAll hA hJ (isOrder_of_holds h₁ hf.1) hf.2 draw.draws he
  obtain ⟨-, hprev, hcur'⟩ := hok n rfl
  refine ⟨h₂, hcur', newKey, hk, ?_, hprev⟩
  simp only [RaftStore.rotateEncryptionKey] at hr
  split at hr
  · cases hr; rw [henc]
  · cases hr

end NimbusCore.Controller
