import NimbusCore.Store.Crypto

/-!
# Store — the replicated store

`internal/store/raft.go`.  A write is a `command`, marshalled to JSON, committed by raft and
applied to the finite state machine of every replica; a read is of the local machine.  Values are
encrypted on the way in and decrypted on the way out, with two keys the process holds in memory:
the current one and, after a rotation, the previous one.

`encoding/json` is a parameter (`Json`), with what the code relies on in `Json.Lawful`.  Raft is
seen through its answers: `RaftAnswer` is what `IsLeader` and `Apply(..).Error()` say of one
command, and `Draw` adds the nonce the random source delivers.  The order in which a `range` over
a map visits its keys is an argument.
-/

namespace NimbusCore.Store

/-! ### The wire format -/

/-- `command`. -/
structure Command where
  op : GoString
  key : GoString
  value : Bytes
  deriving DecidableEq

/-- `"put"`. -/
def opPut : GoString := goString "put"

/-- `"delete"`. -/
def opDelete : GoString := goString "delete"

/-- `encoding/json` at the two types the store marshals: `command`, and the map of a snapshot. -/
structure Json where
  encodeCommand : Command → Bytes
  decodeCommand : Bytes → Option Command
  encodeData : Data → Bytes
  decodeData : Bytes → Option Data

/-- What the store relies on of `encoding/json`: it round-trips what is valid UTF-8, and every
string it decodes is valid UTF-8, for it replaces what is not by U+FFFD. -/
structure Json.Lawful (J : Json) : Prop where
  decode_encode : ∀ c : Command, ValidUtf8 c.op → ValidUtf8 c.key →
    J.decodeCommand (J.encodeCommand c) = some c
  decode_valid : ∀ b c, J.decodeCommand b = some c → ValidUtf8 c.key
  data_round_trip : ∀ m : Data, (∀ k ∈ m, ValidUtf8 k) → J.decodeData (J.encodeData m) = some m

/-! ### The state machine -/

/-- `fsm`. -/
structure Fsm where
  data : Data

namespace Fsm

/-- `&fsm{data: make(map[string][]byte)}`. -/
def fresh : Fsm := ⟨∅⟩

/-- The `switch` of `fsm.Apply`.  A command that is neither a put nor a delete changes nothing. -/
def dispatch (f : Fsm) (cmd : Command) : Fsm :=
  if cmd.op = opPut then ⟨f.data.insert cmd.key cmd.value⟩
  else if cmd.op = opDelete then ⟨f.data.erase cmd.key⟩
  else f

/-- `fsm.Apply`: the machine after one log entry, and the response. -/
def apply (J : Json) (f : Fsm) (entry : Bytes) : Fsm × Option StoreError :=
  match J.decodeCommand entry with
  | none => (f, some .decode)
  | some cmd => (f.dispatch cmd, none)

/-- `fsm.get`. -/
def get (f : Fsm) (key : GoString) : Except StoreError Bytes :=
  match f.data.lookup key with
  | none => .error .notFound
  | some v => .ok v

/-- `fsm.list`. -/
def list (f : Fsm) (pfx : GoString) : Data := Data.listing f.data pfx

end Fsm

/-! ### The store -/

/-- A key the store may hold: none, or one of the right length. -/
structure EncKey where
  bytes : Bytes
  size : bytes.length = 0 ∨ bytes.length = EncryptionKeySize

/-- A nil key. -/
def EncKey.none : EncKey := ⟨[], .inl rfl⟩

@[ext] theorem EncKey.ext {a b : EncKey} (h : a.bytes = b.bytes) : a = b := by
  cases a; cases b; cases h; rfl

/-- `RaftStore`, as far as one process sees it: the local machine and the two keys. -/
structure RaftStore where
  fsm : Fsm
  encKey : EncKey
  prevEncKey : EncKey

/-- `NewRaftStore`, over what the raft log and snapshots on disk reproduce. -/
def newRaftStore (nodeID : GoString) (encryptionKey : Bytes) (disk : Fsm) :
    Except StoreError RaftStore :=
  if nodeID = [] then .error .nodeIDRequired
  else if h : encryptionKey.length = 0 ∨ encryptionKey.length = EncryptionKeySize then
    .ok ⟨disk, ⟨encryptionKey, h⟩, .none⟩
  else .error (.keySize encryptionKey.length)

/-- What raft answers to one command. -/
inductive RaftAnswer where
  /-- `IsLeader()` is false. -/
  | notLeader
  /-- `Apply(..).Error()` is not nil, and the entry is not committed. -/
  | failed
  | committed
  deriving DecidableEq

/-- What one write meets: the nonce the random source delivers, if any, and raft's answer. -/
structure Draw where
  nonce : Option Nonce
  raft : RaftAnswer

/-- A write that goes through. -/
def Draw.Good (d : Draw) : Prop := d.nonce.isSome ∧ d.raft = .committed

namespace RaftStore

/-- `RaftStore.apply`.  The response of the state machine is not read. -/
def apply (J : Json) (s : RaftStore) (cmd : Command) (answer : RaftAnswer) :
    Except StoreError RaftStore :=
  match answer with
  | .notLeader => .error .notLeader
  | .failed => .error .raft
  | .committed => .ok { s with fsm := (s.fsm.apply J (J.encodeCommand cmd)).1 }

/-- `RaftStore.encrypt`. -/
def encrypt (A : Aead) (s : RaftStore) (nonce : Option Nonce) (plaintext : Bytes) :
    Except StoreError Bytes :=
  if s.encKey.bytes.length = 0 then .ok plaintext
  else encryptValue A s.encKey.bytes nonce plaintext

/-- `RaftStore.decrypt`. -/
def decrypt (A : Aead) (s : RaftStore) (stored : Bytes) : Except StoreError Bytes :=
  if s.encKey.bytes.length = 0 then .ok stored
  else match decryptValue A s.encKey.bytes stored with
    | .ok plain => .ok plain
    | .error err =>
      if 0 < s.prevEncKey.bytes.length then
        match decryptValue A s.prevEncKey.bytes stored with
        | .ok plain => .ok plain
        | .error _ => .error err
      else .error err

/-- `RaftStore.Get`. -/
def get (A : Aead) (s : RaftStore) (key : GoString) : Except StoreError Bytes :=
  match s.fsm.get key with
  | .error err => .error err
  | .ok stored => s.decrypt A stored

/-- `RaftStore.Put`. -/
def put (A : Aead) (J : Json) (s : RaftStore) (key : GoString) (value : Bytes) (draw : Draw) :
    Except StoreError RaftStore :=
  match s.encrypt A draw.nonce value with
  | .error err => .error err
  | .ok stored => s.apply J ⟨opPut, key, stored⟩ draw.raft

/-- `RaftStore.Delete`. -/
def delete (J : Json) (s : RaftStore) (key : GoString) (answer : RaftAnswer) :
    Except StoreError RaftStore :=
  s.apply J ⟨opDelete, key, []⟩ answer

/-- The loop of `RaftStore.List`. -/
def decryptAll (A : Aead) (s : RaftStore) : List (GoString × Bytes) → Data →
    Except StoreError Data
  | [], out => .ok out
  | (k, v) :: rest, out =>
    match s.decrypt A v with
    | .error err => .error (.decrypt k err)
    | .ok plain => s.decryptAll A rest (out.insert k plain)

/-- `RaftStore.List`, visiting the entries in the order `order`. -/
def list (A : Aead) (s : RaftStore) (pfx : GoString) (order : List GoString) :
    Except StoreError Data :=
  s.decryptAll A ((s.fsm.list pfx).range order) ∅

/-- `RaftStore.RotateEncryptionKey`. -/
def rotateEncryptionKey (s : RaftStore) (newKey : Bytes) : Except StoreError RaftStore :=
  if h : newKey.length = EncryptionKeySize then
    .ok { s with prevEncKey := s.encKey, encKey := ⟨newKey, .inr h⟩ }
  else .error (.keySize newKey.length)

/-- The loop of `RaftStore.ReencryptAll`: the store it leaves behind, and the count or the error
it stops with.  `draws i` is what the `i`-th `Put` meets. -/
def reencryptLoop (A : Aead) (J : Json) (draws : Nat → Draw) :
    List (GoString × Bytes) → Nat → RaftStore → RaftStore × Except StoreError Nat
  | [], count, s => (s, .ok count)
  | (key, value) :: rest, count, s =>
    match s.put A J key value (draws count) with
    | .error err => (s, .error (.reencrypt key err))
    | .ok s' => reencryptLoop A J draws rest (count + 1) s'

/-- `RaftStore.ReencryptAll`, with the order of its `List` and of its own loop. -/
def reencryptAll (A : Aead) (J : Json) (s : RaftStore) (listOrder order : List GoString)
    (draws : Nat → Draw) : RaftStore × Except StoreError Nat :=
  match s.list A [] listOrder with
  | .error err => (s, .error (.listToReencrypt err))
  | .ok all =>
    match reencryptLoop A J draws (all.range order) 0 s with
    | (s', .error err) => (s', .error err)
    | (s', .ok count) => ({ s' with prevEncKey := .none }, .ok count)

end RaftStore

/-! ### What the operations do -/

variable {s : RaftStore} {k : GoString} {p c : Bytes}

section Specs

variable {A : Aead} {J : Json}

theorem opDelete_ne_opPut : opDelete ≠ opPut := by decide

@[simp] theorem Fsm.dispatch_put (f : Fsm) (k : GoString) (v : Bytes) :
    f.dispatch ⟨opPut, k, v⟩ = ⟨f.data.insert k v⟩ := by
  simp [Fsm.dispatch]

@[simp] theorem Fsm.dispatch_delete (f : Fsm) (k : GoString) (v : Bytes) :
    f.dispatch ⟨opDelete, k, v⟩ = ⟨f.data.erase k⟩ := by
  simp [Fsm.dispatch, opDelete_ne_opPut]

/-- A command of the store reaches the machine as it was sent. -/
theorem Fsm.apply_encode (hJ : J.Lawful) (f : Fsm) (cmd : Command) (hop : ValidUtf8 cmd.op)
    (hk : ValidUtf8 cmd.key) : (f.apply J (J.encodeCommand cmd)).1 = f.dispatch cmd := by
  rw [Fsm.apply, hJ.decode_encode cmd hop hk]

namespace RaftStore

/-- A put that succeeds stores one ciphertext of the value under the current key, and leaves the
keys alone. -/
theorem put_ok (hJ : J.Lawful) {s' : RaftStore} {v : Bytes} {d : Draw}
    (hk : ValidUtf8 k) (h : s.put A J k v d = .ok s') :
    ∃ c, s.encrypt A d.nonce v = .ok c ∧ s' = { s with fsm := ⟨s.fsm.data.insert k c⟩ } := by
  simp only [put] at h
  cases hc : s.encrypt A d.nonce v with
  | error e => rw [hc] at h; cases h
  | ok c =>
    rw [hc] at h
    refine ⟨c, rfl, ?_⟩
    cases ha : d.raft with
    | notLeader | failed => simp [apply, ha] at h
    | committed =>
      simp only [apply, ha, Except.ok.injEq] at h
      rw [← h, Fsm.apply_encode hJ s.fsm _ (validUtf8_goString _) hk, Fsm.dispatch_put]

theorem delete_ok (hJ : J.Lawful) {s' : RaftStore} {a : RaftAnswer} (hk : ValidUtf8 k)
    (h : s.delete J k a = .ok s') : s' = { s with fsm := ⟨s.fsm.data.erase k⟩ } := by
  cases ha : a with
  | notLeader | failed => simp [delete, apply, ha] at h
  | committed =>
    simp only [delete, apply, ha, Except.ok.injEq] at h
    rw [← h, Fsm.apply_encode hJ s.fsm _ (validUtf8_goString _) hk, Fsm.dispatch_delete]

theorem delete_committed (hJ : J.Lawful) (s : RaftStore) (hk : ValidUtf8 k) :
    s.delete J k .committed = .ok { s with fsm := ⟨s.fsm.data.erase k⟩ } := by
  rw [delete, apply, Fsm.apply_encode hJ s.fsm _ (validUtf8_goString _) hk, Fsm.dispatch_delete]

/-- `c` reads as `p` in the store `s`: it is `p` itself when there is no key, and otherwise a
ciphertext of `p` under one of the two keys. -/
def Stores (A : Aead) (s : RaftStore) (c p : Bytes) : Prop :=
  (s.encKey.bytes = [] ∧ c = p) ∨
  (s.encKey.bytes ≠ [] ∧ (Sealed A s.encKey.bytes c p ∨ Sealed A s.prevEncKey.bytes c p))

/-- What `encrypt` returns is sealed under the current key, if there is one. -/
theorem encrypt_ok {n : Option Nonce} (h : s.encrypt A n p = .ok c) :
    (s.encKey.bytes = [] ∧ c = p) ∨ (s.encKey.bytes ≠ [] ∧ Sealed A s.encKey.bytes c p) := by
  simp only [encrypt] at h
  split at h
  · next h0 => cases h; exact .inl ⟨List.eq_nil_of_length_eq_zero h0, rfl⟩
  · next h0 => exact .inr ⟨fun e => h0 (by rw [e]; rfl), encryptValue_ok h⟩

theorem encrypt_stores {n : Option Nonce} (h : s.encrypt A n p = .ok c) : s.Stores A c p := by
  rcases encrypt_ok h with h | ⟨h0, hs⟩
  · exact .inl h
  · exact .inr ⟨h0, .inl hs⟩

/-- Encryption of anything succeeds when the random source does. -/
theorem exists_encrypt (A : Aead) (s : RaftStore) (n : Nonce) (p : Bytes) :
    ∃ c, s.encrypt A (some n) p = .ok c := by
  simp only [encrypt]
  split
  · exact ⟨p, rfl⟩
  · next h0 =>
    simp [encryptValue, s.encKey.size.resolve_left h0]

theorem exists_put (hJ : J.Lawful) (s : RaftStore) (hk : ValidUtf8 k) (v : Bytes)
    {d : Draw} (hd : d.Good) : ∃ c, s.encrypt A d.nonce v = .ok c ∧
      s.put A J k v d = .ok { s with fsm := ⟨s.fsm.data.insert k c⟩ } := by
  obtain ⟨hn, hr⟩ := hd
  obtain ⟨n, hn⟩ := Option.isSome_iff_exists.mp hn
  obtain ⟨c, hc⟩ := exists_encrypt A s n v
  refine ⟨c, by rw [hn, hc], ?_⟩
  rw [put, hn, hc, hr]
  simp only [apply]
  rw [Fsm.apply_encode hJ s.fsm _ (validUtf8_goString _) hk, Fsm.dispatch_put]

/-- A value the store holds reads back. -/
theorem decrypt_stores (hA : A.Lawful) (h : s.Stores A c p) : s.decrypt A c = .ok p := by
  rcases h with ⟨h0, rfl⟩ | ⟨h0, h⟩
  · rw [decrypt, h0]; rfl
  · have h0' : ¬ s.encKey.bytes.length = 0 := fun e => h0 (List.eq_nil_of_length_eq_zero e)
    rw [decrypt, if_neg h0']
    rcases h with h | h
    · rw [decryptValue_sealed hA h]
    · -- the current key either is the sealing key or refuses, and then the previous one is tried
      by_cases e : s.encKey.bytes = s.prevEncKey.bytes
      · rw [e, decryptValue_sealed hA h]
      · obtain ⟨err, he⟩ := decryptValue_other hA h e
        have hp : 0 < s.prevEncKey.bytes.length := by rw [h.1]; decide
        simp only [he, decryptValue_sealed hA h, if_pos hp]

/-- `decrypt` fails only with an error of `decryptValue`. -/
theorem decrypt_error {e : StoreError}
    (h : s.decrypt A c = .error e) : decryptValue A s.encKey.bytes c = .error e := by
  simp only [decrypt] at h
  split at h
  · cases h
  · split at h
    · cases h
    · next err he =>
      rw [he]
      split at h
      · split at h
        · cases h
        · exact h
      · exact h

theorem decrypt_ne_notFound (s : RaftStore) (c : Bytes) : s.decrypt A c ≠ .error .notFound := by
  intro h
  have h := decrypt_error h
  simp only [decryptValue] at h
  split at h
  · cases h
  · split at h
    · cases h
    · split at h <;> cases h

end RaftStore

end Specs

end NimbusCore.Store
