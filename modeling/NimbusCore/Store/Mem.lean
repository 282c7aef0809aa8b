import NimbusCore.Support.Maps

/-!
# Store — the interface and the in-memory store

`internal/store/store.go`.  A Go string is its bytes (`GoString`), and need not be UTF-8; a
`[]byte` is its contents (`Bytes`).  Nothing in the package tells a nil slice from an empty one:
it asks only for lengths.

`memStore` is the map itself.  Its mutex makes each operation one atomic step, so an operation is
a function of the contents.
-/

namespace NimbusCore.Store

/-- A `[]byte`, by its contents. -/
abbrev Bytes := List UInt8

/-- A Go string: a sequence of bytes, UTF-8 or not. -/
abbrev GoString := List UInt8

/-- The bytes of a Unicode text. -/
def goString (s : String) : GoString := s.toUTF8.data.toList

/-- `k` is the encoding of some Unicode text. -/
def ValidUtf8 (k : GoString) : Prop := (ByteArray.mk k.toArray).IsValidUTF8

instance (k : GoString) : Decidable (ValidUtf8 k) :=
  inferInstanceAs (Decidable (ByteArray.IsValidUTF8 _))

theorem validUtf8_goString (s : String) : ValidUtf8 (goString s) := by
  simpa [ValidUtf8, goString] using s.isValidUTF8

/-- `strings.HasPrefix`. -/
def hasPrefix (k pfx : GoString) : Bool := pfx.isPrefixOf k

/-- The errors the package returns. -/
inductive StoreError where
  /-- `ErrNotFound`: "store: key not found". -/
  | notFound
  /-- `ErrNotLeader`: "store: not the raft leader". -/
  | notLeader
  /-- `raft.Apply`'s own error. -/
  | raft
  /-- "store: NodeID is required". -/
  | nodeIDRequired
  /-- "store: encryption key must be 32 bytes, got %d". -/
  | keySize (got : Nat)
  /-- "store: generate nonce: %w". -/
  | nonce
  /-- "store: ciphertext shorter than nonce". -/
  | shortCiphertext
  /-- `gcm.Open`'s error: the tag does not match. -/
  | unauthentic
  /-- "store: decrypt %s: %w". -/
  | decrypt (key : GoString) (err : StoreError)
  /-- "store: list values to re-encrypt: %w". -/
  | listToReencrypt (err : StoreError)
  /-- "store: re-encrypt %s: %w". -/
  | reencrypt (key : GoString) (err : StoreError)
  /-- The snapshot does not parse. -/
  | decode
  deriving DecidableEq

/-- The contents of a store. -/
abbrev Data := Dict GoString Bytes

/-- The entries whose key starts with `pfx`: the loop of `memStore.List` and of `fsm.list`. -/
def Data.listing (m : Data) (pfx : GoString) : Data := m.filter fun k _ => hasPrefix k pfx

theorem Data.lookup_listing (m : Data) (pfx k : GoString) :
    (Data.listing m pfx).lookup k = if hasPrefix k pfx then m.lookup k else none := by
  rw [Data.listing, Finmap.lookup_filter]
  cases m.lookup k <;> cases hasPrefix k pfx <;> rfl

/-- The empty string is a prefix of every key. -/
@[simp] theorem Data.listing_nil (m : Data) : Data.listing m [] = m := by
  refine Finmap.ext_lookup fun k => ?_
  rw [Data.lookup_listing]
  simp [hasPrefix]

/-- `memStore`. -/
structure MemStore where
  data : Data

/-- `NewMemStore`. -/
def newMemStore : MemStore := ⟨∅⟩

namespace MemStore

/-- `memStore.Get`. -/
def get (s : MemStore) (key : GoString) : Except StoreError Bytes :=
  match s.data.lookup key with
  | none => .error .notFound
  | some v => .ok v

/-- `memStore.Put`. -/
def put (s : MemStore) (key : GoString) (value : Bytes) : MemStore := ⟨s.data.insert key value⟩

/-- `memStore.Delete`. -/
def delete (s : MemStore) (key : GoString) : MemStore := ⟨s.data.erase key⟩

/-- `memStore.List`. -/
def list (s : MemStore) (pfx : GoString) : Data := Data.listing s.data pfx

end MemStore

/-! ### Calls of the interface -/

/-- A call of the `Store` interface. -/
inductive Call where
  | put (key : GoString) (value : Bytes)
  | delete (key : GoString)
  | get (key : GoString)
  | list (pfx : GoString)

/-- The key a call writes. -/
def Call.writes : Call → Option GoString
  | .put k _ | .delete k => some k
  | .get _ | .list _ => none

/-- What a call returns. -/
inductive Reply where
  | done (r : Except StoreError Unit)
  | value (r : Except StoreError Bytes)
  | entries (r : Except StoreError Data)

/-- One call on `memStore`. -/
def MemStore.call (s : MemStore) : Call → MemStore × Reply
  | .put k v => (s.put k v, .done (.ok ()))
  | .delete k => (s.delete k, .done (.ok ()))
  | .get k => (s, .value (s.get k))
  | .list pfx => (s, .entries (.ok (s.list pfx)))

/-- The replies of `memStore` to a sequence of calls. -/
def MemStore.replies : MemStore → List Call → List Reply
  | _, [] => []
  | s, c :: cs => (s.call c).2 :: MemStore.replies (s.call c).1 cs

end NimbusCore.Store
