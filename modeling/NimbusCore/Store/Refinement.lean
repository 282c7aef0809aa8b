import NimbusCore.Store.Contents
import NimbusCore.Store.Samples

/-!
# Store — the replicated store refines the in-memory one

Both implementations answer the same calls.  `raftStore_refines_memStore`: on a leader whose every
command is committed, with no key or with one fixed key, the replies of `RaftStore` to any
sequence of calls are those of `memStore`.  The simulation relation is `Holds`: the machine holds,
encrypted, exactly the contents of the in-memory map.
-/

namespace NimbusCore.Store

variable {A : Aead} {J : Json}

/-- What one call meets: its draw, and the order of its listing. -/
structure Choice where
  draw : Draw
  order : List GoString

/-- The reply to a write, and the store after it. -/
def RaftStore.written (s : RaftStore) : Except StoreError RaftStore → RaftStore × Reply
  | .ok s' => (s', .done (.ok ()))
  | .error e => (s, .done (.error e))

/-- One call on `RaftStore`. -/
def RaftStore.call (A : Aead) (J : Json) (s : RaftStore) (ch : Choice) : Call → RaftStore × Reply
  | .put k v => s.written (s.put A J k v ch.draw)
  | .delete k => s.written (s.delete J k ch.draw.raft)
  | .get k => (s, .value (s.get A k))
  | .list pfx => (s, .entries (s.list A pfx ch.order))

/-- The replies of `RaftStore` to a sequence of calls. -/
def RaftStore.replies (A : Aead) (J : Json) : RaftStore → List (Call × Choice) → List Reply
  | _, [] => []
  | s, (c, ch) :: cs => (s.call A J ch c).2 :: RaftStore.replies A J (s.call A J ch c).1 cs

/-- A leader whose raft commits every entry, along the calls: every draw is good, and every
listing is made in some order of what it lists. -/
def Serves (A : Aead) (J : Json) : RaftStore → List (Call × Choice) → Prop
  | _, [] => True
  | s, (c, ch) :: cs => ch.draw.Good ∧
      (∀ pfx, c = .list pfx → Finmap.IsOrder ch.order (s.fsm.list pfx)) ∧
      Serves A J (s.call A J ch c).1 cs

/-- **One call, simulated.** -/
theorem Holds.call (hA : A.Lawful) (hJ : J.Lawful) {s : RaftStore} {m : Data} (h : Holds A s m)
    {c : Call} {ch : Choice} (hk : ∀ k ∈ c.writes, ValidUtf8 k) (hd : ch.draw.Good)
    (ho : ∀ pfx, c = .list pfx → Finmap.IsOrder ch.order (s.fsm.list pfx)) :
    (s.call A J ch c).2 = ((MemStore.mk m).call c).2 ∧
      Holds A (s.call A J ch c).1 ((MemStore.mk m).call c).1.data := by
  cases c with
  | put k v =>
    replace hk : ValidUtf8 k := hk k rfl
    obtain ⟨c, -, hput⟩ := RaftStore.exists_put (A := A) hJ s hk v hd
    rw [RaftStore.call, hput]
    exact ⟨rfl, h.put hJ hk hput⟩
  | delete k =>
    replace hk : ValidUtf8 k := hk k rfl
    have hdel := RaftStore.delete_committed hJ s hk
    rw [RaftStore.call, hd.2, hdel]
    exact ⟨rfl, h.delete hJ hk hdel⟩
  | get k => exact ⟨congrArg Reply.value (h.get hA k), h⟩
  | list pfx => exact ⟨congrArg Reply.entries (h.list hA pfx (ho pfx rfl)), h⟩

theorem Holds.replies (hA : A.Lawful) (hJ : J.Lawful) :
    ∀ (cs : List (Call × Choice)) {s : RaftStore} {m : Data}, Holds A s m →
      (∀ c ∈ cs, ∀ k ∈ c.1.writes, ValidUtf8 k) → Serves A J s cs →
      s.replies A J cs = (MemStore.mk m).replies (cs.map Prod.fst)
  | [], _, _, _, _, _ => rfl
  | (c, ch) :: cs, s, m, h, hk, ⟨hd, ho, hs⟩ => by
    obtain ⟨hr, h'⟩ := h.call hA hJ (hk (c, ch) List.mem_cons_self) hd ho
    rw [RaftStore.replies, List.map_cons, MemStore.replies, hr,
      h'.replies hA hJ cs (fun c' hc' => hk c' (List.mem_cons_of_mem _ hc')) hs]

/-- A store opened over an empty machine holds nothing. -/
theorem holds_fresh {nodeID : GoString} {key : Bytes} {s : RaftStore}
    (h : newRaftStore nodeID key Fsm.fresh = .ok s) : Holds A s ∅ := by
  simp only [newRaftStore] at h
  split at h
  · cases h
  · split at h
    · cases h
      exact ⟨fun k => .none, fun k hk => absurd hk Finmap.notMem_empty⟩
    · cases h

/-- **`RaftStore` refines `memStore`.**  With any key `NewRaftStore` accepts, on a leader whose raft
commits every entry, every call is answered as `memStore` answers it, if the keys that are written
are valid UTF-8. -/
theorem raftStore_refines_memStore (hA : A.Lawful) (hJ : J.Lawful) {nodeID : GoString}
    {key : Bytes} {s : RaftStore} (hs : newRaftStore nodeID key Fsm.fresh = .ok s)
    (cs : List (Call × Choice)) (hk : ∀ c ∈ cs, ∀ k ∈ c.1.writes, ValidUtf8 k)
    (hc : Serves A J s cs) :
    s.replies A J cs = newMemStore.replies (cs.map Prod.fst) :=
  (holds_fresh hs).replies hA hJ cs hk hc

/-- A draw of the zero nonce that is committed. -/
def goodDraw : Draw := ⟨some ⟨List.replicate nonceSize 0, rfl⟩, .committed⟩

/-- Puts of a value and of an empty one, reads of a present and of an absent key, a listing of a
prefix, a deletion and a listing of all. -/
def sampleCalls : List (Call × Choice) :=
  [(.put (goString "a") [1], ⟨goodDraw, []⟩), (.put (goString "b") [], ⟨goodDraw, []⟩),
   (.get (goString "a"), ⟨goodDraw, []⟩), (.get (goString "c"), ⟨goodDraw, []⟩),
   (.list (goString "a"), ⟨goodDraw, [goString "a"]⟩),
   (.delete (goString "a"), ⟨goodDraw, []⟩), (.list [], ⟨goodDraw, [goString "b"]⟩)]

/-- A store with a key. -/
theorem raftStore_refines_memStore_sample :
    ∃ s, newRaftStore (goString "node-1") (List.replicate EncryptionKeySize 1) Fsm.fresh = .ok s ∧
      s.replies tagAead sampleJson sampleCalls = newMemStore.replies
        (sampleCalls.map Prod.fst) := by
  have hs : newRaftStore (goString "node-1") (List.replicate EncryptionKeySize 1) Fsm.fresh =
    .ok ⟨.fresh, ⟨List.replicate EncryptionKeySize 1, .inr rfl⟩, .none⟩ := rfl
  refine ⟨_, hs, ?_⟩
  refine raftStore_refines_memStore tagAead_lawful sampleJson_lawful hs sampleCalls (by decide) ?_
  have hd : goodDraw.Good := ⟨rfl, rfl⟩
  refine ⟨hd, nofun, hd, nofun, hd, nofun, hd, nofun, hd, fun pfx h => ?_, hd, nofun, hd,
    fun pfx h => ?_, trivial⟩
  · cases h
    decide +kernel
  · cases h
    decide +kernel

end NimbusCore.Store
