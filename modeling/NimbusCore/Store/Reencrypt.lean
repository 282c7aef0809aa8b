import NimbusCore.Store.Rotation
import NimbusCore.Store.Snapshot

/-!
# Store — re-encryption among client writes

`ReencryptAll` lists every value and then writes each of them back, one raft command at a time,
while clients keep writing.  Here its steps and theirs are interleaved: a run is the `List`, then a
sequence of `Act`s — a client operation, or the next write-back — until every listed entry has been
written, then the dropping of the previous key, then more client operations.  Client operations
before the `List` are part of the state it starts from.

A write-back is a blind put of the listed value.  `reencryption_invisible_iff`: the plaintext
contents at the end are those of the client operations alone if and only if, for each write-back of
a key, the clients have left the key as it was listed, or touch it again later (`Keeps`).  When they
have not, an overwritten value comes back, or a deleted key (`reencryption_reverts_writes`).

With no client in between, nothing is lost: `reencryptAll_alone`.
-/

namespace NimbusCore.Store

open List Finmap RaftStore

variable {A : Aead} {J : Json}

/-- A client write. -/
inductive ClientOp where
  | put (key : GoString) (value : Bytes) (draw : Draw)
  | delete (key : GoString)

namespace ClientOp

/-- The key a client write touches. -/
def key : ClientOp → GoString
  | .put k _ _ | .delete k => k

/-- A client write that succeeds, on the plaintext contents. -/
def onContents : ClientOp → Data → Data
  | .put k v _, m => m.insert k v
  | .delete k, m => m.erase k

/-- A client write on the store. -/
def onStore (A : Aead) (J : Json) : ClientOp → RaftStore → Except StoreError RaftStore
  | .put k v d, s => s.put A J k v d
  | .delete k, s => s.delete J k .committed

/-- The key is valid UTF-8 and the write goes through. -/
def Succeeds : ClientOp → Prop
  | .put k _ d => ValidUtf8 k ∧ d.Good
  | .delete k => ValidUtf8 k

/-- On its own key a write does the same to any contents. -/
theorem lookup_onContents_self (op : ClientOp) (a c : Data) :
    (op.onContents a).lookup op.key = (op.onContents c).lookup op.key := by
  cases op with
  | put k v d | delete k => simp [onContents, key]

theorem lookup_onContents_ne (op : ClientOp) (a : Data) {k : GoString} (h : k ≠ op.key) :
    (op.onContents a).lookup k = a.lookup k := by
  cases op with
  | put _ _ _ => exact lookup_insert_of_ne _ h
  | delete _ => exact lookup_erase_ne h

end ClientOp

/-- One step after the `List`: a client's, or the next write-back. -/
inductive Act where
  | client (op : ClientOp)
  | write (draw : Draw)

/-- Every write of the run goes through. -/
def Act.Succeeds : Act → Prop
  | .client op => op.Succeeds
  | .write d => d.Good

/-- The store, and the entries still to be written back. -/
structure Reencryption where
  store : RaftStore
  pending : List (GoString × Bytes)

/-- One step of the interleaving. -/
def Reencryption.step (A : Aead) (J : Json) : Reencryption → Act → Except StoreError Reencryption
  | ⟨s, es⟩, .client op => (op.onStore A J s).map (⟨·, es⟩)
  | ⟨s, (k, v) :: es⟩, .write d => (s.put A J k v d).map (⟨·, es⟩)
  | ⟨s, []⟩, .write _ => .ok ⟨s, []⟩

/-- Client operations, one after the other. -/
def runClients (A : Aead) (J : Json) (s : RaftStore) (ops : List ClientOp) :
    Except StoreError RaftStore :=
  ops.foldlM (fun s op => op.onStore A J s) s

/-- `ReencryptAll` among client operations. -/
def RaftStore.reencryptAmong (A : Aead) (J : Json) (s : RaftStore)
    (listOrder order : List GoString) (acts : List Act) (later : List ClientOp) :
    Except StoreError RaftStore := do
  let all ← s.list A [] listOrder
  let r ← acts.foldlM (Reencryption.step A J) ⟨s, all.range order⟩
  runClients A J { r.store with prevEncKey := .none } later

/-! ### The contents, in the abstract -/

/-- Client operations on plain contents. -/
def onAll (ops : List ClientOp) (m : Data) : Data := ops.foldl (fun m op => op.onContents m) m

/-- The client operations of a run, in their order. -/
def clientsOf : List Act → List ClientOp
  | [] => []
  | .client op :: as => op :: clientsOf as
  | .write _ :: as => clientsOf as

/-- The number of write-backs of a run. -/
def writesOf : List Act → Nat
  | [] => 0
  | .client _ :: as => writesOf as
  | .write _ :: as => writesOf as + 1

/-- The contents a run makes of `a`, where a write-back puts the next pending entry. -/
def actual : Data → List (GoString × Bytes) → List Act → Data
  | a, _, [] => a
  | a, es, .client op :: as => actual (op.onContents a) es as
  | a, e :: es, .write _ :: as => actual (a.insert e.1 e.2) es as
  | a, [], .write _ :: as => actual a [] as

/-- A client touches `k` in `as` or `later`. -/
def Touched (k : GoString) (as : List Act) (later : List ClientOp) : Prop :=
  ∃ op ∈ clientsOf as ++ later, op.key = k

/-- At each write-back the clients have left the key with the value that was listed, or touch the
key afterwards.  `c` is what the client operations alone have made of the contents. -/
def Keeps (later : List ClientOp) : Data → List (GoString × Bytes) → List Act → Prop
  | _, _, [] => True
  | c, es, .client op :: as => Keeps later (op.onContents c) es as
  | c, e :: es, .write _ :: as =>
    (c.lookup e.1 = some e.2 ∨ Touched e.1 as later) ∧ Keeps later c es as
  | c, [], .write _ :: as => Keeps later c [] as

/-- Client operations make two contents agree at a key exactly when they did, or it is touched. -/
theorem lookup_onAll_iff (k : GoString) :
    ∀ (ops : List ClientOp) (a c : Data), (onAll ops a).lookup k = (onAll ops c).lookup k ↔
      a.lookup k = c.lookup k ∨ ∃ op ∈ ops, op.key = k
  | [], a, c => by simp [onAll]
  | op :: ops, a, c => by
    have ih := lookup_onAll_iff k ops (op.onContents a) (op.onContents c)
    simp only [onAll, foldl_cons] at ih ⊢
    rw [ih]
    simp only [mem_cons, exists_eq_or_imp]
    by_cases e : op.key = k
    · subst e
      simp [ClientOp.lookup_onContents_self op a c]
    · rw [op.lookup_onContents_ne a (Ne.symm e), op.lookup_onContents_ne c (Ne.symm e)]
      simp [e]

/-- **What a run makes of the contents.**  Where `a` is the contents at some point of the run and
`c` what the clients alone have made of them, the two end equal at every key exactly when every
write-back to come keeps (`Keeps`), and the two agree already except at keys that a client or a
write-back is still to write. -/
theorem actual_eq_iff (later : List ClientOp) :
    ∀ (as : List Act) (es : List (GoString × Bytes)) (a c : Data), (es.map Prod.fst).Nodup →
      writesOf as = es.length →
      ((∀ k, (onAll later (actual a es as)).lookup k =
          (onAll later (onAll (clientsOf as) c)).lookup k) ↔
        Keeps later c es as ∧
          ∀ k, a.lookup k = c.lookup k ∨ Touched k as later ∨ k ∈ es.map Prod.fst)
  | [], [], a, c, _, _ => by
    simp only [actual, clientsOf, onAll, foldl_nil, Keeps, true_and, Touched,
      nil_append, map_nil, not_mem_nil, or_false]
    exact forall_congr' fun k => lookup_onAll_iff k later a c
  | .client op :: as, es, a, c, hn, hw => by
    have ih := actual_eq_iff later as es (op.onContents a) (op.onContents c) hn hw
    simp only [actual, clientsOf, onAll, foldl_cons, Keeps] at ih ⊢
    rw [ih]
    refine and_congr_right fun _ => forall_congr' fun k => ?_
    simp only [Touched, clientsOf, cons_append, mem_cons, exists_eq_or_imp]
    by_cases e : op.key = k
    · subst e
      simp [ClientOp.lookup_onContents_self op a c]
    · rw [op.lookup_onContents_ne a (Ne.symm e), op.lookup_onContents_ne c (Ne.symm e)]
      simp [e]
  | .write d :: as, e :: es, a, c, hn, hw => by
    obtain ⟨hne, hn⟩ := nodup_cons.mp hn
    have ih := actual_eq_iff later as es (a.insert e.1 e.2) c hn (by simpa [writesOf] using hw)
    simp only [actual, clientsOf, Keeps] at ih ⊢
    rw [ih]
    have ht : ∀ k, Touched k (.write d :: as) later ↔ Touched k as later := fun _ => Iff.rfl
    simp only [ht, map_cons, mem_cons]
    -- the written key is settled by `Keeps`, every other key is as before
    constructor
    · rintro ⟨hk, hall⟩
      refine ⟨⟨?_, hk⟩, fun k => ?_⟩
      · rcases hall e.1 with h | h | h
        · rw [lookup_insert] at h; exact .inl h.symm
        · exact .inr h
        · exact absurd h hne
      · by_cases h : k = e.1
        · exact .inr (.inr (.inl h))
        · rcases hall k with h' | h' | h'
          · rw [lookup_insert_of_ne _ h] at h'; exact .inl h'
          · exact .inr (.inl h')
          · exact .inr (.inr (.inr h'))
    · rintro ⟨⟨hk, hkeep⟩, hall⟩
      refine ⟨hkeep, fun k => ?_⟩
      by_cases h : k = e.1
      · subst h
        rcases hk with hk | hk
        · rw [lookup_insert]; exact .inl hk.symm
        · exact .inr (.inl hk)
      · rw [lookup_insert_of_ne _ h]
        rcases hall k with h' | h' | h' | h'
        · exact .inl h'
        · exact .inr (.inl h')
        · exact absurd h' h
        · exact .inr (.inr h')
  | [], _ :: _, _, _, _, hw => by simp [writesOf] at hw
  | .write _ :: _, [], _, _, _, hw => by simp [writesOf] at hw

/-! ### The store follows the contents -/

/-- A client write that succeeds. -/
theorem Holds.client (hJ : J.Lawful) {s : RaftStore} {a : Data} (h : Holds A s a) {op : ClientOp}
    (ho : op.Succeeds) : ∃ s', op.onStore A J s = .ok s' ∧ Holds A s' (op.onContents a) ∧
      ∀ k, CurrentAt A s k → CurrentAt A s' k := by
  cases op with
  | put k v d =>
    obtain ⟨c, -, hp⟩ := exists_put (A := A) hJ s ho.1 v ho.2
    exact ⟨_, hp, h.put hJ ho.1 hp, fun j hj => currentAt_put hJ ho.1 hp (.inr hj)⟩
  | delete k =>
    have hd := delete_committed hJ s (k := k) ho
    exact ⟨_, hd, h.delete hJ ho hd, fun j hj => currentAt_delete hJ ho hd hj⟩

theorem Holds.clients (hJ : J.Lawful) :
    ∀ (ops : List ClientOp) {s : RaftStore} {a : Data}, Holds A s a → (∀ op ∈ ops, op.Succeeds) →
      ∃ s', runClients A J s ops = .ok s' ∧ Holds A s' (onAll ops a)
  | [], s, _, h, _ => ⟨s, rfl, h⟩
  | op :: ops, s, a, h, ho => by
    obtain ⟨s₁, h₁, hs₁, -⟩ := h.client hJ (ho op mem_cons_self)
    obtain ⟨s', h', hs'⟩ := hs₁.clients hJ ops fun o hm => ho o (mem_cons_of_mem _ hm)
    refine ⟨s', ?_, hs'⟩
    rw [runClients, foldlM_cons, h₁]
    exact h'

/-- **A run, followed.**  The store holds what `actual` says, and every value that is not pending
is under the current key. -/
theorem Holds.acts (hJ : J.Lawful) :
    ∀ (as : List Act) (es : List (GoString × Bytes)) {s : RaftStore} {a : Data}, Holds A s a →
      (∀ act ∈ as, act.Succeeds) → (∀ e ∈ es, ValidUtf8 e.1) → writesOf as = es.length →
      (∀ k, k ∈ es.map Prod.fst ∨ CurrentAt A s k) →
      ∃ s', as.foldlM (Reencryption.step A J) ⟨s, es⟩ = .ok ⟨s', []⟩ ∧
        Holds A s' (actual a es as) ∧ ∀ k, CurrentAt A s' k
  | [], [], s, a, h, _, _, _, hc => ⟨s, rfl, h, fun k => (hc k).resolve_left (by simp)⟩
  | .client op :: as, es, s, a, h, hs, hv, hw, hc => by
    obtain ⟨s₁, h₁, hs₁, hcur⟩ := h.client hJ (hs _ mem_cons_self)
    obtain ⟨s', h', hs', hc'⟩ := hs₁.acts hJ as es
      (fun act hm => hs act (mem_cons_of_mem _ hm)) hv hw
      fun k => (hc k).imp_right (hcur k)
    refine ⟨s', ?_, hs', hc'⟩
    rw [foldlM_cons]
    simp only [Reencryption.step, h₁, Except.map]
    exact h'
  | .write d :: as, e :: es, s, a, h, hs, hv, hw, hc => by
    have hve : ValidUtf8 e.1 := hv e mem_cons_self
    obtain ⟨c, -, hp⟩ := exists_put (A := A) hJ s hve e.2 (hs _ mem_cons_self)
    obtain ⟨s', h', hs', hc'⟩ := (h.put hJ hve hp).acts hJ as es
      (fun act hm => hs act (mem_cons_of_mem _ hm))
      (fun e' hm => hv e' (mem_cons_of_mem _ hm)) (by simpa [writesOf] using hw)
      fun k => by
        rcases hc k with hk | hk
        · rcases mem_cons.mp hk with rfl | hk
          · exact .inr (currentAt_put hJ hve hp (.inl rfl))
          · exact .inl hk
        · exact .inr (currentAt_put hJ hve hp (.inr hk))
    refine ⟨s', ?_, hs', hc'⟩
    rw [foldlM_cons]
    simp only [Reencryption.step, hp, Except.map]
    exact h'
  | [], _ :: _, _, _, _, _, _, hw, _ | .write _ :: _, [], _, _, _, _, _, hw, _ =>
    by simp [writesOf] at hw

/-- **Re-encryption is invisible to clients exactly when every write-back keeps.**  From a store
that holds `m`, in any order of the two loops and any interleaving with client writes, the run
reaches its end, and the contents there are those the client writes alone make of `m` if and only if
at each write-back of a key the clients have left the key as it was listed, or touch it
afterwards. -/
theorem reencryption_invisible_iff (hA : A.Lawful) (hJ : J.Lawful) {s : RaftStore} {m : Data}
    (h : Holds A s m) {listOrder order : List GoString}
    (hl : Finmap.IsOrder listOrder s.fsm.data) (ho : Finmap.IsOrder order m) (as : List Act)
    (later : List ClientOp) (hw : writesOf as = order.length) (has : ∀ act ∈ as, act.Succeeds)
    (hlater : ∀ op ∈ later, op.Succeeds) :
    ∃ s', s.reencryptAmong A J listOrder order as later = .ok s' ∧
      ((∀ k, s'.get A k = (MemStore.mk (onAll later (onAll (clientsOf as) m))).get k) ↔
        Keeps later m (m.range order) as) := by
  have hlist : s.list A [] listOrder = .ok m := by
    rw [h.list hA [] (by rwa [Fsm.list, Data.listing_nil]), MemStore.list, Data.listing_nil]
  have hfst := ho.map_fst_range
  have hlen : writesOf as = (m.range order).length := by
    rw [hw, ← length_map Prod.fst, hfst]
  have hval : ∀ e ∈ m.range order, ValidUtf8 e.1 := fun e he =>
    h.valid e.1 (mem_of_lookup_eq_some (ho.mem_range.mp he))
  have hcur : ∀ k, k ∈ (m.range order).map Prod.fst ∨ CurrentAt A s k := by
    intro k
    rw [hfst, ho.mem_iff]
    by_cases hk : k ∈ m
    · exact .inl hk
    · refine .inr fun c hc => ?_
      rw [h.lookup_none.mpr (lookup_eq_none.mpr hk)] at hc
      cases hc
  obtain ⟨s₁, hrun, hs₁, hc₁⟩ := h.acts hJ as _ has hval hlen hcur
  obtain ⟨s', hrun', hs'⟩ := (hs₁.dropPrev hA fun k _ => hc₁ k).clients hJ later hlater
  refine ⟨s', ?_, ?_⟩
  · rw [RaftStore.reencryptAmong, hlist]
    simp only [bind, Except.bind, hrun]
    exact hrun'
  · have hmain := actual_eq_iff later as (m.range order) m m (by rw [hfst]; exact ho.1) hlen
    rw [and_iff_left fun k => .inl rfl] at hmain
    rw [← hmain]
    refine forall_congr' fun k => ?_
    rw [hs'.get hA k, MemStore.get, MemStore.get]
    constructor
    · intro heq
      split at heq <;> split at heq <;> simp_all
    · intro heq
      dsimp only
      rw [heq]

/-- `newOne` after a put of `a ↦ [1]`. -/
theorem holds_storeOne : Holds tagAead (storeOne 1 (encKeyOf 1) .none)
    (Finmap.singleton (goString "a") [1]) := by
  have hp : newOne.put tagAead sampleJson (goString "a") [1] goodDraw =
      .ok (storeOne 1 (encKeyOf 1) .none) := rfl
  exact (holds_fresh newOne_opened).put sampleJson_lawful (validUtf8_goString "a") hp

/-- A put of another key before the write-back, and one of the same key after it. -/
theorem reencryption_invisible_iff_sample :
    ∃ s', (storeOne 1 (encKeyOf 1) .none).reencryptAmong tagAead sampleJson [goString "a"]
        [goString "a"] [.client (.put (goString "b") [2] goodDraw), .write goodDraw]
        [.put (goString "a") [3] goodDraw] = .ok s' ∧
      ((∀ k, s'.get tagAead k = (MemStore.mk (onAll [.put (goString "a") [3] goodDraw]
          (onAll [.put (goString "b") [2] goodDraw]
            (Finmap.singleton (goString "a") [1])))).get k) ↔
        Keeps [.put (goString "a") [3] goodDraw] (Finmap.singleton (goString "a") [1])
          [(goString "a", [1])]
          [.client (.put (goString "b") [2] goodDraw), .write goodDraw]) := by
  have hd : goodDraw.Good := ⟨rfl, rfl⟩
  refine reencryption_invisible_iff tagAead_lawful sampleJson_lawful holds_storeOne (by decide)
    (by decide) [.client (.put (goString "b") [2] goodDraw), .write goodDraw]
    [.put (goString "a") [3] goodDraw] rfl ?_ ?_
  · simp [Act.Succeeds, ClientOp.Succeeds, hd, validUtf8_goString]
  · simp [ClientOp.Succeeds, hd, validUtf8_goString]

/-- **A write-back reverts what clients wrote since the listing.**  With `a ↦ [1]` listed: a client
puts `[2]` and reads `[1]` afterwards; a client deletes `a` and reads `[1]` afterwards. -/
theorem reencryption_reverts_writes :
    (∃ s', (storeOne 1 (encKeyOf 1) .none).reencryptAmong tagAead sampleJson [goString "a"]
        [goString "a"] [.client (.put (goString "a") [2] goodDraw), .write goodDraw] [] = .ok s' ∧
      s'.get tagAead (goString "a") = .ok [1] ∧
      (MemStore.mk (onAll [.put (goString "a") [2] goodDraw]
        (Finmap.singleton (goString "a") [1]))).get (goString "a") = .ok [2]) ∧
    ∃ s', (storeOne 1 (encKeyOf 1) .none).reencryptAmong tagAead sampleJson [goString "a"]
        [goString "a"] [.client (.delete (goString "a")), .write goodDraw] [] = .ok s' ∧
      s'.get tagAead (goString "a") = .ok [1] ∧
      (MemStore.mk (onAll [.delete (goString "a")]
        (Finmap.singleton (goString "a") [1]))).get (goString "a") = .error .notFound :=
  ⟨⟨_, rfl, rfl, rfl⟩, ⟨_, rfl, rfl, rfl⟩⟩

/-! ### Alone -/

/-- Every stored value opens under the current or the previous key. -/
def UnderEitherKey (A : Aead) (s : RaftStore) : Prop :=
  ∀ k c, s.fsm.data.lookup k = some c →
    (∃ p, decryptValue A s.encKey.bytes c = .ok p) ∨
      ∃ p, decryptValue A s.prevEncKey.bytes c = .ok p

/-- With a current key, a value that opens under either decrypts. -/
theorem UnderEitherKey.decrypts {s : RaftStore} (h : UnderEitherKey A s)
    (hkey : s.encKey.bytes ≠ []) {k : GoString} {c : Bytes} (hc : s.fsm.data.lookup k = some c) :
    ∃ p, s.decrypt A c = .ok p := by
  have h0 : ¬ s.encKey.bytes.length = 0 := fun e => hkey (eq_nil_of_length_eq_zero e)
  rw [RaftStore.decrypt, if_neg h0]
  cases hd : decryptValue A s.encKey.bytes c with
  | ok p => exact ⟨p, rfl⟩
  | error e =>
    rcases h k c hc with ⟨p, hp⟩ | ⟨p, hp⟩
    · rw [hd] at hp; cases hp
    · -- the current key refuses, so the previous one opens, and an empty key opens nothing
      have hprev : 0 < s.prevEncKey.bytes.length := by
        rcases s.prevEncKey.size with hs | hs
        · rw [eq_nil_of_length_eq_zero hs] at hp; cases hp
        · rw [hs]; decide
      refine ⟨p, ?_⟩
      simp only [if_pos hprev, hp]

/-- **Re-encryption, alone, is correct and failure-atomic.**  From any store whose machine is the
replay of a log, with a current key, and with every value under one of the two keys: in any order of
the two loops, and whichever write-back fails, every key reads as before.  If the call succeeds it
has counted every key, every value opens under the current key, and the previous key is gone; if it
fails, the previous key is still held. -/
theorem reencryptAll_alone (hA : A.Lawful) (hJ : J.Lawful) {s : RaftStore} (log : List Bytes)
    (hlog : s.fsm = Fsm.fresh.replay J log) (hkey : s.encKey.bytes ≠ [])
    (hopens : UnderEitherKey A s) {listOrder order : List GoString}
    (hl : Finmap.IsOrder listOrder s.fsm.data)
    (ho : ∀ all, s.list A [] listOrder = .ok all → Finmap.IsOrder order all) (draws : Nat → Draw)
    {r : RaftStore × Except StoreError Nat} (hr : s.reencryptAll A J listOrder order draws = r) :
    (∀ k, r.1.get A k = s.get A k) ∧ r.1.fsm.data.keys = s.fsm.data.keys ∧
      (∀ k ∈ r.1.fsm.data, ∃ v, r.1.get A k = .ok v) ∧ r.1.encKey = s.encKey ∧
      (∀ n, r.2 = .ok n →
        n = s.fsm.data.keys.card ∧ UnderCurrentKey A r.1 ∧ r.1.prevEncKey = .none) ∧
      ∀ e, r.2 = .error e → r.1.prevEncKey = s.prevEncKey := by
  obtain ⟨m, h⟩ := Reads.exists_of_decrypts fun k c hc => hopens.decrypts hkey hc
  have hvalid : ∀ k ∈ m, ValidUtf8 k := by
    intro k hk
    refine keysValid_fresh.replay hJ log k ?_
    rwa [← hlog, ← Finmap.mem_keys, ← h.keys_eq, Finmap.mem_keys]
  have hlist : s.list A [] listOrder = .ok m := by
    rw [h.list [] (by rwa [Fsm.list, Data.listing_nil]), MemStore.list, Data.listing_nil]
  have hput : ∀ k v d t t', m.lookup k = some v → Reads A t m → t.put A J k v d = .ok t' →
      Reads A t' m := by
    intro k v d t t' hv ht hp
    have hins := ht.put hA hJ (hvalid k (mem_of_lookup_eq_some hv)) hp
    rwa [Finmap.insert_of_lookup hv] at hins
  obtain ⟨h', henc, hfail, hok⟩ := reencryptAll_rule (P := fun t => Reads A t m) hJ hlist
    (ho m hlist) hvalid h hput (fun t ht hc => ht.dropPrev hA hc) draws hr
  refine ⟨fun k => (h' k).trans (h k).symm, h'.keys_eq.symm.trans h.keys_eq, fun k hk => ?_, henc,
    fun n hn => ?_, hfail⟩
  · obtain ⟨c, hc⟩ := Finmap.mem_iff.mp hk
    obtain ⟨p, hp, -⟩ := h'.lookup hc
    refine ⟨p, ?_⟩
    rw [h' k, MemStore.get, hp]
  · obtain ⟨hcard, hprev, hcur⟩ := hok n hn
    refine ⟨by rw [hcard, h.keys_eq], fun k c hc => ?_, hprev⟩
    obtain ⟨p, hp, -⟩ := h'.lookup hc
    rcases hcur k (mem_of_lookup_eq_some hp) c hc with h0 | ⟨p', hs⟩
    · rw [henc] at h0; exact absurd h0 hkey
    · exact ⟨p', decryptValue_sealed hA hs⟩

/-- A rotation has replaced the first key.  The value at `a` is still under it, that at `b` under
the new one. -/
def twoKeys : RaftStore :=
  ⟨⟨(Finmap.singleton (goString "a") (sealedOne 1)).insert (goString "b") (sealedOne 2)⟩,
    encKeyOf 2, encKeyOf 1⟩

/-- The first write-back fails; and none does. -/
theorem reencryptAll_alone_sample :
    UnderEitherKey tagAead twoKeys ∧
      (∀ k, (twoKeys.reencryptAll tagAead sampleJson [goString "a", goString "b"]
          [goString "a", goString "b"] fun _ => failedDraw).1.get tagAead k =
        twoKeys.get tagAead k) ∧
      ∃ s', twoKeys.reencryptAll tagAead sampleJson [goString "a", goString "b"]
          [goString "a", goString "b"] (fun _ => goodDraw) = (s', .ok 2) ∧
        UnderCurrentKey tagAead s' ∧ s'.prevEncKey = .none := by
  have hopens : UnderEitherKey tagAead twoKeys := by
    intro k c hc
    rw [twoKeys, Finmap.lookup_insert_eq] at hc
    split at hc
    · cases hc
      exact .inl ⟨[1], rfl⟩
    · rw [(Finmap.lookup_singleton_iff.mp hc).2]
      exact .inr ⟨[1], rfl⟩
  have hm : twoKeys.list tagAead [] [goString "a", goString "b"] =
      .ok ((Finmap.singleton (goString "a") [1]).insert (goString "b") [1]) := rfl
  have hl : Finmap.IsOrder [goString "a", goString "b"] twoKeys.fsm.data := by decide
  have ho : ∀ all, twoKeys.list tagAead [] [goString "a", goString "b"] = .ok all →
      Finmap.IsOrder [goString "a", goString "b"] all := by
    intro all hall
    cases hm.symm.trans hall
    decide
  have halone := fun draws => reencryptAll_alone tagAead_lawful sampleJson_lawful
    [sampleJson.encodeCommand ⟨opPut, goString "a", sealedOne 1⟩,
      sampleJson.encodeCommand ⟨opPut, goString "b", sealedOne 2⟩] rfl
        (by decide) hopens hl ho draws
    rfl
  refine ⟨hopens, (halone _).1, _, rfl, ?_⟩
  obtain ⟨-, -, -, -, hok, -⟩ := halone fun _ => goodDraw
  exact (hok 2 rfl).2

end NimbusCore.Store
