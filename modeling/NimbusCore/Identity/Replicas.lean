import NimbusCore.Identity.Restart
import NimbusCore.Store.Snapshot

/-!
# Identity — replicas and their keys

A cluster: a committed raft log, replicas that have each applied a prefix of it, and the bootstrap
node's files and identity service, from which every replica has its DEK.  Nodes start, join and
restart, logs are delivered, leaders change, and the leader serves puts and deletes and rotates its
key, in any order.  Beside the bytes an entry of the log carries the plaintext write it stands for.

The log is replicated and the key is not.  `replicas_agree`: over every run without a rotation,
replicas that have applied the same prefix read the same, and one that has applied the whole log
reads what was last put; and when the leader then rotates to a key other than the DEK, it agrees
with a replica that has caught up with it only if nothing is stored.  `rotation_splits_replicas` is
such a run.
-/

namespace NimbusCore.Identity

open Store Controller List

variable {P : Pki} {A : Aead} {J : Json}

/-! ### The log -/

/-- The plaintext write an entry stands for. -/
inductive PlainOp where
  | put (key : GoString) (value : Bytes)
  | delete (key : GoString)

/-- An entry of the log. -/
structure Entry where
  bytes : Bytes
  op : PlainOp

def PlainOp.apply (m : Data) : PlainOp → Data
  | .put k v => m.insert k v
  | .delete k => m.erase k

/-- The plaintext contents after some entries. -/
def contentsAfter (log : List Entry) : Data := log.foldl (fun m e => e.op.apply m) ∅

/-- The machine after some entries. -/
def machineAfter (J : Json) (log : List Entry) : Fsm := Fsm.fresh.replay J (log.map Entry.bytes)

/-- The entries a sequence of puts commits, up to the first that fails. -/
def putEntries (A : Aead) (J : Json) (s : RaftStore) (draws : Nat → Draw) :
    List (GoString × Bytes) → Nat → List Entry
  | [], _ => []
  | (k, v) :: rest, count =>
    match s.encrypt A (draws count).nonce v, (draws count).raft with
    | .ok c, .committed =>
      ⟨J.encodeCommand ⟨opPut, k, c⟩, .put k v⟩ :: putEntries A J s draws rest (count + 1)
    | _, _ => []

/-- The entries a rotation commits. -/
def rotateEntries (A : Aead) (J : Json) (s : RaftStore) (draw : RotateDraw) : List Entry :=
  match draw.newKey with
  | none => []
  | some newKey =>
    match s.rotateEncryptionKey newKey.1 with
    | .error _ => []
    | .ok s₁ =>
      match s₁.list A [] draw.listOrder with
      | .error _ => []
      | .ok all => putEntries A J s₁ draw.draws (all.range draw.order) 0

/-! ### The cluster -/

/-- A replica, and how much of the log it has applied. -/
structure Replica where
  store : RaftStore
  applied : Nat

/-- The committed log, the files and the identity service of the bootstrap node, and the replicas by
their node ID. -/
structure Cluster (P : Pki) where
  log : List Entry
  files : Files
  service : IdentityService P
  replicas : Dict GoString Replica
  leader : GoString

/-- What happens in a cluster. -/
inductive ClusterEvent (P : Pki) where
  /-- A node starts, for the first time or again. -/
  | start (nodeID : GoString) (draw : StartDraw P)
  /-- A replica applies the log up to an index. -/
  | deliver (nodeID : GoString) (upTo : Nat)
  /-- A replica becomes the leader, and applies what is committed. -/
  | elect (nodeID : GoString)
  | put (key : GoString) (value : Bytes) (draw : Draw)
  | delete (key : GoString) (answer : RaftAnswer)
  | rotate (draw : RotateDraw)

/-- The flags of a node: those of the bootstrap node, but for the node ID and `-bootstrap`. -/
def nodeConfig (boot : StartConfig) (nodeID : GoString) : StartConfig :=
  { boot with bootstrap := nodeID = boot.nodeID, nodeID := nodeID }

/-- A replica applies the log up to `upTo`, if it is behind. -/
def Replica.catchUp (J : Json) (log : List Entry) (r : Replica) (upTo : Nat) : Replica :=
  if r.applied ≤ upTo ∧ upTo ≤ log.length then
    { store :=
        { r.store with
          fsm := r.store.fsm.replay J (((log.take upTo).drop r.applied).map Entry.bytes) }
      applied := upTo }
  else r

namespace Cluster

/-- The leader's store and log after a call on it. -/
def commit (c : Cluster P) (store : RaftStore) (entries : List Entry) : Cluster P :=
  { c with
    log := c.log ++ entries
    replicas := c.replicas.insert c.leader ⟨store, (c.log ++ entries).length⟩ }

/-- One event.  A call or a start that fails changes nothing, but for the writes a rotation has made
before it stopped. -/
def step (A : Aead) (J : Json) (boot : StartConfig) (c : Cluster P) : ClusterEvent P → Cluster P
  | .start nodeID draw =>
    let old : Replica := (c.replicas.lookup nodeID).getD ⟨⟨.fresh, .none, .none⟩, 0⟩
    match Identity.start (nodeConfig boot nodeID) c.service c.files old.store.fsm draw with
    | .error _ => c
    | .ok p =>
      { c with
        files := p.files
        service := p.identity.getD c.service
        replicas := c.replicas.insert nodeID ⟨p.store, old.applied⟩ }
  | .deliver nodeID upTo =>
    match c.replicas.lookup nodeID with
    | none => c
    | some r => { c with replicas := c.replicas.insert nodeID (r.catchUp J c.log upTo) }
  | .elect nodeID =>
    match c.replicas.lookup nodeID with
    | none => c
    | some r =>
      { c with
        replicas := c.replicas.insert nodeID (r.catchUp J c.log c.log.length)
        leader := nodeID }
  | .put k v d =>
    match c.replicas.lookup c.leader with
    | none => c
    | some r =>
      match r.store.put A J k v d with
      | .error _ => c
      | .ok s => c.commit s (putEntries A J r.store (fun _ => d) [(k, v)] 0)
  | .delete k a =>
    match c.replicas.lookup c.leader with
    | none => c
    | some r =>
      match r.store.delete J k a with
      | .error _ => c
      | .ok s => c.commit s [⟨J.encodeCommand ⟨opDelete, k, []⟩, .delete k⟩]
  | .rotate draw =>
    match c.replicas.lookup c.leader with
    | none => c
    | some r => c.commit (Controller.rotate A J r.store draw).1 (rotateEntries A J r.store draw)

/-- The cluster after a run. -/
def run (A : Aead) (J : Json) (boot : StartConfig) (c : Cluster P) (es : List (ClusterEvent P)) :
    Cluster P :=
  es.foldl (step A J boot) c

/-- Replicas that have applied the same prefix read the same, and one that has applied the whole
log reads what was last put. -/
structure Agree (A : Aead) (c : Cluster P) : Prop where
  get : ∀ i j r r', c.replicas.lookup i = some r → c.replicas.lookup j = some r' →
    r.applied = r'.applied → ∀ k, r.store.get A k = r'.store.get A k
  list : ∀ i j r r', c.replicas.lookup i = some r → c.replicas.lookup j = some r' →
    r.applied = r'.applied → ∀ pfx o o', Finmap.IsOrder o (r.store.fsm.list pfx) →
      Finmap.IsOrder o' (r'.store.fsm.list pfx) → r.store.list A pfx o = r'.store.list A pfx o'
  reads : ∀ i r, c.replicas.lookup i = some r → r.applied = c.log.length →
    ∀ k, r.store.get A k = (MemStore.mk (contentsAfter c.log)).get k

end Cluster

/-- Keys are valid UTF-8. -/
def ClusterEvent.Valid : ClusterEvent P → Prop
  | .put k _ _ | .delete k _ => ValidUtf8 k
  | _ => True

/-- Not a rotation. -/
def ClusterEvent.KeepsKey : ClusterEvent P → Prop
  | .rotate _ => False
  | _ => True

/-- The cluster of one bootstrap node that has just started with the files `files`. -/
def bootCluster (boot : StartConfig) (p : ApiServer P) (svc : IdentityService P) : Cluster P :=
  { log := []
    files := p.files
    service := svc
    replicas := Finmap.singleton boot.nodeID ⟨p.store, 0⟩
    leader := boot.nodeID }

/-! ### What a log makes of a machine -/

theorem machineAfter_append (log log' : List Entry) :
    machineAfter J (log ++ log') = (machineAfter J log).replay J (log'.map Entry.bytes) := by
  rw [machineAfter, map_append, Fsm.replay_append, machineAfter]

/-- The entry is a write sealed under `key`, or a delete. -/
def Entry.Under (A : Aead) (J : Json) (key : Bytes) (e : Entry) : Prop :=
  match e.op with
  | .put k v => ValidUtf8 k ∧ ∃ c, e.bytes = J.encodeCommand ⟨opPut, k, c⟩ ∧ Sealed A key c v
  | .delete k => ValidUtf8 k ∧ e.bytes = J.encodeCommand ⟨opDelete, k, []⟩

variable {s : RaftStore} {m : Data} {key : Bytes}

/-- One entry under the key of a store. -/
theorem SealedUnder.apply (hJ : J.Lawful)
    (h : SealedUnder A s m key) {e : Entry} (he : e.Under A J key) :
    SealedUnder A { s with fsm := (s.fsm.apply J e.bytes).1 } (e.op.apply m) key := by
  obtain ⟨bytes, op⟩ := e
  cases op with
  | put k v =>
    obtain ⟨hk, c, rfl, hc⟩ := he
    rw [Fsm.apply_encode hJ _ _ (validUtf8_goString "put") hk, Fsm.dispatch_put]
    refine ⟨⟨fun j => ?_, fun j hj => ?_⟩, fun j c' hc' => ?_, h.encKey, h.size⟩
    · simp only [PlainOp.apply]
      rw [Finmap.lookup_insert_eq, Finmap.lookup_insert_eq]
      by_cases e : j = k
      · rw [if_pos e, if_pos e]
        exact .some (.inr ⟨h.encKey_ne_nil, .inl (h.encKey ▸ hc)⟩)
      · rw [if_neg e, if_neg e]; exact h.holds.rel j
    · rcases Finmap.mem_insert.mp hj with rfl | hj
      · exact hk
      · exact h.holds.valid j hj
    · rw [Finmap.lookup_insert_eq] at hc'
      split at hc'
      · cases hc'; exact .inr ⟨v, h.encKey ▸ hc⟩
      · exact h.current j c' hc'
  | delete k =>
    obtain ⟨hk, rfl⟩ := he
    rw [Fsm.apply_encode hJ _ _ (validUtf8_goString "delete") hk, Fsm.dispatch_delete]
    have hd := RaftStore.delete_committed hJ s hk
    exact ⟨h.holds.delete hJ hk hd, fun j => currentAt_delete hJ hk hd (h.current j), h.encKey,
      h.size⟩

theorem SealedUnder.replay (hJ : J.Lawful) :
    ∀ (log : List Entry) {s : RaftStore} {m : Data} {key : Bytes}, SealedUnder A s m key →
      (∀ e ∈ log, e.Under A J key) →
      SealedUnder A { s with fsm := s.fsm.replay J (log.map Entry.bytes) }
        (log.foldl (fun m e => e.op.apply m) m) key
  | [], _, _, _, h, _ => h
  | e :: log, _, _, _, h, he =>
    (h.apply hJ (he e mem_cons_self)).replay hJ log
      fun e' hm => he e' (mem_cons_of_mem _ hm)

/-- **A store with the key of a log, over the machine the log makes, holds what the log writes.** -/
theorem sealedUnder_machineAfter (hJ : J.Lawful) {log : List Entry}
    (he : ∀ e ∈ log, e.Under A J key) (hlen : key.length = EncryptionKeySize)
    (hs : s.fsm = machineAfter J log) (hk : s.encKey.bytes = key) :
    SealedUnder A s (contentsAfter log) key := by
  have h₀ : SealedUnder A { s with fsm := .fresh } ∅ key :=
    ⟨⟨fun k => by rw [Finmap.lookup_empty]; exact .none,
        fun k hk => absurd hk Finmap.notMem_empty⟩,
      fun k c hc => (by rw [show Fsm.fresh.data = ∅ from rfl, Finmap.lookup_empty] at hc; cases hc),
      hk, hlen⟩
  have h₁ := h₀.replay hJ log he
  have : s = { s with fsm := Fsm.fresh.replay J (log.map Entry.bytes) } := by
    cases s; simp only [RaftStore.mk.injEq, and_true]; exact hs
  rw [this]
  exact h₁

/-- The entries of puts, and what the puts make of the machine. -/
theorem putEntries_under (h0 : s.encKey.bytes ≠ []) (draws : Nat → Draw) :
    ∀ (es : List (GoString × Bytes)) (count : Nat), (∀ e ∈ es, ValidUtf8 e.1) →
      ∀ e ∈ putEntries A J s draws es count, e.Under A J s.encKey.bytes
  | [], _, _, e, he => absurd he (by simp [putEntries])
  | (k, v) :: es, count, hv, e, he => by
    rw [putEntries] at he
    split at he
    · next c hc _ =>
      rcases mem_cons.mp he with rfl | he
      · refine ⟨hv (k, v) mem_cons_self, c, rfl, ?_⟩
        rcases RaftStore.encrypt_ok hc with ⟨h, -⟩ | ⟨-, h⟩
        · exact absurd h h0
        · exact h
      · exact putEntries_under h0 draws es (count + 1)
          (fun e' hm => hv e' (mem_cons_of_mem _ hm)) e he
    · exact absurd he (by simp)

theorem putEntries_setFsm (s : RaftStore) (f : Fsm) (draws : Nat → Draw) :
    ∀ (es : List (GoString × Bytes)) (count : Nat),
      putEntries A J { s with fsm := f } draws es count = putEntries A J s draws es count
  | [], _ => rfl
  | (k, v) :: es, count => by
    have henc : RaftStore.encrypt A { s with fsm := f } = RaftStore.encrypt A s := rfl
    rw [putEntries, putEntries, henc, putEntries_setFsm s f draws es]

/-- **Puts reach the machine through the log.** -/
theorem reencryptLoop_fsm (draws : Nat → Draw) :
    ∀ (es : List (GoString × Bytes)) (count : Nat) (s : RaftStore),
      (RaftStore.reencryptLoop A J draws es count s).1.fsm =
        s.fsm.replay J ((putEntries A J s draws es count).map Entry.bytes)
  | [], _, _ => rfl
  | (k, v) :: es, count, s => by
    rw [RaftStore.reencryptLoop, putEntries, RaftStore.put]
    cases hc : s.encrypt A (draws count).nonce v with
    | error e => rfl
    | ok c =>
      cases hr : (draws count).raft with
      | notLeader => rfl
      | failed => rfl
      | committed =>
        simp only [RaftStore.apply]
        rw [reencryptLoop_fsm draws es (count + 1), putEntries_setFsm]
        rfl

theorem put_fsm {s' : RaftStore} {k : GoString} {v : Bytes} {d : Draw}
    (h : s.put A J k v d = .ok s') :
    s'.fsm = s.fsm.replay J ((putEntries A J s (fun _ => d) [(k, v)] 0).map Entry.bytes) := by
  have := reencryptLoop_fsm (A := A) (J := J) (fun _ => d) [(k, v)] 0 s
  rw [RaftStore.reencryptLoop, h] at this
  exact this

theorem putEntries_op (draws : Nat → Draw) :
    ∀ (es : List (GoString × Bytes)) (count : Nat), ∀ e ∈ putEntries A J s draws es count,
      ∃ kv ∈ es, e.op = .put kv.1 kv.2
  | [], _, e, he => absurd he (by simp [putEntries])
  | kv :: es, count, e, he => by
    rw [putEntries] at he
    split at he
    · rcases mem_cons.mp he with rfl | he
      · exact ⟨kv, mem_cons_self, rfl⟩
      · obtain ⟨kv', hm, ho⟩ := putEntries_op draws es (count + 1) e he
        exact ⟨kv', mem_cons_of_mem _ hm, ho⟩
    · exact absurd he (by simp)

/-- Writing back what is there. -/
theorem foldl_apply_self :
    ∀ {log : List Entry}, (∀ e ∈ log, ∃ k v, e.op = .put k v ∧ m.lookup k = some v) →
      log.foldl (fun m e => e.op.apply m) m = m
  | [], _ => rfl
  | e :: log, h => by
    obtain ⟨k, v, ho, hv⟩ := h e mem_cons_self
    rw [foldl_cons, ho, PlainOp.apply, Finmap.insert_of_lookup hv]
    exact foldl_apply_self fun e' hm => h e' (mem_cons_of_mem _ hm)

/-- A rotation that reaches its end, seen from the log. -/
theorem rotate_entries (hA : A.Lawful) {s' : RaftStore}
    (h : SealedUnder A s m key) {draw : RotateDraw} (hf : draw.Fits m) {n : Nat}
    (ht : Controller.rotate A J s draw = (s', .rotated n)) :
    s'.fsm = s.fsm.replay J ((rotateEntries A J s draw).map Entry.bytes) ∧
      (rotateEntries A J s draw).foldl (fun m e => e.op.apply m) m = m ∧
      (m = ∅ → rotateEntries A J s draw = []) := by
  obtain ⟨newKey, s₁, hk, hr, he⟩ := rotate_rotated ht
  have hu : UnderCurrentKey A s := fun k c hc => by
    rcases h.current k c hc with h0 | ⟨p, hp⟩
    · exact absurd h0 h.encKey_ne_nil
    · exact ⟨p, decryptValue_sealed hA hp⟩
  have h₁ := h.holds.rotate hA hu hr
  have hlist : s₁.list A [] draw.listOrder = .ok m := by
    rw [h₁.list hA [] (by rw [Fsm.list, Data.listing_nil]; exact isOrder_of_holds h₁ hf.1),
      MemStore.list, Data.listing_nil]
  have hfsm : s₁.fsm = s.fsm := by
    simp only [RaftStore.rotateEncryptionKey] at hr
    split at hr
    · cases hr; rfl
    · cases hr
  have hent : rotateEntries A J s draw = putEntries A J s₁ draw.draws (m.range draw.order) 0 := by
    simp only [rotateEntries, hk, hr, hlist]
  rw [hent]
  refine ⟨?_, foldl_apply_self fun e hm => ?_, fun hm => ?_⟩
  · have hloop := reencryptLoop_fsm (A := A) (J := J) draw.draws (m.range draw.order) 0 s₁
    simp only [RaftStore.reencryptAll, hlist] at he
    generalize RaftStore.reencryptLoop A J draw.draws (m.range draw.order) 0 s₁ = r at he hloop
    obtain ⟨t, res⟩ := r
    cases res with
    | error e => cases he
    | ok n' => cases he; rw [← hfsm]; exact hloop
  · obtain ⟨⟨k, v⟩, hkv, ho⟩ := putEntries_op draw.draws _ _ e hm
    exact ⟨k, v, ho, hf.2.mem_range.mp hkv⟩
  · have horder : draw.order = [] := by
      have := hf.2.2
      rw [hm, Finmap.keys_empty, toFinset_eq_empty_iff] at this
      exact this
    rw [horder]
    rfl

/-! ### Runs without a rotation -/

/-- A replica where the log is, with the key `dek`. -/
structure Replica.Follows (J : Json) (dek : Bytes) (log : List Entry) (r : Replica) : Prop where
  applied : r.applied ≤ log.length
  machine : r.store.fsm = machineAfter J (log.take r.applied)
  encKey : r.store.encKey.bytes = dek
  prevEncKey : r.store.prevEncKey = .none

namespace Replica.Follows

variable {dek : Bytes} {log : List Entry} {r : Replica}

theorem append (h : r.Follows J dek log) (entries : List Entry) :
    r.Follows J dek (log ++ entries) where
  applied := by rw [length_append]; exact h.applied.trans (Nat.le_add_right ..)
  machine := by rw [take_append_of_le_length h.applied]; exact h.machine
  encKey := h.encKey
  prevEncKey := h.prevEncKey

theorem catchUp (h : r.Follows J dek log) (upTo : Nat) :
    (r.catchUp J log upTo).Follows J dek log := by
  simp only [Replica.catchUp]
  split
  · next hle =>
    refine ⟨hle.2, ?_, h.encKey, h.prevEncKey⟩
    dsimp only
    rw [h.machine, ← machineAfter_append]
    congr 1
    conv_rhs => rw [← take_append_drop r.applied (log.take upTo), take_take,
      Nat.min_eq_left hle.1]
  · exact h

theorem catchUp_all (h : r.Follows J dek log) :
    (r.catchUp J log log.length).applied = log.length := by
  rw [Replica.catchUp, if_pos ⟨h.applied, le_rfl⟩]

theorem sealedUnder (hJ : J.Lawful) (h : r.Follows J dek log) (hd : dek.length = EncryptionKeySize)
    (he : ∀ e ∈ log, e.Under A J dek) :
    SealedUnder A r.store (contentsAfter (log.take r.applied)) dek :=
  sealedUnder_machineAfter hJ (fun e hm => he e (mem_of_mem_take hm)) hd h.machine h.encKey

end Replica.Follows

/-- What a run without a rotation keeps: one key everywhere. -/
structure Cluster.OneKey (A : Aead) (J : Json) (boot : StartConfig) (dek : Bytes) (c : Cluster P) :
    Prop where
  size : dek.length = EncryptionKeySize
  entries : ∀ e ∈ c.log, e.Under A J dek
  service : c.service.dataEncryptionKey = dek
  files : ∃ ca, loadBootstrapState P c.files boot.statePath = .ok (ca, dek)
  replicas : ∀ i r, c.replicas.lookup i = some r → r.Follows J dek c.log
  leader : ∃ r, c.replicas.lookup c.leader = some r ∧ r.applied = c.log.length

/-- **Replicas that hold what the log says agree.** -/
theorem agree_of_holds (hA : A.Lawful) {c : Cluster P} (h : ∀ i r, c.replicas.lookup i = some r →
      Holds A r.store (contentsAfter (c.log.take r.applied))) : c.Agree A where
  get i j r r' hi hj ha k := by rw [(h i r hi).get hA, (h j r' hj).get hA, ha]
  list i j r r' hi hj ha pfx o o' ho ho' := by
    rw [(h i r hi).list hA pfx ho, (h j r' hj).list hA pfx ho', ha]
  reads i r hi ha k := by
    have := (h i r hi).get hA k
    rwa [ha, take_length] at this

variable {r : Replica}

namespace Cluster.OneKey

variable {boot : StartConfig} {dek : Bytes} {c : Cluster P}

theorem agree (hA : A.Lawful) (hJ : J.Lawful) (h : c.OneKey A J boot dek) : c.Agree A :=
  agree_of_holds hA fun i r hi => ((h.replicas i r hi).sealedUnder hJ h.size h.entries).holds

/-- One replica changes, and may become the leader. -/
theorem setReplica (h : c.OneKey A J boot dek) {i : GoString} (hr : r.Follows J dek c.log)
    (leader : GoString) (hl : if leader = i then r.applied = c.log.length else leader = c.leader) :
    OneKey A J boot dek { c with replicas := c.replicas.insert i r, leader := leader } where
  size := h.size
  entries := h.entries
  service := h.service
  files := h.files
  replicas j r' hj := by
    rw [Finmap.lookup_insert_eq] at hj
    split at hj
    · cases hj; exact hr
    · exact h.replicas j r' hj
  leader := by
    dsimp only
    rw [Finmap.lookup_insert_eq]
    split at hl
    · next e => rw [if_pos e]; exact ⟨r, rfl, hl⟩
    · next e => rw [if_neg e, hl]; exact h.leader

/-- The leader commits entries under the key, and its store follows. -/
theorem commit (h : c.OneKey A J boot dek) (hr : c.replicas.lookup c.leader = some r)
    (ha : r.applied = c.log.length) {entries : List Entry} (he : ∀ e ∈ entries, e.Under A J dek)
    (hfsm : s.fsm = r.store.fsm.replay J (entries.map Entry.bytes))
    (henc : s.encKey = r.store.encKey) (hprev : s.prevEncKey = r.store.prevEncKey) :
    OneKey A J boot dek (c.commit s entries) where
  size := h.size
  entries e hm := (mem_append.mp hm).elim (h.entries e) (he e)
  service := h.service
  files := h.files
  replicas j r' hj := by
    simp only [Cluster.commit] at hj
    rw [Finmap.lookup_insert_eq] at hj
    split at hj
    · cases hj
      have hf := h.replicas _ r hr
      refine ⟨le_rfl, ?_, by rw [henc]; exact hf.encKey, by rw [hprev]; exact hf.prevEncKey⟩
      rw [Cluster.commit, take_length, hfsm, hf.machine, ha, take_length,
        ← machineAfter_append]
    · exact (h.replicas j r' hj).append entries
  leader := ⟨_, Finmap.lookup_insert .., rfl⟩

/-- A node starts, for the first time or again. -/
theorem start (h : c.OneKey A J boot dek) (nodeID : GoString) (draw : StartDraw P) :
    OneKey A J boot dek (c.step A J boot (.start nodeID draw)) := by
  simp only [Cluster.step]
  generalize hold : (c.replicas.lookup nodeID).getD ⟨⟨.fresh, .none, .none⟩, 0⟩ = old
  have hmach : old.applied ≤ c.log.length ∧
      old.store.fsm = machineAfter J (c.log.take old.applied) := by
    cases hl : c.replicas.lookup nodeID with
    | none => rw [hl] at hold; cases hold; exact ⟨Nat.zero_le _, rfl⟩
    | some r =>
      rw [hl] at hold; cases hold
      exact ⟨(h.replicas _ r hl).applied, (h.replicas _ r hl).machine⟩
  cases hs : Identity.start (nodeConfig boot nodeID) c.service c.files old.store.fsm draw with
  | error e => exact h
  | ok p =>
    obtain ⟨st, hst, hfiles, hfsm, henc, hprev, hid⟩ := start_ok hs
    obtain ⟨ca, hload⟩ := h.files
    -- whichever way the node starts, it runs with the DEK, and the saved state stays
    have hdek : st.dek = dek ∧ st.files = c.files := by
      by_cases hb : (nodeConfig boot nodeID).bootstrap = true
      · have := loadOrBootstrapIdentity_reuses hb hload hst
        exact ⟨this.2.2, this.1⟩
      · rw [Bool.not_eq_true] at hb
        obtain ⟨hf, -, hd⟩ := loadOrBootstrapIdentity_joins hb hst
        exact ⟨hd.trans h.service, hf⟩
    have hsvc : (p.identity.getD c.service).dataEncryptionKey = dek := by
      rw [hid]
      cases st.ca with
      | none => exact h.service
      | some ca' => exact hdek.1
    have h₁ : OneKey A J boot dek
        { c with files := p.files, service := p.identity.getD c.service } :=
      { h with service := hsvc, files := ⟨ca, by rw [hfiles, hdek.2]; exact hload⟩ }
    have hr : Replica.Follows J dek c.log ⟨p.store, old.applied⟩ :=
      ⟨hmach.1, hfsm.trans hmach.2, henc.trans hdek.1, hprev⟩
    refine h₁.setReplica hr c.leader ?_
    split
    · next e =>
      obtain ⟨r, hr, ha⟩ := h.leader
      rw [← e, hr] at hold
      cases hold
      exact ha
    · rfl

/-- **Every event but a rotation keeps one key everywhere.** -/
theorem step (hJ : J.Lawful) (h : c.OneKey A J boot dek) {e : ClusterEvent P}
    (hv : e.Valid) (hk : e.KeepsKey) : OneKey A J boot dek (c.step A J boot e) := by
  obtain ⟨r, hr, ha⟩ := h.leader
  have h0 : r.store.encKey.bytes ≠ [] :=
    ((h.replicas _ r hr).sealedUnder hJ h.size h.entries).encKey_ne_nil
  cases e with
  | start nodeID draw => exact h.start nodeID draw
  | deliver nodeID upTo =>
    simp only [Cluster.step]
    cases hl : c.replicas.lookup nodeID with
    | none => exact h
    | some r' =>
      refine h.setReplica ((h.replicas _ r' hl).catchUp upTo) c.leader ?_
      split
      · next e =>
        rw [← e, hr] at hl
        cases hl
        rw [Replica.catchUp]
        split
        · next hle => exact le_antisymm hle.2 (ha ▸ hle.1)
        · exact ha
      · rfl
  | elect nodeID =>
    simp only [Cluster.step]
    cases hl : c.replicas.lookup nodeID with
    | none => exact h
    | some r' =>
      refine h.setReplica ((h.replicas _ r' hl).catchUp _) nodeID ?_
      rw [if_pos rfl]
      exact (h.replicas _ r' hl).catchUp_all
  | put k v d =>
    simp only [Cluster.step, hr]
    cases hp : r.store.put A J k v d with
    | error e => exact h
    | ok s =>
      have hent := putEntries_under (A := A) (J := J) h0 (fun _ => d) [(k, v)] 0
        (by simpa [ClusterEvent.Valid] using hv)
      rw [(h.replicas _ r hr).encKey] at hent
      obtain ⟨c', -, rfl⟩ := RaftStore.put_ok hJ hv hp
      exact h.commit hr ha hent (put_fsm hp) rfl rfl
  | delete k a =>
    simp only [Cluster.step, hr]
    cases hp : r.store.delete J k a with
    | error e => exact h
    | ok s =>
      cases a with
      | notLeader => cases hp
      | failed => cases hp
      | committed =>
        cases hp
        refine h.commit hr ha ?_ rfl rfl rfl
        intro e he
        cases mem_singleton.mp he
        exact ⟨hv, rfl⟩
  | rotate draw => exact hk.elim

theorem run (hJ : J.Lawful) :
    ∀ (es : List (ClusterEvent P)) {c : Cluster P}, c.OneKey A J boot dek →
      (∀ e ∈ es, e.Valid ∧ e.KeepsKey) → OneKey A J boot dek (c.run A J boot es)
  | [], _, h, _ => h
  | e :: es, _, h, he =>
    run hJ es (h.step hJ (he e mem_cons_self).1 (he e mem_cons_self).2)
      fun e' hm => he e' (mem_cons_of_mem _ hm)

end Cluster.OneKey

/-! ### A rotation -/

/-- **After a rotation the leader stands alone, unless nothing is stored.**  The leader rotates to
another key than the DEK, and a replica applies all the leader has committed. -/
theorem Cluster.OneKey.rotate_agree_iff (hA : A.Lawful) (hJ : J.Lawful) {boot : StartConfig}
    {dek : Bytes} {c : Cluster P} (h : c.OneKey A J boot dek) {t : RotateDraw}
    (hf : t.Fits (contentsAfter c.log)) {newKey : { key : Bytes // key.length = EncryptionKeySize }}
    (hk : t.newKey = some newKey) (hne : newKey.1 ≠ dek) (hr : c.replicas.lookup c.leader = some r)
    {n : Nat} (ht : Controller.rotate A J r.store t = (s, .rotated n)) {j : GoString} {r' : Replica}
    (hj : c.replicas.lookup j = some r') (hjl : j ≠ c.leader) :
    (((c.step A J boot (.rotate t)).step A J boot
        (.deliver j (c.log ++ rotateEntries A J r.store t).length)).Agree A ↔
      contentsAfter c.log = ∅) := by
  obtain ⟨r₀, hr₀, ha⟩ := h.leader
  cases hr.symm.trans hr₀
  have hseal := (h.replicas _ r hr).sealedUnder hJ h.size h.entries
  rw [ha, take_length] at hseal
  obtain ⟨hfsm, hfold, hnil⟩ := rotate_entries hA hseal hf ht
  obtain ⟨hs₁, hs₂, newKey', hk', henc, -⟩ :=
    Holds.rotateTick hA hJ hseal.holds hseal.current hseal.encKey_ne_nil hf ht
  cases hk.symm.trans hk'
  generalize hL : c.log ++ rotateEntries A J r.store t = L
  have hcont : contentsAfter L = contentsAfter c.log := by
    rw [← hL, contentsAfter, foldl_append]; exact hfold
  have hmach : s.fsm = machineAfter J L := by
    rw [hfsm, (h.replicas _ r hr).machine, ha, take_length, ← machineAfter_append, hL]
  have hr' : (r'.catchUp J L L.length).Follows J dek L :=
    (hL ▸ (h.replicas _ r' hj).append _).catchUp _
  have hall : (r'.catchUp J L L.length).applied = L.length :=
    (hL ▸ (h.replicas _ r' hj).append _).catchUp_all
  -- the cluster after the two events
  have hstep : (c.step A J boot (.rotate t)).step A J boot (.deliver j L.length) =
      { c with
        log := L
        replicas := (c.replicas.insert c.leader ⟨s, L.length⟩).insert j
          (r'.catchUp J L L.length) } := by
    simp only [Cluster.step, hr, ht, Cluster.commit, hL, Finmap.lookup_insert_of_ne _ hjl, hj]
  rw [hstep]
  constructor
  · intro hagree
    have hread := hagree.reads j _ (Finmap.lookup_insert ..) hall
    have hunder : SealedUnder A s (contentsAfter L) newKey.1 :=
      ⟨hcont ▸ hs₁, hs₂, henc, newKey.2⟩
    have hsame : (r'.catchUp J L L.length).store.fsm = s.fsm := by
      rw [hr'.machine, hall, take_length, hmach]
    rcases (hunder.reopen hA hsame hr'.prevEncKey (hr'.encKey ▸ h.size)).mp hread with e | e
    · exact absurd (e.trans hr'.encKey) hne
    · exact hcont ▸ e
  · intro hempty
    have hLlog : L = c.log := by rw [← hL, hnil hempty, append_nil]
    subst hLlog
    refine agree_of_holds hA fun i q hi => ?_
    dsimp only at hi ⊢
    rw [Finmap.lookup_insert_eq] at hi
    split at hi
    · cases hi; exact (hr'.sealedUnder hJ h.size h.entries).holds
    · rw [Finmap.lookup_insert_eq] at hi
      split at hi
      · cases hi
        rw [take_length, hempty]
        exact hempty ▸ hs₁
      · exact ((h.replicas i q hi).sealedUnder hJ h.size h.entries).holds

/-- A bootstrap node, just started. -/
theorem oneKey_bootCluster (hP : P.Lawful) {boot : StartConfig} (hb : boot.bootstrap = true)
    {svc₀ svc : IdentityService P} {files : Files} {draw : StartDraw P} {p : ApiServer P}
    (hstart : start boot svc₀ files Fsm.fresh draw = .ok p) (hsvc : p.identity = some svc)
    (hdek : p.store.encKey.bytes.length = EncryptionKeySize) :
    (bootCluster boot p svc).OneKey A J boot p.store.encKey.bytes := by
  obtain ⟨st, hst, hfiles, hfsm, henc, hprev, hid⟩ := start_ok hstart
  obtain ⟨ca, hca, hload⟩ := loadOrBootstrapIdentity_persists hP hb hst
  refine ⟨hdek, fun e he => absurd he not_mem_nil, ?_, ⟨ca, ?_⟩, fun i r hi => ?_,
    ⟨_, Finmap.lookup_singleton_eq, rfl⟩⟩
  · rw [hid, hca] at hsvc
    cases hsvc
    exact henc.symm
  · rw [bootCluster, hfiles, henc]; exact hload
  · have : r = ⟨p.store, 0⟩ := by
      by_cases e : i = boot.nodeID
      · subst e
        rw [bootCluster, Finmap.lookup_singleton_eq] at hi
        cases hi; rfl
      · rw [bootCluster, Finmap.lookup_eq_none.mpr (by simpa using e)] at hi
        cases hi
    subst this
    exact ⟨le_rfl, hfsm, rfl, hprev⟩

/-- **Replicas agree as long as no key is rotated, and not after.**  From the start of a bootstrap
node, over every run without a rotation, replicas agree in every state.  When the leader then
rotates to a key other than the DEK, and another replica applies all that is committed, the cluster
agrees if and only if nothing is stored. -/
theorem replicas_agree (hA : A.Lawful) (hJ : J.Lawful) (hP : P.Lawful) {boot : StartConfig}
    (hb : boot.bootstrap = true) {svc₀ svc : IdentityService P} {files : Files} {draw : StartDraw P}
    {p : ApiServer P} (hstart : start boot svc₀ files Fsm.fresh draw = .ok p)
    (hsvc : p.identity = some svc) (hdek : p.store.encKey.bytes.length = EncryptionKeySize)
    (es : List (ClusterEvent P)) (hes : ∀ e ∈ es, e.Valid ∧ e.KeepsKey) :
    (∀ before, before <+: es → ((bootCluster boot p svc).run A J boot before).Agree A) ∧
      ∀ (c : Cluster P), c = (bootCluster boot p svc).run A J boot es →
        ∀ (t : RotateDraw) (r r' : Replica) (j : GoString), t.Fits (contentsAfter c.log) →
          c.replicas.lookup c.leader = some r →
          (∃ s n, Controller.rotate A J r.store t = (s, .rotated n)) →
          (∀ newKey, t.newKey = some newKey → newKey.1 ≠ p.store.encKey.bytes) →
          c.replicas.lookup j = some r' → j ≠ c.leader →
          (((c.step A J boot (.rotate t)).step A J boot
              (.deliver j (c.log ++ rotateEntries A J r.store t).length)).Agree A ↔
            contentsAfter c.log = ∅) := by
  have h₀ := oneKey_bootCluster (A := A) (J := J) hP hb hstart hsvc hdek
  refine ⟨fun before hb' => ?_, ?_⟩
  · exact (h₀.run hJ before fun e he => hes e (hb'.subset he)).agree hA hJ
  · rintro c rfl t r r' j hf hr ⟨s, n, ht⟩ hne hj hjl
    obtain ⟨newKey, -, hk, -⟩ := rotate_rotated ht
    exact (h₀.run hJ es hes).rotate_agree_iff hA hJ hf hk (hne newKey hk) hr ht hj hjl

/-- The bootstrap node starts, `a ↦ [1]` is put, and a second node joins. -/
def putAndJoin : List (ClusterEvent samplePki) :=
  [.put (goString "a") [1] goodDraw, .start (goString "node-2") sampleDraw]

theorem putAndJoin_keeps : ∀ e ∈ putAndJoin, e.Valid ∧ e.KeepsKey := by
  simp [putAndJoin, ClusterEvent.Valid, ClusterEvent.KeepsKey, validUtf8_goString]

/-- The cluster after `putAndJoin`. -/
noncomputable def joined : Cluster samplePki :=
  (bootCluster sampleConfig sampleServer sampleService).run tagAead sampleJson sampleConfig
    putAndJoin

/-- Two replicas, in every state of a put and a join, and after a rotation. -/
theorem replicas_agree_sample :
    (∀ before, before <+: putAndJoin →
      ((bootCluster sampleConfig sampleServer sampleService).run tagAead sampleJson sampleConfig
        before).Agree tagAead) ∧
    (((joined.step tagAead sampleJson sampleConfig (.rotate sampleTick)).step tagAead sampleJson
        sampleConfig (.deliver (goString "node-2") 2)).Agree tagAead ↔
      contentsAfter joined.log = ∅) := by
  obtain ⟨h₁, h₂⟩ := replicas_agree tagAead_lawful sampleJson_lawful samplePki_lawful rfl
    sampleServer_started rfl rfl putAndJoin putAndJoin_keeps
  refine ⟨h₁, h₂ joined rfl sampleTick ⟨storeOne 1 (encKeyOf 1) .none, 1⟩
    ⟨newOne, 0⟩ (goString "node-2") ⟨by decide, by decide⟩ rfl ⟨_, _, rfl⟩ ?_ rfl (by decide)⟩
  intro newKey hk
  cases hk
  decide

/-- **A rotation splits the replicas.**  A put and a join; the leader rotates; the second node
applies all that is committed.  The two have applied the same prefix; the leader reads `[1]`, and
the other, which may be the next leader, cannot read. -/
theorem rotation_splits_replicas :
    ∃ r r', ((bootCluster sampleConfig sampleServer sampleService).run tagAead sampleJson
        sampleConfig (putAndJoin ++ [.rotate sampleTick, .deliver (goString "node-2") 2])
        ).replicas.lookup (goString "node-1") = some r ∧
      ((bootCluster sampleConfig sampleServer sampleService).run tagAead sampleJson
        sampleConfig (putAndJoin ++ [.rotate sampleTick, .deliver (goString "node-2") 2])
        ).replicas.lookup (goString "node-2") = some r' ∧
      r.applied = r'.applied ∧ r.store.get tagAead (goString "a") = .ok [1] ∧
      r'.store.get tagAead (goString "a") = .error .unauthentic :=
  ⟨_, _, rfl, rfl, rfl, rfl, rfl⟩

end NimbusCore.Identity
