import NimbusCore.Identity.Bootstrap
import NimbusCore.Controller.KeyRotation
import NimbusCore.Store.Rotation

/-!
# Identity — a restart after key rotations

A bootstrap node starts, serves writes, rotates its key any number of times, and starts again over
the same data directory and the same raft log.  The rotation changes the key in memory only: the
saved state keeps the DEK of the first start (`persist.go` is called nowhere else), while every
value is by then sealed under the last key drawn.

`survives_restart_iff`: every read after the restart is right if and only if the last key drawn is
the DEK again — in particular if there was no rotation — or nothing is stored.  One put and one
rotation suffice to lose the value (`rotation_lost_by_restart`).
-/

namespace NimbusCore.Identity

open Store Controller Finmap

variable {P : Pki} {A : Aead} {J : Json}

/-! ### The process -/

/-- An apiserver: the files of its data directory, its store, and the identity service a bootstrap
node offers. -/
structure ApiServer (P : Pki) where
  files : Files
  store : RaftStore
  identity : Option (IdentityService P)

/-- Why a start fails. -/
inductive StartError where
  /-- "apiserver: %v". -/
  | identity (err : IdentityError)
  /-- "apiserver: raft: %v". -/
  | raft (err : StoreError)

/-- The start of `nimbus-apiserver`, over the machine its raft log and snapshots reproduce. -/
def start (cfg : StartConfig) (svc : IdentityService P) (files : Files) (disk : Fsm)
    (draw : StartDraw P) : Except StartError (ApiServer P) := do
  let st ← (loadOrBootstrapIdentity cfg svc files draw).mapError .identity
  let store ← (newRaftStore cfg.nodeID st.dek disk).mapError .raft
  return { files := st.files
           store := store
           identity := st.ca.map fun ca => ⟨ca, cfg.joinToken, defaultSVIDTTL, st.dek⟩ }

/-- The store of a start is opened with the DEK of the start, over the given machine. -/
theorem start_ok {cfg : StartConfig} {svc : IdentityService P} {files : Files} {disk : Fsm}
    {draw : StartDraw P} {p : ApiServer P} (h : start cfg svc files disk draw = .ok p) :
    ∃ st, loadOrBootstrapIdentity cfg svc files draw = .ok st ∧ p.files = st.files ∧
      p.store.fsm = disk ∧ p.store.encKey.bytes = st.dek ∧ p.store.prevEncKey = .none ∧
      p.identity = st.ca.map fun ca => ⟨ca, cfg.joinToken, defaultSVIDTTL, st.dek⟩ := by
  simp only [start, Except.bind_eq_ok, Except.mapError_eq_ok] at h
  obtain ⟨st, hst, s, hs, h⟩ := h
  cases h
  refine ⟨st, hst, rfl, ?_⟩
  simp only [newRaftStore] at hs
  split at hs
  · cases hs
  · split at hs
    · cases hs; exact ⟨rfl, rfl, rfl, rfl⟩
    · cases hs

/-! ### Runs -/

/-- A call on the running process. -/
inductive Work where
  | put (key : GoString) (value : Bytes) (draw : Draw)
  | delete (key : GoString) (answer : RaftAnswer)
  | rotate (draw : RotateDraw)

/-- One call; `none` when it does not succeed. -/
def Work.perform (A : Aead) (J : Json) (s : RaftStore) : Work → Option RaftStore
  | .put k v d => (s.put A J k v d).toOption
  | .delete k a => (s.delete J k a).toOption
  | .rotate d => match Controller.rotate A J s d with
    | (s', .rotated _) => some s'
    | _ => none

/-- What a successful call does to the plaintext contents. -/
def Work.onContents (m : Data) : Work → Data
  | .put k v _ => m.insert k v
  | .delete k _ => m.erase k
  | .rotate _ => m

/-- The key in use after a successful call. -/
def Work.onKey (key : Bytes) : Work → Bytes
  | .rotate d => (d.newKey.map Subtype.val).getD key
  | _ => key

/-- The contents a successful run makes up. -/
def contentsOf (ws : List Work) : Data := ws.foldl Work.onContents ∅

/-- The last key a successful run draws, if it draws one, and the key it started with if not. -/
def lastKey (key : Bytes) (ws : List Work) : Bytes := ws.foldl Work.onKey key

/-- Keys are valid UTF-8, and loops over maps visit each key once. -/
def Work.Fits (m : Data) : Work → Prop
  | .put k _ _ | .delete k _ => ValidUtf8 k
  | .rotate d => d.Fits m

def AdmitsWork : Data → List Work → Prop
  | _, [] => True
  | m, w :: ws => w.Fits m ∧ AdmitsWork (w.onContents m) ws

/-- Every value is stored under the current key `key`. -/
structure SealedUnder (A : Aead) (s : RaftStore) (m : Data) (key : Bytes) : Prop where
  holds : Holds A s m
  current : ∀ k, CurrentAt A s k
  encKey : s.encKey.bytes = key
  size : key.length = EncryptionKeySize

theorem SealedUnder.encKey_ne_nil {s : RaftStore} {m : Data} {key : Bytes}
    (h : SealedUnder A s m key) : s.encKey.bytes ≠ [] := fun e => by
  have hs := h.size
  rw [← h.encKey, e] at hs
  simp [EncryptionKeySize] at hs

theorem SealedUnder.perform (hA : A.Lawful) (hJ : J.Lawful) {s s' : RaftStore} {m : Data}
    {key : Bytes} (h : SealedUnder A s m key) {w : Work} (hf : w.Fits m)
    (hp : w.perform A J s = some s') : SealedUnder A s' (w.onContents m) (w.onKey key) := by
  cases w with
  | put k v d =>
    simp only [Work.perform] at hp
    cases hput : s.put A J k v d with
    | error e => rw [hput] at hp; cases hp
    | ok t =>
      rw [hput] at hp; cases hp
      refine ⟨h.holds.put hJ hf hput, fun j => currentAt_put hJ hf hput (.inr (h.current j)),
        ?_, h.size⟩
      obtain ⟨c, -, rfl⟩ := RaftStore.put_ok hJ hf hput
      exact h.encKey
  | delete k a =>
    simp only [Work.perform] at hp
    cases hdel : s.delete J k a with
    | error e => rw [hdel] at hp; cases hp
    | ok t =>
      rw [hdel] at hp; cases hp
      refine ⟨h.holds.delete hJ hf hdel, fun j => currentAt_delete hJ hf hdel (h.current j),
        ?_, h.size⟩
      cases RaftStore.delete_ok hJ hf hdel
      exact h.encKey
  | rotate d =>
    simp only [Work.perform] at hp
    split at hp
    · next s₁ n ht =>
      cases hp
      obtain ⟨h₁, h₂, newKey, hk, henc, -⟩ :=
        Holds.rotateTick hA hJ h.holds h.current h.encKey_ne_nil hf ht
      have hkey : (Work.rotate d).onKey key = newKey.1 := by simp [Work.onKey, hk]
      exact ⟨h₁, h₂, henc.trans hkey.symm, hkey ▸ newKey.2⟩
    · cases hp

/-- **A successful run leaves every value under the last key drawn.** -/
theorem SealedUnder.run (hA : A.Lawful) (hJ : J.Lawful) :
    ∀ (ws : List Work) {s s' : RaftStore} {m : Data} {key : Bytes}, SealedUnder A s m key →
      AdmitsWork m ws → ws.foldlM (Work.perform A J) s = some s' →
      SealedUnder A s' (ws.foldl Work.onContents m) (ws.foldl Work.onKey key)
  | [], _, _, _, _, h, _, hr => by cases hr; exact h
  | w :: ws, s, _, _, _, h, ⟨hf, hw⟩, hr => by
    rw [List.foldlM_cons] at hr
    cases hp : w.perform A J s with
    | none => rw [hp] at hr; cases hr
    | some s₁ => rw [hp] at hr; exact (h.perform hA hJ hf hp).run hA hJ ws hw hr

/-- What a store with the key `dek` reads of values that are all under `key`. -/
theorem SealedUnder.reopen (hA : A.Lawful) {s t : RaftStore} {m : Data} {key : Bytes}
    (h : SealedUnder A s m key) (hfsm : t.fsm = s.fsm) (hprev : t.prevEncKey = .none)
    (hlen : t.encKey.bytes.length = EncryptionKeySize) :
    (∀ k, t.get A k = (MemStore.mk m).get k) ↔ key = t.encKey.bytes ∨ m = ∅ := by
  have h0 : t.encKey.bytes ≠ [] := fun e => by rw [e] at hlen; simp [EncryptionKeySize] at hlen
  constructor
  · intro hget
    by_contra hn
    rw [not_or] at hn
    obtain ⟨hne, hm⟩ := hn
    obtain ⟨k, p, hp⟩ : ∃ k p, m.lookup k = some p := by
      by_contra hnone
      refine hm (ext_lookup fun k => ?_)
      cases hk : m.lookup k with
      | none => rw [lookup_empty]
      | some p => exact absurd ⟨k, p, hk⟩ hnone
    obtain ⟨c, hc, -⟩ := h.holds.lookup_some hp
    obtain ⟨p', hp'⟩ : ∃ p', Sealed A key c p' := by
      rcases h.current k c hc with e | hs
      · exact absurd e h.encKey_ne_nil
      · rwa [h.encKey] at hs
    obtain ⟨err, herr⟩ := decryptValue_other hA hp' (Ne.symm hne)
    obtain ⟨p'', -, hd⟩ := Reads.lookup hget (hfsm ▸ hc)
    simp only [RaftStore.decrypt, List.length_eq_zero_iff, h0, if_false, herr, hprev] at hd
    split at hd
    · next hlt => simp [EncKey.none] at hlt
    · cases hd
  · rintro (hkey | rfl)
    · have ht : t = { s with prevEncKey := .none } := by
        cases t; cases s
        simp only at hfsm hprev
        simp only [RaftStore.mk.injEq]
        exact ⟨hfsm, EncKey.ext (hkey.symm.trans h.encKey.symm), hprev⟩
      rw [ht]
      exact (h.holds.dropPrev hA fun k _ => h.current k).get hA
    · intro k
      have hnone : s.fsm.data.lookup k = none := h.holds.lookup_none.mpr (lookup_empty k)
      rw [RaftStore.get, Fsm.get, hfsm, hnone, MemStore.get, lookup_empty]

/-- **The data survives a restart exactly when the last key drawn is the DEK, or nothing is
stored.**  For every first start of a bootstrap node, every run of puts, deletes and rotations that
all succeed, and every second start over the same files and the same machine. -/
theorem survives_restart_iff (hA : A.Lawful) (hJ : J.Lawful) (hP : P.Lawful) {cfg : StartConfig}
    (hb : cfg.bootstrap = true) {svc svc' : IdentityService P} {files : Files}
    {draw draw' : StartDraw P} {p p' : ApiServer P}
    (hstart : start cfg svc files Fsm.fresh draw = .ok p)
    (hdek : p.store.encKey.bytes.length = EncryptionKeySize) {ws : List Work}
    (hw : AdmitsWork ∅ ws) {s : RaftStore} (hrun : ws.foldlM (Work.perform A J) p.store = some s)
    (hrestart : start cfg svc' p.files s.fsm draw' = .ok p') :
    (∀ k, p'.store.get A k = (MemStore.mk (contentsOf ws)).get k) ↔
      lastKey p.store.encKey.bytes ws = p.store.encKey.bytes ∨ contentsOf ws = ∅ := by
  obtain ⟨st, hst, hfiles, hfsm, henc, -, -⟩ := start_ok hstart
  obtain ⟨st', hst', -, hfsm', henc', hprev', -⟩ := start_ok hrestart
  obtain ⟨ca, -, hload⟩ := loadOrBootstrapIdentity_persists hP hb hst
  obtain ⟨-, -, hdek'⟩ := loadOrBootstrapIdentity_reuses hb (hfiles ▸ hload) hst'
  have hkey : p'.store.encKey.bytes = p.store.encKey.bytes := by rw [henc', henc, hdek']
  have hnone : ∀ k, p.store.fsm.data.lookup k = none := fun k => by
    rw [hfsm]; exact lookup_empty k
  have h₀ : SealedUnder A p.store ∅ p.store.encKey.bytes :=
    ⟨⟨fun k => by rw [hnone, lookup_empty]; exact .none,
        fun k hk => absurd hk notMem_empty⟩,
      fun k c hc => (by rw [hnone] at hc; cases hc), rfl, hdek⟩
  rw [← hkey] at hdek ⊢
  exact (h₀.run hA hJ ws hw hrun).reopen hA hfsm' hprev' hdek |>.trans (by rw [hkey]; rfl)

/-! ### Concrete runs -/

/-- Libraries whose encodings are the values themselves. -/
def samplePki : Pki where
  TrustDomain := { td : GoString // td ≠ [] }
  SpiffeID := GoString × GoString
  PrivateKey := Bytes
  PublicKey := Bytes
  Certificate := Bytes
  Csr := Bytes
  trustDomainFromString td := if h : td ≠ [] then some ⟨td, h⟩ else none
  trustDomainString td := td.1
  fromPath td path := some (td.1, path)
  memberOf id td := id.1 = td.1
  publicKey key := key
  marshalECPrivateKey key := some key
  parseECPrivateKey der := some der
  raw cert := cert
  parseCertificate der := some der
  parseCertificateRequest der := some der
  checkSignature _ := true
  ecdsaPublicKey csr := some csr
  pemEncode _ der := der
  pemDecode text := some text
  marshalIndent st := frame st.trustDomain ++ (frame st.caKeyPem ++ (frame st.caCertPem ++
    frame st.dek))
  unmarshal raw := do
    let (trustDomain, raw) ← unframe raw
    let (caKeyPem, raw) ← unframe raw
    let (caCertPem, raw) ← unframe raw
    let (dek, _) ← unframe raw
    some ⟨trustDomain, caKeyPem, caCertPem, dek⟩
  selfSign seed _ _ := some seed
  sign seed _ _ _ _ _ := some seed

theorem samplePki_lawful : samplePki.Lawful where
  trustDomain td := dif_pos td.2
  key _ _ h := h.symm
  certificate _ := rfl
  pem _ _ := rfl
  json td key cert dek := by
    have h₄ : unframe (frame dek) = some (dek, []) := by simpa using unframe_frame dek []
    simp [samplePki, unframe_frame, h₄]

/-- The flags of a bootstrap node. -/
def sampleConfig : StartConfig :=
  { bootstrap := true, trustDomain := goString "nimbus.local", nodeID := goString "node-1",
    joinToken := goString "token", statePath := goString "data/bootstrap-identity.json" }

/-- A start at which everything goes well, and the DEK drawn is `keyOf 1`. -/
def sampleDraw : StartDraw samplePki :=
  { caKey := some [7], caSeed := some [8], dek := some ⟨keyOf 1, List.length_replicate ..⟩,
    mkdir := true, written := true, key := some [9], csr := some [10], reached := true,
    seed := some [11] }

/-- The service a bootstrap node would enrol at, which it does not. -/
def sampleService : IdentityService samplePki :=
  ⟨⟨⟨goString "nimbus.local", by decide⟩, [8], [7]⟩, goString "token", defaultSVIDTTL, keyOf 1⟩

/-- The bootstrap node after its first start. -/
def sampleServer : ApiServer samplePki :=
  { files := Finmap.singleton sampleConfig.statePath
      (samplePki.marshalIndent ⟨goString "nimbus.local", [7], [8], keyOf 1⟩)
    store := newOne
    identity := some sampleService }

/-- A tick that draws the key `keyOf 2` while `a` is the only key stored. -/
def sampleTick : RotateDraw :=
  ⟨some ⟨keyOf 2, List.length_replicate ..⟩, [goString "a"], [goString "a"], fun _ => goodDraw⟩

/-- A put, and a rotation. -/
def putThenRotate : List Work := [.put (goString "a") [1] goodDraw, .rotate sampleTick]

theorem sampleServer_started :
    start sampleConfig sampleService ∅ Fsm.fresh sampleDraw = .ok sampleServer := rfl

theorem putThenRotate_admitted : AdmitsWork ∅ putThenRotate :=
  ⟨validUtf8_goString "a", ⟨by decide, by decide⟩, trivial⟩

theorem putThenRotate_runs :
    putThenRotate.foldlM (Work.perform tagAead sampleJson) sampleServer.store =
      some (storeOne 2 (encKeyOf 2) .none) := rfl

theorem sampleServer_restarts (disk : Fsm) :
    start sampleConfig sampleService sampleServer.files disk sampleDraw =
      .ok { sampleServer with store := ⟨disk, encKeyOf 1, .none⟩ } := rfl

/-- The reads after a put, a rotation and a restart. -/
theorem survives_restart_iff_sample :
    (∀ k, RaftStore.get tagAead ⟨(storeOne 2 (encKeyOf 2) .none).fsm, encKeyOf 1, .none⟩ k =
        (MemStore.mk (contentsOf putThenRotate)).get k) ↔
      lastKey (keyOf 1) putThenRotate = keyOf 1 ∨ contentsOf putThenRotate = ∅ :=
  survives_restart_iff tagAead_lawful sampleJson_lawful samplePki_lawful rfl sampleServer_started
    rfl putThenRotate_admitted putThenRotate_runs (sampleServer_restarts _)

/-- **One rotation, and the restart loses the value.**  A first start, a put of `a ↦ [1]`, a
rotation that succeeds, and a second start that succeeds; the value does not open. -/
theorem rotation_lost_by_restart :
    start sampleConfig sampleService ∅ Fsm.fresh sampleDraw = .ok sampleServer ∧
      ∃ s p', putThenRotate.foldlM (Work.perform tagAead sampleJson) sampleServer.store = some s ∧
        start sampleConfig sampleService sampleServer.files s.fsm sampleDraw = .ok p' ∧
        (contentsOf putThenRotate).lookup (goString "a") = some [1] ∧
        p'.store.get tagAead (goString "a") = .error .unauthentic :=
  ⟨sampleServer_started, _, _, putThenRotate_runs, sampleServer_restarts _, rfl, rfl⟩

end NimbusCore.Identity
