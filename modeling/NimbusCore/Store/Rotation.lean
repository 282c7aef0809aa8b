import NimbusCore.Store.Refinement

/-!
# Store — key rotation over runs

A run on one leader: puts, deletes, rotations and re-encryptions, each of which may fail, the
re-encryption at any of its writes.  `World` carries beside the store the plaintext contents that
the successful writes make up.

The store keeps two keys.  A rotation forgets the previous one, so it must find every value under
the current one.  `readable_iff_rotations_ok`: on every run, every value stays readable if and only
if each rotation is called when every stored value opens under the current key (`UnderCurrentKey`).
Nothing in the code sees to that.  A re-encryption that fails leaves values behind under the
previous key, and the next rotation drops it (`second_rotation_loses_value`); and a store opened
without a key holds plaintext, which no key opens.
-/

namespace NimbusCore.Store

open List

variable {A : Aead} {J : Json} {w : World}

/-- A call on the leader, with what it meets. -/
inductive Event where
  | put (key : GoString) (value : Bytes) (draw : Draw)
  | delete (key : GoString) (answer : RaftAnswer)
  | rotate (newKey : Bytes)
  | reencrypt (listOrder order : List GoString) (draws : Nat → Draw)

/-- The store, and the contents its successful writes make up. -/
structure World where
  store : RaftStore
  contents : Data

/-- One call.  A call that fails leaves the store as it was, but for the writes a re-encryption
has made before it stopped. -/
def World.step (A : Aead) (J : Json) (w : World) : Event → World
  | .put k v d => match w.store.put A J k v d with
    | .ok s => ⟨s, w.contents.insert k v⟩
    | .error _ => w
  | .delete k a => match w.store.delete J k a with
    | .ok s => ⟨s, w.contents.erase k⟩
    | .error _ => w
  | .rotate newKey => match w.store.rotateEncryptionKey newKey with
    | .ok s => ⟨s, w.contents⟩
    | .error _ => w
  | .reencrypt listOrder order draws =>
    ⟨(w.store.reencryptAll A J listOrder order draws).1, w.contents⟩

/-- The world after a run. -/
def World.run (A : Aead) (J : Json) (w : World) (es : List Event) : World :=
  es.foldl (World.step A J) w

/-- `newKey` opens nothing the store holds. -/
def Fresh (A : Aead) (s : RaftStore) (newKey : Bytes) : Prop :=
  ∀ k c, s.fsm.data.lookup k = some c → ∃ e, decryptValue A newKey c = .error e

/-- The calls a leader receives: keys are valid UTF-8, a rotation brings a fresh 32-byte key, and
loops over maps visit each key once. -/
def Event.Fits (A : Aead) (s : RaftStore) : Event → Prop
  | .put k _ _ | .delete k _ => ValidUtf8 k
  | .rotate newKey => newKey.length = EncryptionKeySize ∧ Fresh A s newKey
  | .reencrypt listOrder order _ => Finmap.IsOrder listOrder s.fsm.data ∧
      ∀ all, s.list A [] listOrder = .ok all → Finmap.IsOrder order all

/-- A run of such calls. -/
def World.Admits (A : Aead) (J : Json) : World → List Event → Prop
  | _, [] => True
  | w, e :: es => e.Fits A w.store ∧ World.Admits A J (w.step A J e) es

/-- Every key reads as the plaintext last put under it, and no listing fails. -/
def World.Readable (A : Aead) (w : World) : Prop :=
  (∀ k, w.store.get A k = (MemStore.mk w.contents).get k) ∧
  ∀ pfx order, Finmap.IsOrder order (w.store.fsm.list pfx) →
    w.store.list A pfx order = .ok ((MemStore.mk w.contents).list pfx)

theorem Holds.readable (hA : A.Lawful) (h : Holds A w.store w.contents) :
    w.Readable A :=
  ⟨h.get hA, fun pfx _ ho => h.list hA pfx ho⟩

/-- **One call keeps the contents**, if it is not a rotation, or finds every value under the
current key. -/
theorem Holds.step (hA : A.Lawful) (hJ : J.Lawful) (h : Holds A w.store w.contents)
    {e : Event} (hf : e.Fits A w.store)
    (hr : ∀ newKey, e = .rotate newKey → UnderCurrentKey A w.store) :
    Holds A (w.step A J e).store (w.step A J e).contents := by
  cases e with
  | put k v d =>
    cases hp : w.store.put A J k v d with
    | error _ => simpa only [World.step, hp] using h
    | ok s => simpa only [World.step, hp] using h.put hJ hf hp
  | delete k a =>
    cases hp : w.store.delete J k a with
    | error _ => simpa only [World.step, hp] using h
    | ok s => simpa only [World.step, hp] using h.delete hJ hf hp
  | rotate newKey =>
    cases hp : w.store.rotateEncryptionKey newKey with
    | error _ => simpa only [World.step, hp] using h
    | ok s => simpa only [World.step, hp] using h.rotate hA (hr newKey rfl) hp
  | reencrypt listOrder order draws =>
    have hl := h.list hA [] (by rw [Fsm.list, Data.listing_nil]; exact hf.1)
    have ho := hf.2 _ hl
    rw [MemStore.list, Data.listing_nil] at ho
    exact (h.reencryptAll hA hJ hf.1 ho draws rfl).1

/-- **A rotation that finds a value under another key makes it unreadable.** -/
theorem not_readable_of_rotate (h : Holds A w.store w.contents) {newKey : Bytes}
    (hf : (Event.rotate newKey).Fits A w.store) (hu : ¬ UnderCurrentKey A w.store) :
    ¬ (w.step A J (.rotate newKey)).Readable A := by
  obtain ⟨hlen, hfresh⟩ := hf
  simp only [UnderCurrentKey, not_forall, not_exists] at hu
  obtain ⟨k, c, hc, hno⟩ := hu
  obtain ⟨p, hp, -⟩ := h.stores hc
  obtain ⟨e, he⟩ := hfresh k c hc
  have hstep : w.step A J (.rotate newKey) =
      ⟨{ w.store with prevEncKey := w.store.encKey, encKey := ⟨newKey, .inr hlen⟩ },
        w.contents⟩ := by
    simp only [World.step, RaftStore.rotateEncryptionKey, dif_pos hlen]
  intro hread
  have hget := hread.1 k
  rw [hstep, MemStore.get, hp, RaftStore.get, Fsm.get, hc] at hget
  -- neither the new key nor the one just replaced opens the value
  have hnew : newKey ≠ [] := by rintro rfl; simp [EncryptionKeySize] at hlen
  simp only [RaftStore.decrypt, length_eq_zero_iff, hnew, if_false, he] at hget
  cases hd : decryptValue A w.store.encKey.bytes c with
  | ok p' => exact hno p' hd
  | error e' =>
    rw [hd] at hget
    split at hget <;> cases hget

/-- Every rotation of the run is called when every value is under the current key. -/
def RotationsOk (A : Aead) (J : Json) (w : World) (es : List Event) : Prop :=
  ∀ before newKey after, es = before ++ .rotate newKey :: after →
    UnderCurrentKey A (w.run A J before).store

theorem rotationsOk_cons {e : Event} {es : List Event} :
    RotationsOk A J w (e :: es) ↔
      (∀ newKey, e = .rotate newKey → UnderCurrentKey A w.store) ∧
        RotationsOk A J (w.step A J e) es := by
  constructor
  · intro h
    refine ⟨fun newKey he => h [] newKey es (by rw [he]; rfl), fun before newKey after he => ?_⟩
    exact h (e :: before) newKey after (by rw [he]; rfl)
  · rintro ⟨h₁, h₂⟩ before newKey after he
    cases before with
    | nil => cases he; exact h₁ newKey rfl
    | cons e' before => cases he; exact h₂ before newKey after rfl

/-- Readability in every state of a run, from a world whose store holds its contents. -/
theorem Holds.readable_iff (hA : A.Lawful) (hJ : J.Lawful) :
    ∀ (es : List Event) {w : World}, Holds A w.store w.contents → w.Admits A J es →
      ((∀ before, before <+: es → (w.run A J before).Readable A) ↔ RotationsOk A J w es)
  | [], w, h, _ => by
    constructor
    · rintro - before newKey after he
      exact absurd he (by simp)
    · rintro - before hb
      rw [prefix_nil.mp hb]
      exact h.readable hA
  | e :: es, w, h, ⟨hf, hadm⟩ => by
    rw [rotationsOk_cons]
    have hpre : (∀ before, before <+: e :: es → (w.run A J before).Readable A) ↔
        ∀ before, before <+: es → ((w.step A J e).run A J before).Readable A := by
      constructor
      · intro hall before hb
        exact hall (e :: before) (cons_prefix_cons.mpr ⟨rfl, hb⟩)
      · intro hall before hb
        rcases before with _ | ⟨e', before⟩
        · exact h.readable hA
        obtain ⟨rfl, hb'⟩ := cons_prefix_cons.mp hb
        exact hall before hb'
    rw [hpre]
    by_cases hr : ∀ newKey, e = .rotate newKey → UnderCurrentKey A w.store
    · rw [readable_iff hA hJ es (h.step hA hJ hf hr) hadm]
      exact ⟨fun h' => ⟨hr, h'⟩, fun h' => h'.2⟩
    · refine ⟨fun hall => ?_, fun h' => absurd h'.1 hr⟩
      simp only [not_forall] at hr
      obtain ⟨newKey, rfl, hu⟩ := hr
      exact absurd (hall [] nil_prefix) (not_readable_of_rotate (J := J) h hf hu)

/-- **Rotation keeps every value readable exactly when each rotation finds every value under the
current key.**  From a store opened with any key `NewRaftStore` accepts, over every run of puts,
deletes, rotations to fresh keys and re-encryptions that may fail anywhere. -/
theorem readable_iff_rotations_ok (hA : A.Lawful) (hJ : J.Lawful) {nodeID : GoString} {key : Bytes}
    {s : RaftStore} (hs : newRaftStore nodeID key Fsm.fresh = .ok s) (es : List Event)
    (hadm : (World.mk s ∅).Admits A J es) :
    (∀ before, before <+: es → ((World.mk s ∅).run A J before).Readable A) ↔
      RotationsOk A J ⟨s, ∅⟩ es :=
  Holds.readable_iff hA hJ es (holds_fresh hs) hadm

/-! ### Concrete runs -/

/-- A 32-byte key. -/
def keyOf (b : UInt8) : Bytes := List.replicate EncryptionKeySize b

/-- What the store keeps for `[1]` under `keyOf b`, sealed with the zero nonce. -/
def sealedOne (b : UInt8) : Bytes := List.replicate nonceSize 0 ++ keyOf b ++ [1]

/-- A store that holds `a ↦ [1]` under `keyOf b`. -/
def storeOne (b : UInt8) (enc prev : EncKey) : RaftStore :=
  ⟨⟨Finmap.singleton (goString "a") (sealedOne b)⟩, enc, prev⟩

def encKeyOf (b : UInt8) : EncKey := ⟨keyOf b, .inr (length_replicate ..)⟩

theorem lookup_storeOne {b : UInt8} {enc prev : EncKey} {k : GoString} {c : Bytes}
    (h : (storeOne b enc prev).fsm.data.lookup k = some c) : c = sealedOne b := by
  have hmem := Finmap.lookup_eq_some_iff.mp h
  simp only [storeOne, Finmap.singleton, AList.singleton, AList.toFinmap] at hmem
  cases mem_singleton.mp hmem
  rfl

theorem fresh_storeOne (b b' : UInt8) (enc prev : EncKey) (h : keyOf b' ≠ keyOf b) :
    Fresh tagAead (storeOne b enc prev) (keyOf b') := by
  intro k c hc
  rw [lookup_storeOne hc]
  have hs : Sealed tagAead (keyOf b) (sealedOne b) [1] :=
    ⟨length_replicate .., ⟨List.replicate nonceSize 0, rfl⟩, append_assoc ..⟩
  exact decryptValue_other tagAead_lawful hs h

/-- A put, a rotation, and its re-encryption, whose first write meets `d`. -/
def putRotate (d : Draw) : List Event :=
  [.put (goString "a") [1] goodDraw, .rotate (keyOf 2),
    .reencrypt [goString "a"] [goString "a"] fun _ => d]

/-- A write that raft does not commit. -/
def failedDraw : Draw := ⟨goodDraw.nonce, .failed⟩

/-- A new store under `keyOf 1`. -/
def newOne : RaftStore := ⟨.fresh, encKeyOf 1, .none⟩

theorem admits_putRotate (d : Draw) (es : List Event)
    (h : ((World.mk newOne ∅).run tagAead sampleJson (putRotate d)).Admits tagAead sampleJson es) :
    (World.mk newOne ∅).Admits tagAead sampleJson (putRotate d ++ es) := by
  refine ⟨validUtf8_goString "a", ⟨length_replicate .., ?_⟩, ⟨by decide, fun all hl => ?_⟩, h⟩
  · exact fresh_storeOne 1 2 (encKeyOf 1) .none (by decide)
  · have hm : (storeOne 1 (encKeyOf 2) (encKeyOf 1)).list tagAead [] [goString "a"] =
        .ok (Finmap.singleton (goString "a") [1]) := rfl
    cases hm.symm.trans hl
    decide

theorem newOne_opened : newRaftStore (goString "node-1") (keyOf 1) Fsm.fresh = .ok newOne := rfl

/-- A rotation with its re-encryption, and the readability of every state on the way. -/
theorem readable_iff_rotations_ok_sample :
    newRaftStore (goString "node-1") (keyOf 1) Fsm.fresh = .ok newOne ∧
      ((∀ before, before <+: putRotate goodDraw →
          ((World.mk newOne ∅).run tagAead sampleJson before).Readable tagAead) ↔
        RotationsOk tagAead sampleJson ⟨newOne, ∅⟩ (putRotate goodDraw)) :=
  ⟨newOne_opened, readable_iff_rotations_ok tagAead_lawful sampleJson_lawful newOne_opened
    (putRotate goodDraw) (admits_putRotate goodDraw [] trivial)⟩

/-- **The second rotation loses a value.**  A put; a rotation whose re-encryption fails at its
first write; the next rotation.  The value is still among the contents, and no longer reads. -/
theorem second_rotation_loses_value :
    newRaftStore (goString "node-1") (keyOf 1) Fsm.fresh = .ok newOne ∧
      (World.mk newOne ∅).Admits tagAead sampleJson
        (putRotate failedDraw ++ [.rotate (keyOf 3)]) ∧
      ((World.mk newOne ∅).run tagAead sampleJson
        (putRotate failedDraw ++ [.rotate (keyOf 3)])).contents.lookup (goString "a") = some [1] ∧
      ((World.mk newOne ∅).run tagAead sampleJson
        (putRotate failedDraw ++ [.rotate (keyOf 3)])).store.get tagAead (goString "a") =
          .error .unauthentic := by
  refine ⟨newOne_opened, admits_putRotate _ _ ⟨⟨length_replicate .., ?_⟩, trivial⟩, rfl, rfl⟩
  exact fresh_storeOne 1 3 (encKeyOf 2) (encKeyOf 1) (by decide)

end NimbusCore.Store
