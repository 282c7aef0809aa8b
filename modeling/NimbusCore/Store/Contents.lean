import NimbusCore.Store.Raft

/-!
# Store — the plaintext contents of the replicated store

`Holds A s m`: the store `s` holds exactly the plaintext contents `m` — the same keys, and under
each of them a value that reads back (`Stores`).  It is what every operation is specified by:

* `Reads.list`, `Holds.get`: reads are those of `memStore` over `m`.
* `Holds.put`, `Holds.delete`: a write that succeeds acts on `m` as it does on a plain map.
* `Holds.rotate`: a rotation keeps `m` when every stored value opens under the current key.
* `Holds.reencryptAll`: re-encryption keeps `m`, wherever it stops; when it reaches its end every
  value is under the current key, and the previous key is dropped.
-/

namespace NimbusCore.Store

open List Finmap RaftStore

variable {A : Aead} {J : Json}

/-! ### What the store reads as -/

/-- The store `s` reads as `m`: `Get` returns what `memStore` over `m` would, under every key. -/
def Reads (A : Aead) (s : RaftStore) (m : Data) : Prop :=
  ∀ k, s.get A k = (MemStore.mk m).get k

variable {k : GoString} {c v : Bytes} {order : List GoString} {d : Draw}

namespace Reads

variable {s s' : RaftStore} {m : Data}

theorem lookup (h : Reads A s m)
    (hc : s.fsm.data.lookup k = some c) : ∃ p, m.lookup k = some p ∧ s.decrypt A c = .ok p := by
  have hg := h k
  rw [RaftStore.get, Fsm.get, hc, MemStore.get] at hg
  cases hp : m.lookup k with
  | none => rw [hp] at hg; exact absurd hg (decrypt_ne_notFound s c)
  | some p => rw [hp] at hg; exact ⟨p, rfl, hg⟩

theorem lookup_none (h : Reads A s m) : s.fsm.data.lookup k = none ↔ m.lookup k = none := by
  have hg := h k
  rw [RaftStore.get, Fsm.get, MemStore.get] at hg
  constructor
  · intro h0
    rw [h0] at hg
    cases hp : m.lookup k with
    | none => rfl
    | some p => rw [hp] at hg; cases hg
  · intro h0
    cases hc : s.fsm.data.lookup k with
    | none => rfl
    | some c =>
      obtain ⟨p, hp, -⟩ := h.lookup hc
      rw [h0] at hp
      cases hp

/-- A store reads as `m` when its keys are those of `m` and each value decrypts to the one there. -/
theorem of_lookup (hn : ∀ k, s.fsm.data.lookup k = none → m.lookup k = none)
    (hd : ∀ k c, s.fsm.data.lookup k = some c → ∃ p, m.lookup k = some p ∧ s.decrypt A c = .ok p) :
    Reads A s m := by
  intro k
  rw [RaftStore.get, Fsm.get, MemStore.get]
  cases hc : s.fsm.data.lookup k with
  | none => rw [hn k hc]
  | some c =>
    obtain ⟨p, hp, hs⟩ := hd k c hc
    rw [hp]
    exact hs

/-- There is one such contents. -/
theorem unique {m' : Data} (h : Reads A s m) (h' : Reads A s m') : m = m' := by
  refine ext_lookup fun k => ?_
  have heq := (h k).symm.trans (h' k)
  rw [MemStore.get, MemStore.get] at heq
  split at heq <;> split at heq <;> simp_all

/-- **A store whose every value decrypts reads as some contents.** -/
theorem exists_of_decrypts
    (h : ∀ k c, s.fsm.data.lookup k = some c → ∃ p, s.decrypt A c = .ok p) : ∃ m, Reads A s m := by
  refine ⟨Finmap.ofKeys s.fsm.data.keys fun k => (s.get A k).toOption.getD [],
    of_lookup (fun k hk => ?_) fun k c hc => ?_⟩
  · rw [Finmap.lookup_ofKeys, if_neg]
    rwa [Finmap.mem_keys, ← Finmap.lookup_eq_none]
  · obtain ⟨p, hp⟩ := h k c hc
    refine ⟨p, ?_, hp⟩
    rw [Finmap.lookup_ofKeys, if_pos (mem_keys.mpr (mem_of_lookup_eq_some hc)),
      RaftStore.get, Fsm.get, hc]
    dsimp only
    rw [hp]
    rfl

/-- It has the keys of what it reads as. -/
theorem keys_eq (h : Reads A s m) : m.keys = s.fsm.data.keys := by
  ext k
  rw [Finmap.mem_keys, Finmap.mem_keys, ← not_iff_not, ← Finmap.lookup_eq_none,
    ← Finmap.lookup_eq_none, h.lookup_none]

/-- The loop of `List` adds the plaintexts of its entries to what it has. -/
theorem decryptAll (h : Reads A s m) :
    ∀ (es : List (GoString × Bytes)) (out : Data),
      (∀ e ∈ es, s.fsm.data.lookup e.1 = some e.2) →
      ∃ out', s.decryptAll A es out = .ok out' ∧
        ∀ k, out'.lookup k = if k ∈ es.map Prod.fst then m.lookup k else out.lookup k
  | [], out, _ => ⟨out, rfl, fun k => by simp⟩
  | (k₀, c) :: es, out, he => by
    obtain ⟨p, hp, hs⟩ := h.lookup (he (k₀, c) mem_cons_self)
    obtain ⟨out', hout, hl⟩ := h.decryptAll es (out.insert k₀ p)
      fun e h' => he e (mem_cons_of_mem _ h')
    refine ⟨out', ?_, fun k => ?_⟩
    · rw [RaftStore.decryptAll, hs]; exact hout
    · rw [hl k, Finmap.lookup_insert_eq]
      simp only [map_cons, mem_cons]
      by_cases e : k = k₀
      · subst e; simp only [true_or, if_true]; split
        · rfl
        · exact hp.symm
      · simp only [e, false_or, if_false]

/-- **A listing never fails, and is the listing of `m`**, in whatever order it is made. -/
theorem list (h : Reads A s m) (pfx : GoString) (ho : Finmap.IsOrder order (s.fsm.list pfx)) :
    s.list A pfx order = .ok ((MemStore.mk m).list pfx) := by
  have he : ∀ e ∈ (s.fsm.list pfx).range order, s.fsm.data.lookup e.1 = some e.2 := by
    rintro ⟨k, c⟩ hm
    have hk := ho.mem_range.mp hm
    rw [Fsm.list, Data.lookup_listing] at hk
    split at hk
    · exact hk
    · cases hk
  obtain ⟨out, hout, hl⟩ := h.decryptAll _ ∅ he
  rw [RaftStore.list, hout]
  refine congrArg Except.ok (ext_lookup fun k => ?_)
  rw [hl k, ho.map_fst_range, MemStore.list, Data.lookup_listing]
  have hmem : k ∈ order ↔ hasPrefix k pfx = true ∧ m.lookup k ≠ none := by
    rw [ho.mem_iff, Finmap.mem_iff, Fsm.list]
    simp only [Data.lookup_listing, Ne, ← h.lookup_none]
    by_cases hp : hasPrefix k pfx = true
    · rw [if_pos hp]; simp [hp, Option.ne_none_iff_exists']
    · rw [if_neg hp]; simp [hp]
  by_cases hk : k ∈ order
  · rw [if_pos hk, if_pos (hmem.mp hk).1]
  · rw [if_neg hk]
    split
    · next hp => exact (not_not.mp fun h0 => hk (hmem.mpr ⟨hp, h0⟩)).symm
    · rfl

/-- A put that succeeds acts on what the store reads as. -/
theorem put (hA : A.Lawful) (hJ : J.Lawful) (h : Reads A s m)
    (hk : ValidUtf8 k) (hp : s.put A J k v d = .ok s') : Reads A s' (m.insert k v) := by
  obtain ⟨c, hc, rfl⟩ := put_ok hJ hk hp
  refine of_lookup (fun j hj => ?_) fun j c' hj => ?_
  · rw [Finmap.lookup_insert_eq] at hj ⊢
    split at hj
    · cases hj
    · next e => rw [if_neg e]; exact h.lookup_none.mp hj
  · rw [Finmap.lookup_insert_eq] at hj ⊢
    split at hj
    · next e =>
      cases hj
      exact ⟨v, if_pos e, decrypt_stores hA (encrypt_stores hc)⟩
    · next e => rw [if_neg e]; exact h.lookup hj

end Reads

/-! ### What the store holds -/

/-- The store `s` holds the plaintext contents `m`, at keys that are valid UTF-8. -/
structure Holds (A : Aead) (s : RaftStore) (m : Data) : Prop where
  rel : ∀ k, Option.Rel (s.Stores A) (s.fsm.data.lookup k) (m.lookup k)
  valid : ∀ k ∈ m, ValidUtf8 k

variable {p : Bytes} {a : RaftAnswer}

namespace Holds

variable {s s' : RaftStore} {m : Data}

theorem lookup_none (h : Holds A s m) : s.fsm.data.lookup k = none ↔ m.lookup k = none := by
  have hr := h.rel k
  constructor <;> intro h0 <;> rw [h0] at hr
  · generalize m.lookup k = o at hr; cases hr; rfl
  · generalize s.fsm.data.lookup k = o at hr; cases hr; rfl

theorem stores (h : Holds A s m)
    (hc : s.fsm.data.lookup k = some c) : ∃ p, m.lookup k = some p ∧ s.Stores A c p := by
  have hr := h.rel k
  rw [hc] at hr
  generalize m.lookup k = o at hr
  cases hr with
  | some hr => exact ⟨_, rfl, hr⟩

theorem lookup_some (h : Holds A s m) (hp : m.lookup k = some p) :
    ∃ c, s.fsm.data.lookup k = some c ∧ s.Stores A c p := by
  have hr := h.rel k
  rw [hp] at hr
  generalize s.fsm.data.lookup k = o at hr
  cases hr with
  | some hr => exact ⟨_, rfl, hr⟩

/-! ### Reads -/

/-- **What a store holds is what it reads as.** -/
theorem reads (hA : A.Lawful) (h : Holds A s m) : Reads A s m := by
  refine .of_lookup (fun k hk => h.lookup_none.mp hk) fun k c hc => ?_
  obtain ⟨p, hp, hs⟩ := h.stores hc
  exact ⟨p, hp, decrypt_stores hA hs⟩

theorem get (hA : A.Lawful) (h : Holds A s m) (k : GoString) : s.get A k = (MemStore.mk m).get k :=
  h.reads hA k

theorem list (hA : A.Lawful) (h : Holds A s m) (pfx : GoString)
    (ho : Finmap.IsOrder order (s.fsm.list pfx)) :
    s.list A pfx order = .ok ((MemStore.mk m).list pfx) :=
  (h.reads hA).list pfx ho

/-! ### Writes -/

theorem put (hJ : J.Lawful) (h : Holds A s m)
    (hk : ValidUtf8 k) (hp : s.put A J k v d = .ok s') : Holds A s' (m.insert k v) := by
  obtain ⟨c, hc, rfl⟩ := put_ok hJ hk hp
  refine ⟨fun j => ?_, fun j hj => ?_⟩
  · rw [Finmap.lookup_insert_eq, Finmap.lookup_insert_eq]
    by_cases e : j = k
    · rw [if_pos e, if_pos e]; exact .some (encrypt_stores hc)
    · rw [if_neg e, if_neg e]; exact h.rel j
  · rcases mem_insert.mp hj with rfl | hj
    · exact hk
    · exact h.valid j hj

theorem delete (hJ : J.Lawful) (h : Holds A s m)
    (hk : ValidUtf8 k) (hp : s.delete J k a = .ok s') : Holds A s' (m.erase k) := by
  cases delete_ok hJ hk hp
  refine ⟨fun j => ?_, fun j hj => h.valid j (mem_erase.mp hj).2⟩
  rw [Finmap.lookup_erase_eq, Finmap.lookup_erase_eq]
  by_cases e : j = k
  · rw [if_pos e, if_pos e]; exact .none
  · rw [if_neg e, if_neg e]; exact h.rel j

/-! ### Rotation -/

end Holds

/-- Every stored value opens under the current key alone. -/
def UnderCurrentKey (A : Aead) (s : RaftStore) : Prop :=
  ∀ k c, s.fsm.data.lookup k = some c → ∃ p, decryptValue A s.encKey.bytes c = .ok p

/-- The value under `k`, if any, is under the current key. -/
def CurrentAt (A : Aead) (s : RaftStore) (k : GoString) : Prop :=
  ∀ c, s.fsm.data.lookup k = some c →
    (s.encKey.bytes = [] ∨ ∃ p, Sealed A s.encKey.bytes c p)

variable {s s' : RaftStore} {j : GoString}

/-- A put leaves its own value under the current key, and takes no other from it. -/
theorem currentAt_put (hJ : J.Lawful) (hk : ValidUtf8 k) (h : s.put A J k v d = .ok s')
    (hj : j = k ∨ CurrentAt A s j) : CurrentAt A s' j := by
  obtain ⟨c, hc, rfl⟩ := put_ok hJ hk h
  intro c' hc'
  rw [Finmap.lookup_insert_eq] at hc'
  by_cases e : j = k
  · rw [if_pos e] at hc'
    cases hc'
    rcases encrypt_ok hc with ⟨h0, -⟩ | ⟨-, hs⟩
    · exact .inl h0
    · exact .inr ⟨v, hs⟩
  · rw [if_neg e] at hc'
    exact hj.resolve_left e c' hc'

theorem currentAt_delete (hJ : J.Lawful) (hk : ValidUtf8 k) (h : s.delete J k a = .ok s')
    (hj : CurrentAt A s j) : CurrentAt A s' j := by
  cases delete_ok hJ hk h
  intro c' hc'
  rw [Finmap.lookup_erase_eq] at hc'
  split at hc'
  · cases hc'
  · exact hj c' hc'

namespace Holds

variable {s s' : RaftStore} {m : Data}

/-- A value that opens under the current key was sealed by it. -/
theorem sealed_of_opens (hA : A.Lawful) {p' : Bytes} (h : s.Stores A c p)
    (ho : decryptValue A s.encKey.bytes c = .ok p') : Sealed A s.encKey.bytes c p := by
  rcases h with ⟨h0, -⟩ | ⟨-, h | h⟩
  · rw [h0] at ho; simp [decryptValue, EncryptionKeySize] at ho
  · exact h
  · by_cases e : s.encKey.bytes = s.prevEncKey.bytes
    · rw [e]; exact h
    · obtain ⟨err, he⟩ := decryptValue_other hA h e
      rw [he] at ho; cases ho

/-- **A rotation keeps the contents**, when every value is under the key that becomes the
previous one. -/
theorem rotate (hA : A.Lawful) (h : Holds A s m) (hu : UnderCurrentKey A s) {newKey : Bytes}
    (hr : s.rotateEncryptionKey newKey = .ok s') : Holds A s' m := by
  simp only [RaftStore.rotateEncryptionKey] at hr
  split at hr
  · next hlen =>
    cases hr
    refine ⟨fun k => ?_, h.valid⟩
    cases hc : s.fsm.data.lookup k with
    | none => rw [h.lookup_none.mp hc]; exact .none
    | some c =>
      obtain ⟨p, hp, hs⟩ := h.stores hc
      obtain ⟨p', ho⟩ := hu k c hc
      rw [hp]
      refine .some (.inr ⟨fun e => ?_, .inr (sealed_of_opens hA hs ho)⟩)
      rw [show newKey = [] from e] at hlen
      simp [EncryptionKeySize] at hlen
  · cases hr

end Holds

/-! ### Re-encryption -/

variable {m : Data}

/-- Without the previous key, a store with every value under the current one reads the same. -/
theorem Reads.dropPrev (hA : A.Lawful) (h : Reads A s m)
    (hc : ∀ k ∈ m, CurrentAt A s k) : Reads A { s with prevEncKey := .none } m := by
  refine of_lookup (fun k hk => h.lookup_none.mp hk) fun k c hl => ?_
  obtain ⟨p, hp, hd⟩ := h.lookup hl
  refine ⟨p, hp, ?_⟩
  rcases hc k (mem_of_lookup_eq_some hp) c hl with h0 | ⟨p', hp'⟩
  · simp only [RaftStore.decrypt, h0, length_nil, if_true] at hd ⊢
    exact hd
  · have ho := decryptValue_sealed hA hp'
    simp only [RaftStore.decrypt, ho] at hd ⊢
    exact hd

variable {P : RaftStore → Prop} {listOrder : List GoString} {r : RaftStore × Except StoreError Nat}

namespace RaftStore

/-- **The loop rule of re-encryption.**  `P` is kept by every write-back of a listed entry; `Q k` is
what the write-back of `k` brings about, and no write-back undoes.  Wherever the loop stops `P`
holds; at its end it has counted every entry, and `Q` holds of every listed key. -/
theorem reencryptLoop_rule (draws : Nat → Draw) {Q : GoString → RaftStore → Prop} :
    ∀ (es : List (GoString × Bytes)) (count : Nat) {s : RaftStore}, P s →
      (∀ e ∈ es, ∀ d t t', P t → t.put A J e.1 e.2 d = .ok t' →
        P t' ∧ Q e.1 t' ∧ ∀ k, Q k t → Q k t') →
      ∀ r, reencryptLoop A J draws es count s = r →
        P r.1 ∧ (∀ k, Q k s → Q k r.1) ∧
        ∀ n, r.2 = .ok n → n = count + es.length ∧ ∀ k ∈ es.map Prod.fst, Q k r.1
  | [], count, s, h, _, _, rfl => by
    refine ⟨h, fun _ hk => hk, fun n hn => ?_⟩
    cases hn
    exact ⟨rfl, fun k hk => absurd hk (by simp)⟩
  | (key, value) :: es, count, s, h, hput, r, hr => by
    rw [reencryptLoop] at hr
    cases hp : s.put A J key value (draws count) with
    | error e =>
      rw [hp] at hr; subst hr
      exact ⟨h, fun _ hq => hq, fun n hn => by cases hn⟩
    | ok s₁ =>
      rw [hp] at hr
      obtain ⟨h₁, hq, hkeep⟩ := hput (key, value) mem_cons_self _ s s₁ h hp
      obtain ⟨i₁, i₂, i₃⟩ := reencryptLoop_rule draws es (count + 1) h₁
        (fun e he => hput e (mem_cons_of_mem _ he)) r hr
      refine ⟨i₁, fun k hk => i₂ k (hkeep k hk), fun n hn => ?_⟩
      obtain ⟨hn', hall⟩ := i₃ n hn
      refine ⟨by rw [hn', length_cons]; omega, fun k hk => ?_⟩
      rcases mem_cons.mp hk with rfl | hk
      · exact i₂ _ hq
      · exact hall k hk

/-- **Re-encryption, alone.**  `P` is kept by the write-back of every listed entry, and by dropping
the previous key once every value is under the current one.  Then it holds wherever the call stops.
If the call fails the previous key is still held; if it succeeds it has counted every key, every
listed value is under the current key, and the previous key is gone. -/
theorem reencryptAll_rule (hJ : J.Lawful) (hlist : s.list A [] listOrder = .ok m)
    (ho : Finmap.IsOrder order m) (hvalid : ∀ k ∈ m, ValidUtf8 k) (hs : P s)
    (hput : ∀ k v d t t', m.lookup k = some v → P t → t.put A J k v d = .ok t' → P t')
    (hdrop : ∀ t, P t → (∀ k ∈ m, CurrentAt A t k) → P { t with prevEncKey := .none })
    (draws : Nat → Draw) (hr : s.reencryptAll A J listOrder order draws = r) :
    P r.1 ∧ r.1.encKey = s.encKey ∧ (∀ e, r.2 = .error e → r.1.prevEncKey = s.prevEncKey) ∧
      ∀ n, r.2 = .ok n → n = m.keys.card ∧ r.1.prevEncKey = .none ∧
        ∀ k ∈ m, CurrentAt A r.1 k := by
  have he : ∀ e ∈ m.range order, m.lookup e.1 = some e.2 := fun e hm => ho.mem_range.mp hm
  have hcard : (m.range order).length = m.keys.card := by
    rw [← length_map Prod.fst, ho.map_fst_range, ← ho.2, toFinset_card_of_nodup ho.1]
  rw [reencryptAll, hlist] at hr
  dsimp only at hr
  -- the keys of the store are the same throughout the loop
  obtain ⟨⟨i₁, i₂, i₃⟩, -, i₅⟩ := reencryptLoop_rule (A := A) (J := J) draws
    (P := fun t => P t ∧ t.encKey = s.encKey ∧ t.prevEncKey = s.prevEncKey)
    (Q := fun k t => CurrentAt A t k) (m.range order) 0 ⟨hs, rfl, rfl⟩
    (fun e hm d t t' ht hp => by
      have hv := he e hm
      have hk := hvalid e.1 (mem_of_lookup_eq_some hv)
      refine ⟨⟨hput e.1 e.2 d t t' hv ht.1 hp, ?_⟩, currentAt_put hJ hk hp (.inl rfl),
        fun k hc => currentAt_put hJ hk hp (.inr hc)⟩
      obtain ⟨c, -, rfl⟩ := put_ok hJ hk hp
      exact ht.2) _ rfl
  generalize reencryptLoop A J draws (m.range order) 0 s = r₀ at hr i₁ i₂ i₃ i₅
  obtain ⟨s₀, res⟩ := r₀
  cases res with
  | error e =>
    subst hr
    exact ⟨i₁, i₂, fun _ _ => i₃, fun n hn => by cases hn⟩
  | ok n =>
    dsimp only at hr
    subst hr
    obtain ⟨hn, hcur⟩ := i₅ n rfl
    rw [ho.map_fst_range] at hcur
    have hall : ∀ k ∈ m, CurrentAt A s₀ k := fun k hk => hcur k (ho.mem_iff.mpr hk)
    refine ⟨hdrop s₀ i₁ hall, i₂, fun _ he' => (by cases he'), fun n' hn' => ?_⟩
    cases hn'
    exact ⟨by rw [hn, hcard, Nat.zero_add], rfl, hall⟩

end RaftStore

namespace Holds

variable {s s' : RaftStore} {m : Data}

/-- Without the previous key, the values under the current one still read. -/
theorem dropPrev (hA : A.Lawful) (h : Holds A s m) (hc : ∀ k ∈ m, CurrentAt A s k) :
    Holds A { s with prevEncKey := .none } m := by
  refine ⟨fun k => ?_, h.valid⟩
  cases hl : s.fsm.data.lookup k with
  | none => rw [h.lookup_none.mp hl]; exact .none
  | some c =>
    obtain ⟨p, hp, hs⟩ := h.stores hl
    rw [hp]
    refine .some ?_
    rcases hs with hs | ⟨h0, hs⟩
    · exact .inl hs
    · refine .inr ⟨h0, .inl ?_⟩
      rcases hc k (mem_of_lookup_eq_some hp) c hl with h0' | ⟨p', hp'⟩
      · exact absurd h0' h0
      · exact sealed_of_opens (s := s) hA (.inr ⟨h0, hs⟩) (decryptValue_sealed hA hp')

/-- **Re-encryption keeps the contents**, wherever it stops. -/
theorem reencryptAll (hA : A.Lawful) (hJ : J.Lawful) (h : Holds A s m)
    (hl : Finmap.IsOrder listOrder s.fsm.data) (ho : Finmap.IsOrder order m) (draws : Nat → Draw)
    (hr : s.reencryptAll A J listOrder order draws = r) :
    Holds A r.1 m ∧ r.1.encKey = s.encKey ∧
      (∀ e, r.2 = .error e → r.1.prevEncKey = s.prevEncKey) ∧
      ∀ n, r.2 = .ok n → n = m.keys.card ∧ r.1.prevEncKey = .none ∧
        ∀ k, CurrentAt A r.1 k := by
  have hlist : s.list A [] listOrder = .ok m := by
    rw [h.list hA [] (by rwa [Fsm.list, Data.listing_nil]), MemStore.list, Data.listing_nil]
  have hput : ∀ k v d t t', m.lookup k = some v → Holds A t m → t.put A J k v d = .ok t' →
      Holds A t' m := by
    intro k v d t t' hv ht hp
    have hins := ht.put hJ (h.valid k (mem_of_lookup_eq_some hv)) hp
    rwa [Finmap.insert_of_lookup hv] at hins
  obtain ⟨h₁, henc, hfail, hok⟩ := reencryptAll_rule (P := fun t => Holds A t m) hJ hlist
    ho h.valid h hput (fun t ht hc => ht.dropPrev hA hc) draws hr
  refine ⟨h₁, henc, hfail, fun n hn => ?_⟩
  obtain ⟨hcard, hprev, hcur⟩ := hok n hn
  refine ⟨hcard, hprev, fun k c hc => ?_⟩
  obtain ⟨p, hp, -⟩ := h₁.stores hc
  exact hcur k (mem_of_lookup_eq_some hp) c hc

end Holds

end NimbusCore.Store
