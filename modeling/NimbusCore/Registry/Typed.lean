import NimbusCore.Store.Mem
import NimbusCore.Support.Text

/-!
# Registry — one kind, over the bytes of the store

`internal/registry/registry.go` over `memStore`: an object is marshalled and put under a key that is
made of the kind, the namespace and the name, joined by slashes; a listing is a scan of the keys
with a prefix.  Marshalling is not of this repository (`Codec`).

What a registry should be is a map from pairs of a namespace and a name to objects (`Objects`).  It
is one for a set of pairs exactly if no namespace and no name of the set has a slash that can be
taken for the one in between (`faithful_iff`); `slash_confuses` is an instance where it is not.
-/

namespace NimbusCore.Registry

open Store List Finmap

/-- `proto.Marshal` and `proto.Unmarshal` on the messages `T`.  What is marshalled is found again,
and the message that `newFn` makes can be marshalled. -/
structure Codec (T ε : Type) where
  marshal : T → Except ε Bytes
  unmarshal : Bytes → Except ε T
  fresh : T
  unmarshal_marshal : ∀ obj b, marshal obj = .ok b → unmarshal b = .ok obj
  marshal_fresh : ∃ b, marshal fresh = .ok b

/-- The errors of a registry. -/
inductive TypedError (ε : Type) where
  /-- An error of the store, as it is. -/
  | store (err : StoreError)
  /-- "registry: marshal %s %s/%s: %w". -/
  | marshal (kind ns name : GoString) (err : ε)
  /-- "registry: unmarshal %s %s/%s: %w". -/
  | unmarshal (kind ns name : GoString) (err : ε)
  /-- "registry: unmarshal %s: %w". -/
  | unmarshalListed (kind : GoString) (err : ε)
  deriving DecidableEq

/-- `Registry[T]`. -/
structure TypedRegistry (T ε : Type) where
  kind : GoString
  codec : Codec T ε

/-- The byte of a slash. -/
def slash : UInt8 := 47

theorem goString_slash : goString "/" = [slash] := by decide

namespace TypedRegistry

variable {T ε : Type} (r : TypedRegistry T ε)

/-! ### The operations -/

/-- `Registry.key`. -/
def key (ns name : GoString) : GoString :=
  if ns = [] then goString "/registry/" ++ r.kind ++ goString "/" ++ name
  else goString "/registry/" ++ r.kind ++ goString "/" ++ ns ++ goString "/" ++ name

/-- The prefix that `Registry.List` lists. -/
def listPrefix (ns : GoString) : GoString :=
  if ns = [] then goString "/registry/" ++ r.kind ++ goString "/"
  else goString "/registry/" ++ r.kind ++ goString "/" ++ ns ++ goString "/"

/-- `Registry.Put`. -/
def put (s : MemStore) (ns name : GoString) (obj : T) : Except (TypedError ε) Unit × MemStore :=
  match r.codec.marshal obj with
  | .error err => (.error (.marshal r.kind ns name err), s)
  | .ok b => (.ok (), s.put (r.key ns name) b)

/-- `Registry.Get`. -/
def get (s : MemStore) (ns name : GoString) : Except (TypedError ε) T :=
  match s.get (r.key ns name) with
  | .error err => .error (.store err)
  | .ok b =>
    match r.codec.unmarshal b with
    | .error err => .error (.unmarshal r.kind ns name err)
    | .ok obj => .ok obj

/-- `Registry.Delete`. -/
def delete (s : MemStore) (ns name : GoString) : MemStore := s.delete (r.key ns name)

/-- The loop of `Registry.List`. -/
def unmarshalAll : List Bytes → Except (TypedError ε) (List T)
  | [] => .ok []
  | b :: raw =>
    match r.codec.unmarshal b with
    | .error err => .error (.unmarshalListed r.kind err)
    | .ok obj =>
      match unmarshalAll raw with
      | .error err => .error err
      | .ok out => .ok (obj :: out)

/-- `Registry.List`, when the map that the store returns is seen in the order `order`. -/
def list (s : MemStore) (ns : GoString) (order : List GoString) : Except (TypedError ε) (List T) :=
  r.unmarshalAll (((s.list (r.listPrefix ns)).range order).map Prod.snd)

/-- What the keys of a kind start with. -/
def root : GoString := goString "/registry/" ++ r.kind ++ [slash]

theorem key_eq (ns name : GoString) : r.key ns name = r.root ++ joined slash ns name := by
  simp only [key, root, joined, goString_slash]
  split
  · rfl
  · simp

theorem listPrefix_eq {ns : GoString} (h : ns ≠ []) :
    r.listPrefix ns = r.root ++ (ns ++ [slash]) := by
  simp [listPrefix, root, h, goString_slash]

/-! ### What it should be -/

/-- A call that writes. -/
inductive Write (T : Type) where
  | put (ns name : GoString) (obj : T)
  | delete (ns name : GoString)

/-- The pair that a call is about. -/
def Write.pair : Write T → GoString × GoString
  | .put ns name _ | .delete ns name => (ns, name)

/-- The store after a call. -/
def apply (s : MemStore) : Write T → MemStore
  | .put ns name obj => (r.put s ns name obj).2
  | .delete ns name => r.delete s ns name

/-- Objects by namespace and name. -/
abbrev Objects (T : Type) := Dict (GoString × GoString) T

/-- What a call does to the objects.  A `Put` that fails is none. -/
def record (m : Objects T) : Write T → Objects T
  | .put ns name obj =>
    match r.codec.marshal obj with
    | .error _ => m
    | .ok _ => m.insert (ns, name) obj
  | .delete ns name => m.erase (ns, name)

/-- **What is read is what is recorded**, for the pairs of `A`; and a listing of a namespace returns
the objects that are recorded in it, each once. -/
structure Agrees (A : Set (GoString × GoString)) (t : MemStore) (m : Objects T) : Prop where
  get : ∀ ns name, (ns, name) ∈ A → r.get t ns name =
    match m.lookup (ns, name) with
    | some obj => .ok obj
    | none => .error (.store .notFound)
  list : ∀ ns, ns ≠ [] → ∀ order, Finmap.IsOrder order (t.list (r.listPrefix ns)) →
    ∃ (names : List GoString) (objs : List T), r.list t ns order = .ok objs ∧ names.Nodup ∧
      (∀ name, name ∈ names ↔ (ns, name) ∈ m) ∧
      objs.map some = names.map fun name => m.lookup (ns, name)

/-- Nothing of the kind is stored. -/
def Unused (s : MemStore) : Prop := ∀ k, r.root <+: k → s.data.lookup k = none

/-- **The registry is a map from the pairs of `A` to objects**: after any calls on pairs of `A`,
from any store with nothing of the kind. -/
def Faithful (A : Set (GoString × GoString)) : Prop :=
  ∀ s, r.Unused s → ∀ cs : List (Write T), (∀ c ∈ cs, c.pair ∈ A) →
    r.Agrees A (cs.foldl r.apply s) (cs.foldl r.record ∅)

/-! ### When it is one -/

/-- What is recorded is stored, and nothing else of the kind is. -/
structure Stores (A : Set (GoString × GoString)) (t : MemStore) (m : Objects T) : Prop where
  stored : ∀ p obj, m.lookup p = some obj →
    p ∈ A ∧ ∃ b, r.codec.marshal obj = .ok b ∧ t.data.lookup (r.key p.1 p.2) = some b
  only : ∀ k b, r.root <+: k → t.data.lookup k = some b →
    ∃ p obj, m.lookup p = some obj ∧ k = r.key p.1 p.2

variable {r} {A : Set (GoString × GoString)} {t : MemStore} {m : Objects T} {ns : GoString}

theorem isPrefix_key (ns name : GoString) : r.root <+: r.key ns name := by
  rw [key_eq]
  exact prefix_append _ _

theorem key_inj (hA : ∀ p ∈ A, Separable slash p.1 p.2) {p q : GoString × GoString} (hp : p ∈ A)
    (hq : q ∈ A) (h : r.key p.1 p.2 = r.key q.1 q.2) : p = q := by
  rw [key_eq, key_eq] at h
  obtain ⟨h₁, h₂⟩ := joined_inj (hA p hp) (hA q hq) (append_cancel_left h)
  exact Prod.ext h₁ h₂

theorem Stores.init {s : MemStore} (hs : r.Unused s) : r.Stores A s ∅ where
  stored p obj h := by simp at h
  only k b hk h := by rw [hs k hk] at h; cases h

/-- **One call.** -/
theorem Stores.step (hA : ∀ p ∈ A, Separable slash p.1 p.2) (h : r.Stores A t m) {c : Write T}
    (hc : c.pair ∈ A) : r.Stores A (r.apply t c) (r.record m c) := by
  cases c with
  | put ns name obj =>
    simp only [apply, put, record]
    cases hb : r.codec.marshal obj with
    | error err => exact h
    | ok b =>
      refine ⟨fun p o ho => ?_, fun k v hk hv => ?_⟩
      · rw [Finmap.lookup_insert_eq] at ho
        split at ho
        · next he =>
          cases ho
          subst he
          exact ⟨hc, b, hb, lookup_insert _⟩
        · next hne =>
          obtain ⟨hp, v, hv, hl⟩ := h.stored p o ho
          refine ⟨hp, v, hv, ?_⟩
          simp only [MemStore.put]
          rw [lookup_insert_of_ne _ fun he => hne (key_inj hA hp hc he)]
          exact hl
      · simp only [MemStore.put, Finmap.lookup_insert_eq] at hv
        split at hv
        · next he => exact ⟨(ns, name), obj, lookup_insert _, he⟩
        · next hne =>
          obtain ⟨p, o, ho, rfl⟩ := h.only k v hk hv
          refine ⟨p, o, ?_, rfl⟩
          rw [lookup_insert_of_ne _ fun he => hne (by rw [he])]
          exact ho
  | delete ns name =>
    simp only [apply, delete, record, MemStore.delete]
    refine ⟨fun p o ho => ?_, fun k v hk hv => ?_⟩
    · rw [Finmap.lookup_erase_eq] at ho
      split at ho
      · cases ho
      · next hne =>
        obtain ⟨hp, v, hv, hl⟩ := h.stored p o ho
        refine ⟨hp, v, hv, ?_⟩
        rw [lookup_erase_ne fun he => hne (key_inj hA hp hc he)]
        exact hl
    · rw [Finmap.lookup_erase_eq] at hv
      split at hv
      · cases hv
      · next hne =>
        obtain ⟨p, o, ho, rfl⟩ := h.only k v hk hv
        refine ⟨p, o, ?_, rfl⟩
        rw [lookup_erase_ne fun he => hne (by rw [he])]
        exact ho

/-- **Any calls.** -/
theorem Stores.run (hA : ∀ p ∈ A, Separable slash p.1 p.2) :
    ∀ {cs : List (Write T)} {t : MemStore} {m : Objects T}, r.Stores A t m →
      (∀ c ∈ cs, c.pair ∈ A) → r.Stores A (cs.foldl r.apply t) (cs.foldl r.record m)
  | [], _, _, h, _ => h
  | c :: cs, t, m, h, hcs => by
    obtain ⟨hc, hcs⟩ := forall_mem_cons.mp hcs
    rw [foldl_cons, foldl_cons]
    exact Stores.run hA (h.step hA hc) hcs

theorem Stores.get (hA : ∀ p ∈ A, Separable slash p.1 p.2) (h : r.Stores A t m) {ns name : GoString}
    (hp : (ns, name) ∈ A) : r.get t ns name =
      match m.lookup (ns, name) with
      | some obj => .ok obj
      | none => .error (.store .notFound) := by
  cases hm : m.lookup (ns, name) with
  | some obj =>
    obtain ⟨-, b, hb, hl⟩ := h.stored _ obj hm
    simp [TypedRegistry.get, MemStore.get, hl, r.codec.unmarshal_marshal obj b hb]
  | none =>
    have hl : t.data.lookup (r.key ns name) = none := by
      rcases hl : t.data.lookup (r.key ns name) with _ | b
      · rfl
      · obtain ⟨q, obj, hq, he⟩ := h.only _ b (isPrefix_key ns name) hl
        obtain rfl := key_inj hA hp (h.stored q obj hq).1 he
        rw [hm] at hq
        cases hq
    simp [TypedRegistry.get, MemStore.get, hl]

/-- A key in a namespace is the prefix of the namespace and the name. -/
theorem key_of_ne (h : ns ≠ []) (name : GoString) :
    r.key ns name = r.listPrefix ns ++ name := by
  rw [key_eq, listPrefix_eq r h, joined, if_neg h]
  simp

theorem lookup_list_of_ne (h : ns ≠ []) (name : GoString) :
    (t.list (r.listPrefix ns)).lookup (r.key ns name) = t.data.lookup (r.key ns name) := by
  rw [MemStore.list, Data.lookup_listing, if_pos]
  rw [hasPrefix, isPrefixOf_iff_prefix, key_of_ne h]
  exact prefix_append _ _

/-- **What is listed for a namespace is in it.** -/
theorem Stores.listed (hA : ∀ p ∈ A, Separable slash p.1 p.2) (h : r.Stores A t m)
    (hns : ns ≠ []) {k : GoString} {b : Bytes} (hl : (t.list (r.listPrefix ns)).lookup k = some b) :
    ∃ name obj, k = r.key ns name ∧ m.lookup (ns, name) = some obj ∧
      r.codec.unmarshal b = .ok obj := by
  rw [MemStore.list, Data.lookup_listing] at hl
  split at hl
  · next hpre =>
    rw [hasPrefix, isPrefixOf_iff_prefix] at hpre
    have hroot : r.root <+: k := by
      rw [listPrefix_eq r hns] at hpre
      exact (prefix_append _ _).trans hpre
    obtain ⟨⟨ns', name⟩, obj, hm, rfl⟩ := h.only k b hroot hl
    obtain ⟨hp, b', hb', hl'⟩ := h.stored _ obj hm
    rw [hl'] at hl
    cases hl
    rw [listPrefix_eq r hns, key_eq, prefix_append_right_inj] at hpre
    obtain rfl := eq_of_isPrefix_joined (hA _ hp) hns hpre
    exact ⟨name, obj, rfl, hm, r.codec.unmarshal_marshal obj b hb'⟩
  · cases hl

/-- The loop of a listing, over keys that hold what is recorded. -/
theorem unmarshalAll_range {d : Data} {f : GoString → Option T} :
    ∀ {ks : List GoString}, (∀ k ∈ ks, ∃ b obj, d.lookup k = some b ∧ f k = some obj ∧
      r.codec.unmarshal b = .ok obj) →
        ∃ objs, r.unmarshalAll ((d.range ks).map Prod.snd) = .ok objs ∧ objs.map some = ks.map f
  | [], _ => ⟨[], rfl, rfl⟩
  | k :: ks, h => by
    obtain ⟨⟨b, obj, hb, hf, hu⟩, hks⟩ := forall_mem_cons.mp h
    obtain ⟨objs, hobjs, hmap⟩ := unmarshalAll_range hks
    have hr : d.range (k :: ks) = (k, b) :: d.range ks := by simp [Finmap.range, hb]
    refine ⟨obj :: objs, ?_, by rw [map_cons, map_cons, hmap, hf]⟩
    rw [hr, map_cons, unmarshalAll, hu]
    simp only [hobjs]

theorem Stores.list (hA : ∀ p ∈ A, Separable slash p.1 p.2) (h : r.Stores A t m)
    (hns : ns ≠ []) {order : List GoString} (ho : Finmap.IsOrder order (t.list (r.listPrefix ns))) :
    ∃ (names : List GoString) (objs : List T), r.list t ns order = .ok objs ∧ names.Nodup ∧
      (∀ name, name ∈ names ↔ (ns, name) ∈ m) ∧
      objs.map some = names.map fun name => m.lookup (ns, name) := by
  let nameOf : GoString → GoString := fun k => k.drop (r.listPrefix ns).length
  have hname : ∀ name, nameOf (r.key ns name) = name := fun name => by
    simp [nameOf, key_of_ne hns]
  have hentry : ∀ k ∈ order, ∃ b obj, (t.list (r.listPrefix ns)).lookup k = some b ∧
      m.lookup (ns, nameOf k) = some obj ∧ r.codec.unmarshal b = .ok obj ∧
        k = r.key ns (nameOf k) := by
    intro k hk
    obtain ⟨b, hb⟩ := Finmap.mem_iff.mp (ho.mem_iff.mp hk)
    obtain ⟨name, obj, rfl, hm, hu⟩ := h.listed hA hns hb
    rw [hname]
    exact ⟨b, obj, hb, hm, hu, rfl⟩
  obtain ⟨objs, hobjs, hmap⟩ := unmarshalAll_range (r := r) (d := t.list (r.listPrefix ns))
    (f := fun k => m.lookup (ns, nameOf k)) fun k hk => by
      obtain ⟨b, obj, hb, hm, hu, -⟩ := hentry k hk
      exact ⟨b, obj, hb, hm, hu⟩
  refine ⟨order.map nameOf, objs, hobjs, ?_, fun name => ?_, by rw [hmap, map_map]; rfl⟩
  · refine List.Nodup.map_on (fun k hk k' hk' he => ?_) ho.1
    obtain ⟨-, -, -, -, -, hke⟩ := hentry k hk
    obtain ⟨-, -, -, -, -, hke'⟩ := hentry k' hk'
    rw [hke, hke', he]
  · rw [mem_map]
    constructor
    · rintro ⟨k, hk, rfl⟩
      obtain ⟨b, obj, -, hm, -⟩ := hentry k hk
      exact mem_of_lookup_eq_some hm
    · intro hm
      obtain ⟨obj, hobj⟩ := Finmap.mem_iff.mp hm
      obtain ⟨-, b, -, hb⟩ := h.stored _ obj hobj
      refine ⟨r.key ns name, ho.mem_iff.mpr (Finmap.mem_iff.mpr ⟨b, ?_⟩), hname name⟩
      rw [lookup_list_of_ne hns]
      exact hb

/-! ### When it is not -/

theorem length_unmarshalAll : ∀ {raw : List Bytes} {objs : List T},
    r.unmarshalAll raw = .ok objs → objs.length = raw.length
  | [], objs, h => by cases h; rfl
  | b :: raw, objs, h => by
    rw [unmarshalAll] at h
    split at h
    · cases h
    · split at h
      · cases h
      · next out ho =>
        cases h
        rw [length_cons, length_unmarshalAll ho, length_cons]

/-- One object under a pair that is not separable is listed in another namespace. -/
theorem not_faithful {p : GoString × GoString} (hp : p ∈ A) (hs : ¬ Separable slash p.1 p.2) :
    ¬ r.Faithful A := by
  intro hf
  obtain ⟨ns, hns, hne, hpre⟩ := exists_isPrefix_joined hs
  obtain ⟨b, hb⟩ := r.codec.marshal_fresh
  have hag := hf newMemStore (fun _ _ => lookup_empty _) [.put p.1 p.2 r.codec.fresh]
    (by simpa [Write.pair] using hp)
  simp only [foldl_cons, foldl_nil, apply, put, record, hb] at hag
  obtain ⟨order, ho⟩ := Finmap.exists_isOrder
    ((newMemStore.put (r.key p.1 p.2) b).list (r.listPrefix ns))
  obtain ⟨names, objs, hobjs, -, hnames, hmap⟩ := hag.list ns hns order ho
  -- the key of the object is in the listing
  have hlisted : r.key p.1 p.2 ∈ order := by
    refine ho.mem_iff.mpr (Finmap.mem_iff.mpr ⟨b, ?_⟩)
    rw [MemStore.list, Data.lookup_listing, if_pos]
    · exact lookup_insert _
    · rw [hasPrefix, isPrefixOf_iff_prefix, listPrefix_eq r hns, key_eq,
        prefix_append_right_inj]
      exact hpre
  -- but nothing is recorded in the namespace
  have hnone : names = [] := by
    refine eq_nil_iff_forall_not_mem.mpr fun name hname => ?_
    obtain ⟨obj, hobj⟩ := Finmap.mem_iff.mp ((hnames name).mp hname)
    rw [Finmap.lookup_insert_eq] at hobj
    split at hobj
    · next he => exact hne (congrArg Prod.fst he)
    · simp at hobj
  have hlen := length_unmarshalAll hobjs
  have hrange : (((newMemStore.put (r.key p.1 p.2) b).list (r.listPrefix ns)).range order).length =
      order.length := by
    have := congrArg List.length ho.map_fst_range
    rwa [length_map] at this
  have hzero := congrArg List.length hmap
  rw [hnone, map_nil, length_map, hlen, length_map, hrange] at hzero
  exact absurd (length_eq_zero_iff.mp hzero) (ne_nil_of_mem hlisted)

/-- **A registry is a map from the pairs of `A` to objects exactly if every pair of `A` is
separable**: the slash between the namespace and the name is the only one of the key after its first
byte. -/
theorem faithful_iff : r.Faithful A ↔ ∀ p ∈ A, Separable slash p.1 p.2 := by
  constructor
  · intro hf p hp
    by_contra hs
    exact not_faithful hp hs hf
  · intro hA s hs cs hcs
    have h := Stores.run hA (Stores.init hs) hcs
    exact ⟨fun ns name hp => h.get hA hp, fun ns hns order ho => h.list hA hns ho⟩

end TypedRegistry

/-! ### A slash in a name -/

/-- Messages that are their bytes. -/
def plainCodec : Codec Bytes Empty where
  marshal := .ok
  unmarshal := .ok
  fresh := []
  unmarshal_marshal obj b h := by cases h; rfl
  marshal_fresh := ⟨[], rfl⟩

/-- The registry of pods, of such messages. -/
def plainPods : TypedRegistry Bytes Empty := ⟨goString "pods", plainCodec⟩

/-- **The name `b/c` in the namespace `a` is the name `c` in the namespace `a/b`.**  After one
`Put`, the object is found under a pair under which nothing was put, and listed in its namespace; to
delete it there deletes it. -/
theorem slash_confuses :
    let s := (plainPods.put newMemStore (goString "a") (goString "b/c") [1]).2
    plainPods.get s (goString "a/b") (goString "c") = .ok [1] ∧
    plainPods.list s (goString "a/b") [plainPods.key (goString "a") (goString "b/c")] = .ok [[1]] ∧
    plainPods.get (plainPods.delete s (goString "a/b") (goString "c")) (goString "a")
      (goString "b/c") = .error (.store .notFound) ∧
    ¬ plainPods.Faithful Set.univ := by
  refine ⟨by decide, by decide, by decide, ?_⟩
  exact TypedRegistry.not_faithful (p := (goString "a", goString "b/c")) (Set.mem_univ _)
    (by decide)

/-! ### Few messages -/

/-- The codec of an empty message and one other, which marshals nothing else. -/
def pairCodec {T : Type} [DecidableEq T] (empty other : T) : Codec T Unit where
  marshal obj := if obj = empty then .ok [] else if obj = other then .ok [1] else .error ()
  unmarshal b := if b = [] then .ok empty else if b = [1] then .ok other else .error ()
  fresh := empty
  unmarshal_marshal obj b h := by
    split at h
    · next he => cases h; rw [he]; rfl
    · split at h
      · next ho => cases h; rw [ho]; rfl
      · cases h
  marshal_fresh := ⟨[], if_pos rfl⟩

end NimbusCore.Registry
