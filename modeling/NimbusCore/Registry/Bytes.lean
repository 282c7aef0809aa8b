import NimbusCore.Registry.Registry
import NimbusCore.Registry.Typed
import NimbusCore.Support.Interleaving

/-!
# Registry — messages and bytes

The code above the registry is read over messages by kind and path (`State`); the registry keeps
bytes, of all kinds, in one store.  `serveBytes` answers as the registries of all kinds over one
`memStore` do, and `Holds` says that the store holds the messages of a state, each under its key,
and nothing else under the keys of a kind.

* `Holds.call`: **one call.**  What the registries answer, a store of messages answers, and the
  store goes on holding its messages.  Only a put of a message that does not marshal is refused
  (`serveMessages`).
* `Holds.interleaving`: so for every interleaving of programs, step by step.
-/

namespace NimbusCore.Registry

open Store List Finmap State TypedRegistry

/-! ### Texts and their bytes -/

theorem goString_append (a b : String) : goString (a ++ b) = goString a ++ goString b := by
  simp [goString, String.toByteArray_append]

theorem goString_injective : Function.Injective goString := by
  intro a b h
  refine String.toByteArray_inj.mp (ByteArray.ext (Array.toList_inj.mp ?_))
  exact h

theorem goString_empty : goString "" = [] := by decide

theorem goString_ne {a : String} (h : a ≠ "") : goString a ≠ [] := by
  rw [← goString_empty]
  exact fun he => h (goString_injective he)

/-- No text is cut inside a character. -/
theorem goString_isPrefix_iff {a b : String} :
    goString a <+: goString b ↔ a.toList <+: b.toList := by
  constructor
  · rintro ⟨c, hc⟩
    refine isPrefix_of_utf8Encode_append_eq_utf8Encode ⟨c.toArray⟩ ?_
    rw [String.utf8Encode_toList, String.utf8Encode_toList]
    refine ByteArray.ext (Array.toList_inj.mp ?_)
    simpa [goString] using hc
  · rintro ⟨c, hc⟩
    refine ⟨goString (String.ofList c), ?_⟩
    rw [← goString_append]
    refine congrArg goString (String.toList_injective ?_)
    simpa using hc

/-! ### Keys -/

/-- What the keys of a kind start with. -/
def Kind.root (k : Kind) : GoString := goString "/registry/" ++ goString k.name ++ [slash]

/-- The key of a path. -/
def Kind.storeKey (k : Kind) (p : String) : GoString := k.root ++ goString p

theorem root_isPrefix (k : Kind) (p : String) : k.root <+: k.storeKey p := prefix_append _ _

theorem storeKey_injective (k : Kind) : Function.Injective k.storeKey := fun _ _ h =>
  goString_injective (append_cancel_left h)

variable {k : Kind} {x : GoString}

/-- **A key is of one kind.** -/
theorem kind_eq_of_root {k' : Kind} (h : k.root <+: x) (h' : k'.root <+: x) : k = k' := by
  rcases prefix_or_prefix_of_prefix h h' with hk | hk
  · revert hk
    cases k <;> cases k' <;> decide
  · revert hk
    cases k <;> cases k' <;> decide

theorem storeKey_ne {k' : Kind} (h : k' ≠ k) (hx : k'.root <+: x) (p : String) :
    x ≠ k.storeKey p := by
  rintro rfl
  exact h (kind_eq_of_root hx (root_isPrefix k p))

theorem joined_goString (ns name : String) :
    joined slash (goString ns) (goString name) = goString (path ns name) := by
  by_cases h : ns = ""
  · subst h
    rfl
  · rw [path_of_ne h, goString_append, goString_append, goString_slash, joined,
      if_neg (goString_ne h)]
    simp

/-! ### The registries of all kinds -/

variable {ns : String} {t' : MemStore}

section

variable {ε : Type} (C : (k : Kind) → Codec k.Obj ε)

/-- The registry of a kind. -/
def typed (k : Kind) : TypedRegistry k.Obj ε := ⟨goString k.name, C k⟩

/-- What is told from an error. -/
def registryError : TypedError ε → RegistryError
  | .store .notFound => .notFound
  | _ => .failed

/-- The registries over one store. -/
def serveBytes : Handler Cmd Cmd.Answer MemStore
  | .get k ns name, t, r, t' => t' = t ∧
      r = ((typed C k).get t (goString ns) (goString name)).mapError registryError
  | .put k ns name obj, t, r, t' =>
    let (res, t₁) := (typed C k).put t (goString ns) (goString name) obj
    t' = t₁ ∧ r = res.mapError registryError
  | .delete k ns name, t, r, t' =>
    t' = (typed C k).delete t (goString ns) (goString name) ∧ r = .ok ()
  | .list k ns, t, r, t' => t' = t ∧
      ∃ order, Finmap.IsOrder order (t.list ((typed C k).listPrefix (goString ns))) ∧
        r = ((typed C k).list t (goString ns) order).mapError registryError

/-- The message that a call puts can be marshalled. -/
def Marshals : Cmd → Prop
  | .put k _ _ obj => ∃ b, (C k).marshal obj = .ok b
  | _ => True

/-- A store of messages: a put of a message that does not marshal fails and changes nothing, and
every other call is answered. -/
def serveMessages : Handler Cmd Cmd.Answer State := fun c s x s' =>
  (Marshals C c → serve c s x s') ∧ (¬ Marshals C c → s' = s ∧ x = c.failure)

/-- **The store holds the messages.** -/
structure Holds (t : MemStore) (s : State) : Prop where
  stored : ∀ k p obj, (s k).lookup p = some obj →
    ∃ b, (C k).marshal obj = .ok b ∧ t.data.lookup (k.storeKey p) = some b
  only : ∀ k x b, k.root <+: x → t.data.lookup x = some b →
    ∃ p obj, x = k.storeKey p ∧ (s k).lookup p = some obj

theorem holds_new : Holds C newMemStore State.empty where
  stored k p obj h := by simp [State.empty] at h
  only k x b _ h := by simp [newMemStore] at h

variable {C} {t : MemStore} {s : State}

theorem key_typed (k : Kind) (ns name : String) :
    (typed C k).key (goString ns) (goString name) = k.storeKey (path ns name) := by
  rw [TypedRegistry.key_eq, joined_goString]
  rfl

theorem listPrefix_empty (k : Kind) : (typed C k).listPrefix (goString "") = k.root := by
  rw [TypedRegistry.listPrefix, if_pos goString_empty, goString_slash]
  rfl

theorem listPrefix_of_ne (h : ns ≠ "") (k : Kind) :
    (typed C k).listPrefix (goString ns) = k.root ++ (goString ns ++ [slash]) :=
  listPrefix_eq _ (goString_ne h)

theorem root_isPrefix_listPrefix (k : Kind) (ns : String) :
    k.root <+: (typed C k).listPrefix (goString ns) := by
  by_cases h : ns = ""
  · subst h
    rw [listPrefix_empty]
  · rw [listPrefix_of_ne h]
    exact prefix_append _ _

/-- A key is listed exactly if its path is. -/
theorem hasPrefix_storeKey (k : Kind) (ns p : String) :
    hasPrefix (k.storeKey p) ((typed C k).listPrefix (goString ns)) = true ↔ Listed ns p := by
  rw [hasPrefix, isPrefixOf_iff_prefix]
  by_cases h : ns = ""
  · subst h
    refine iff_of_true ?_ (.inl rfl)
    rw [listPrefix_empty]
    exact root_isPrefix k p
  · rw [listPrefix_of_ne h, Kind.storeKey, prefix_append_right_inj,
      ← goString_slash, ← goString_append, goString_isPrefix_iff, Listed, or_iff_right h]

theorem Holds.lookup_none (h : Holds C t s) {p : String} (hp : (s k).lookup p = none) :
    t.data.lookup (k.storeKey p) = none := by
  rcases hl : t.data.lookup (k.storeKey p) with _ | b
  · rfl
  · obtain ⟨q, obj, hq, hobj⟩ := h.only k _ b (prefix_append _ _) hl
    obtain rfl := storeKey_injective k hq
    rw [hp] at hobj
    cases hobj

/-! ### One call -/

theorem Holds.get (h : Holds C t s) (k : Kind) (ns name : String) :
    ((typed C k).get t (goString ns) (goString name)).mapError registryError =
      s.find k ns name := by
  rw [TypedRegistry.get, key_typed, MemStore.get, State.find]
  cases hp : (s k).lookup (path ns name) with
  | none =>
    rw [h.lookup_none hp]
    rfl
  | some obj =>
    obtain ⟨b, hb, hl⟩ := h.stored k _ obj hp
    have hu : (typed C k).codec.unmarshal b = .ok obj := (C k).unmarshal_marshal obj b hb
    simp only [hl, hu]
    rfl

/-- **Something else at one key**: an object that marshals to what is there, or nothing. -/
theorem Holds.update (h : Holds C t s) {q : String} {o : Option k.Obj} {v : Option Bytes}
    {objs : Dict String k.Obj}
    (hov : ∀ obj, o = some obj → ∃ b, (C k).marshal obj = .ok b ∧ v = some b)
    (hvo : v.isSome → o.isSome)
    (ht : ∀ x, t'.data.lookup x = if x = k.storeKey q then v else t.data.lookup x)
    (hs : ∀ p, objs.lookup p = if p = q then o else (s k).lookup p) :
    Holds C t' (s.set k objs) where
  stored k' p obj hp := by
    rw [ht]
    by_cases hk : k' = k
    · subst hk
      rw [set_self, hs] at hp
      by_cases hq : p = q
      · subst hq
        rw [if_pos rfl] at hp ⊢
        exact hov obj hp
      · rw [if_neg hq] at hp
        rw [if_neg fun he => hq (storeKey_injective k' he)]
        exact h.stored k' p obj hp
    · rw [set_of_ne s hk] at hp
      rw [if_neg (storeKey_ne hk (root_isPrefix k' p) q)]
      exact h.stored k' p obj hp
  only k' x b hx hb := by
    rw [ht] at hb
    split at hb
    · next he =>
      subst he
      obtain rfl := kind_eq_of_root hx (root_isPrefix k q)
      obtain ⟨obj, hobj⟩ := Option.isSome_iff_exists.mp (hvo (by rw [hb]; rfl))
      exact ⟨q, obj, rfl, by rw [set_self, hs, if_pos rfl, hobj]⟩
    · next hne =>
      obtain ⟨p, obj, rfl, hp⟩ := h.only k' x b hx hb
      refine ⟨p, obj, rfl, ?_⟩
      by_cases hk : k' = k
      · subst hk
        rw [set_self, hs, if_neg fun he => hne (by rw [he])]
        exact hp
      · rw [set_of_ne s hk]
        exact hp

theorem Holds.put (h : Holds C t s) (p : String) {obj : k.Obj} {b : Bytes}
    (hb : (C k).marshal obj = .ok b) :
    Holds C (t.put (k.storeKey p) b) (s.set k ((s k).insert p obj)) := by
  refine h.update (o := some obj) (v := some b) (fun o ho => ?_) (fun _ => rfl)
    (fun x => Finmap.lookup_insert_eq ..) fun q => Finmap.lookup_insert_eq ..
  cases ho
  exact ⟨b, hb, rfl⟩

theorem Holds.delete (h : Holds C t s) (k : Kind) (p : String) :
    Holds C (t.delete (k.storeKey p)) (s.set k ((s k).erase p)) := by
  refine h.update (o := none) (v := none) (fun o ho => ?_) (fun hv => ?_)
    (fun x => Finmap.lookup_erase_eq ..) fun q => Finmap.lookup_erase_eq ..
  · cases ho
  · cases hv

/-- What is listed, key by key. -/
theorem Holds.lookup_list (h : Holds C t s) {b : Bytes}
    (hx : (t.list ((typed C k).listPrefix (goString ns))).lookup x = some b) :
    ∃ p obj, x = k.storeKey p ∧ (s.listing k ns).lookup p = some obj ∧
      (C k).unmarshal b = .ok obj := by
  rw [MemStore.list, Data.lookup_listing] at hx
  split at hx
  · next hpre =>
    have hroot : k.root <+: x :=
      (root_isPrefix_listPrefix k ns).trans <| isPrefixOf_iff_prefix.mp hpre
    obtain ⟨p, obj, rfl, hp⟩ := h.only k x b hroot hx
    obtain ⟨b', hb', hl⟩ := h.stored k p obj hp
    rw [hl] at hx
    cases hx
    refine ⟨p, obj, rfl, ?_, (C k).unmarshal_marshal obj b hb'⟩
    rw [State.lookup_listing, if_pos ((hasPrefix_storeKey k ns p).mp hpre)]
    exact hp
  · cases hx

/-- **A listing over bytes is one of messages**, in the order of their keys. -/
theorem Holds.list (h : Holds C t s) {order : List GoString}
    (ho : Finmap.IsOrder order (t.list ((typed C k).listPrefix (goString ns)))) :
    ∃ paths, Finmap.IsOrder paths (s.listing k ns) ∧
      (typed C k).list t (goString ns) order = .ok (s.listed k ns paths) := by
  have hentry : ∀ x ∈ order, ∃ p obj b, x = k.storeKey p ∧ (s.listing k ns).lookup p = some obj ∧
      (t.list ((typed C k).listPrefix (goString ns))).lookup x = some b ∧
        (C k).unmarshal b = .ok obj := by
    intro x hx
    obtain ⟨b, hb⟩ := Finmap.mem_iff.mp (ho.mem_iff.mp hx)
    obtain ⟨p, obj, hxp, hp, hu⟩ := h.lookup_list hb
    exact ⟨p, obj, b, hxp, hp, hb, hu⟩
  -- the keys are those of some paths
  obtain ⟨paths, rfl⟩ : order ∈ Set.range (List.map k.storeKey) := by
    rw [Set.range_list_map]
    intro x hx
    obtain ⟨p, -, -, hxp, -⟩ := hentry x hx
    exact ⟨p, hxp.symm⟩
  have hmem : ∀ p, p ∈ paths ↔ p ∈ s.listing k ns := by
    intro p
    rw [← mem_map_of_injective (storeKey_injective k), ho.mem_iff]
    constructor
    · intro hp
      obtain ⟨b, hb⟩ := Finmap.mem_iff.mp hp
      obtain ⟨q, obj, hq, hl, -⟩ := h.lookup_list hb
      rw [storeKey_injective k hq]
      exact mem_of_lookup_eq_some hl
    · intro hp
      obtain ⟨obj, hobj⟩ := Finmap.mem_iff.mp hp
      rw [State.lookup_listing] at hobj
      split at hobj
      · next hlisted =>
        obtain ⟨b, -, hb⟩ := h.stored k p obj hobj
        refine Finmap.mem_iff.mpr ⟨b, ?_⟩
        rw [MemStore.list, Data.lookup_listing, if_pos ((hasPrefix_storeKey k ns p).mpr hlisted)]
        exact hb
      · cases hobj
  have horder : Finmap.IsOrder paths (s.listing k ns) := by
    refine ⟨List.Nodup.of_map _ ho.1, Finset.ext fun p => ?_⟩
    rw [List.mem_toFinset, Finmap.mem_keys]
    exact hmem p
  obtain ⟨objs, hobjs, hmap⟩ := unmarshalAll_range (r := typed C k)
    (d := t.list ((typed C k).listPrefix (goString ns)))
    (f := fun x => ((t.list ((typed C k).listPrefix (goString ns))).lookup x).bind fun b =>
      ((C k).unmarshal b).toOption) fun x hx => by
      obtain ⟨p, obj, b, -, -, hb, hu⟩ := hentry x hx
      exact ⟨b, obj, hb, by rw [hb, Option.bind_some, hu]; rfl, hu⟩
  refine ⟨paths, horder, ?_⟩
  rw [TypedRegistry.list, hobjs, State.listed]
  refine congrArg Except.ok (map_injective_iff.mpr (Option.some_injective _) ?_)
  rw [hmap, map_map, map_map]
  refine (map_congr_left fun p hp => ?_).trans (Finmap.map_lookup_range fun p hp =>
    (hmem p).mp hp)
  obtain ⟨q, obj, b, hq, hobj, hb, hu⟩ := hentry _ (mem_map_of_mem hp)
  obtain rfl := storeKey_injective k hq
  simp only [Function.comp, hb, Option.bind_some, hu, hobj]
  rfl

theorem serveMessages_of_serve {c : Cmd} {x : c.Answer} {s' : State} (hm : Marshals C c)
    (h : serve c s x s') : serveMessages C c s x s' := ⟨fun _ => h, fun hn => absurd hm hn⟩

/-- **One call.**  What the registries answer, a store of messages answers, and the store goes on
holding the messages. -/
theorem Holds.call (h : Holds C t s) {c : Cmd} {x : c.Answer}
    (hc : serveBytes C c t x t') : ∃ s', serveMessages C c s x s' ∧ Holds C t' s' := by
  cases c with
  | get k ns name =>
    obtain ⟨rfl, rfl⟩ := hc
    exact ⟨s, serveMessages_of_serve trivial ⟨rfl, h.get k ns name⟩, h⟩
  | put k ns name obj =>
    cases hb : (C k).marshal obj with
    | error err =>
      have hput : (typed C k).put t (goString ns) (goString name) obj =
          (.error (.marshal (goString k.name) (goString ns) (goString name) err), t) := by
        simp only [TypedRegistry.put, typed, hb]
      simp only [serveBytes, hput] at hc
      obtain ⟨rfl, rfl⟩ := hc
      refine ⟨s, ⟨?_, fun _ => ⟨rfl, rfl⟩⟩, h⟩
      rintro ⟨b, hb'⟩
      cases hb.symm.trans hb'
    | ok b =>
      have hput : (typed C k).put t (goString ns) (goString name) obj =
          (.ok (), t.put (k.storeKey (path ns name)) b) := by
        rw [← key_typed (C := C)]
        simp only [TypedRegistry.put, typed, hb]
      simp only [serveBytes, hput] at hc
      obtain ⟨rfl, rfl⟩ := hc
      exact ⟨_, serveMessages_of_serve ⟨b, hb⟩ ⟨rfl, rfl⟩, h.put _ hb⟩
  | delete k ns name =>
    obtain ⟨rfl, rfl⟩ := hc
    refine ⟨_, serveMessages_of_serve trivial ⟨rfl, rfl⟩, ?_⟩
    rw [TypedRegistry.delete, key_typed]
    exact h.delete k _
  | list k ns =>
    obtain ⟨rfl, order, ho, rfl⟩ := hc
    obtain ⟨paths, hpaths, hlist⟩ := h.list ho
    exact ⟨s, serveMessages_of_serve trivial ⟨rfl, paths, hpaths, by rw [hlist]; rfl⟩, h⟩

/-- **Every interleaving of programs** over the registries is one over messages: the same programs
take the same steps with the same answers, and after each of them the store holds the messages. -/
theorem Holds.interleaving {ι ξ α : Type} [DecidableEq ι] (h : Holds C t s)
    {P Q : ι → Prog Cmd Cmd.Answer ξ α} {tr : List (Prog.Event ι Cmd Cmd.Answer MemStore)}
    (hi : Prog.Interleaves Prog.unguarded (serveBytes C) P t tr Q t') :
    ∃ tr' s', Prog.Interleaves Prog.unguarded (serveMessages C) P s tr' Q s' ∧ Holds C t' s' ∧
      Forall₂ (fun e e' => e.done = e'.done ∧ Holds C e.post e'.post) tr tr' :=
  hi.simulate (fun _ _ _ _ _ h hc => h.call hc) h

end

end NimbusCore.Registry
