import Mathlib.Data.Finmap
import Mathlib.Data.Finset.Basic
import Mathlib.Algebra.BigOperators.Group.Multiset.Defs
import Mathlib.Algebra.Order.BigOperators.Group.Multiset

/-!
# Support — Maps

Finite maps with an iteration order chosen by the run.  A `Dict κ ν` is Mathlib's `Finmap` at a
constant family: it is compared by its lookups, and it has no order of its own.  A loop over a map
visits every key once, in an order the language leaves open; `m.range ks` is the list such a loop
sees when the order is `ks`, and `IsOrder ks m` says that `ks` is an order of `m`'s keys.

* `insertAll`, `eraseAll`: many entries written, many keys erased.
* `filter`: the entries that satisfy a test.
* `sum`: the sum of a weight over the entries; `IsOrder.sum_range`: a loop in any order computes it.

Nothing here is about a particular program.
-/

/-- A finite map, up to its lookups. -/
abbrev Dict (κ ν : Type) := Finmap (fun _ : κ => ν)

namespace Finmap

variable {κ ν : Type} [DecidableEq κ] {m : Dict κ ν} {ks : List κ} {es : List (κ × ν)} {k : κ}
  {v : ν}

/-! ### Iteration orders -/

/-- `ks` lists the keys of `m`, each once. -/
def IsOrder (ks : List κ) (m : Dict κ ν) : Prop := ks.Nodup ∧ ks.toFinset = m.keys

instance (ks : List κ) (m : Dict κ ν) : Decidable (IsOrder ks m) :=
  inferInstanceAs (Decidable (_ ∧ _))

/-- What a loop over `m` sees in the order `ks`. -/
def range (m : Dict κ ν) (ks : List κ) : List (κ × ν) :=
  ks.filterMap fun k => (m.lookup k).map fun v => (k, v)

/-- The one order of a map with one entry. -/
theorem isOrder_singleton (k : κ) (v : ν) : IsOrder [k] ((∅ : Dict κ ν).insert k v) := by
  refine ⟨List.nodup_singleton k, ?_⟩
  ext k'
  simp [Finmap.mem_keys, Finmap.mem_insert, Finmap.notMem_empty]

theorem IsOrder.mem_iff (h : IsOrder ks m) :
    k ∈ ks ↔ k ∈ m := by
  rw [← List.mem_toFinset, h.2, Finmap.mem_keys]

theorem exists_isOrder (m : Dict κ ν) : ∃ ks, IsOrder ks m :=
  ⟨m.keys.toList, m.keys.nodup_toList, m.keys.toList_toFinset⟩

theorem mem_range :
    (k, v) ∈ m.range ks ↔ k ∈ ks ∧ m.lookup k = some v := by
  simp only [range, List.mem_filterMap, Option.map_eq_some_iff, Prod.mk.injEq]
  constructor
  · rintro ⟨a, ha, w, hw, rfl, rfl⟩; exact ⟨ha, hw⟩
  · rintro ⟨hk, hv⟩; exact ⟨k, hk, v, hv, rfl, rfl⟩

theorem IsOrder.mem_range (h : IsOrder ks m) :
    (k, v) ∈ m.range ks ↔ m.lookup k = some v := by
  rw [Finmap.mem_range, h.mem_iff]
  exact ⟨fun h => h.2, fun h => ⟨Finmap.mem_of_lookup_eq_some h, h⟩⟩

/-- The keys of a loop are the keys of its order that the map holds. -/
theorem map_fst_range (m : Dict κ ν) (ks : List κ) :
    (m.range ks).map Prod.fst = ks.filter (fun k => k ∈ m) := by
  induction ks with
  | nil => rfl
  | cons k ks ih =>
    simp only [range, List.filterMap_cons, List.filter_cons] at ih ⊢
    cases h : m.lookup k with
    | none => simpa [Finmap.lookup_eq_none.mp h] using ih
    | some v => simpa [Finmap.mem_of_lookup_eq_some h] using ih

theorem IsOrder.map_fst_range (h : IsOrder ks m) :
    (m.range ks).map Prod.fst = ks := by
  rw [Finmap.map_fst_range, List.filter_eq_self]
  intro k hk
  simpa using h.mem_iff.mp hk

/-- What a loop sees of some values is no more than the keys that may hold them. -/
theorem IsOrder.length_filter_le (h : IsOrder ks m) {q : ν → Bool}
    {S : Finset κ} (hS : ∀ k v, m.lookup k = some v → q v = true → k ∈ S) :
    (((m.range ks).map Prod.snd).filter q).length ≤ S.card := by
  have hn : (((m.range ks).filter (q ∘ Prod.snd)).map Prod.fst).Nodup := by
    refine List.Nodup.sublist (List.filter_sublist.map _) ?_
    rw [h.map_fst_range]
    exact h.1
  rw [List.filter_map, List.length_map, ← List.length_map Prod.fst,
    ← List.toFinset_card_of_nodup hn]
  refine Finset.card_le_card fun k hk => ?_
  obtain ⟨⟨k, v⟩, he, rfl⟩ := List.mem_map.mp (List.mem_toFinset.mp hk)
  obtain ⟨he, hq⟩ := List.mem_filter.mp he
  exact hS k v (h.mem_range.mp he) hq

/-- What a loop sees at keys of the map. -/
theorem map_lookup_range (h : ∀ k ∈ ks, k ∈ m) :
    ks.map m.lookup = (m.range ks).map (some ∘ Prod.snd) := by
  induction ks with
  | nil => rfl
  | cons k ks ih =>
    obtain ⟨hk, hks⟩ := List.forall_mem_cons.mp h
    obtain ⟨v, hv⟩ := Finmap.mem_iff.mp hk
    simp only [range, List.map_cons, List.filterMap_cons, hv, Option.map_some,
      Function.comp] at ih ⊢
    rw [ih hks]

/-- What is said of every entry can be checked entry by entry. -/
instance decidableForallLookup {m : Dict κ ν} {P : κ → ν → Prop} [∀ k v, Decidable (P k v)] :
    Decidable (∀ k v, m.lookup k = some v → P k v) :=
  decidable_of_iff (∀ e ∈ m.entries, P e.1 e.2)
    ⟨fun h k v hl => h ⟨k, v⟩ (Finmap.lookup_eq_some_iff.mp hl),
      fun h e he => h e.1 e.2 (Finmap.lookup_eq_some_iff.mpr he)⟩

theorem lookup_insert_eq (m : Dict κ ν) (k j : κ) (v : ν) :
    (m.insert k v).lookup j = if j = k then some v else m.lookup j := by
  by_cases e : j = k
  · subst e; simp
  · rw [if_neg e, Finmap.lookup_insert_of_ne _ e]

theorem lookup_singleton_iff {k j : κ} {v w : ν} :
    (Finmap.singleton k v : Dict κ ν).lookup j = some w ↔ j = k ∧ w = v := by
  rw [Finmap.lookup_eq_some_iff]
  simp [Finmap.singleton]

theorem lookup_erase_eq (m : Dict κ ν) (k j : κ) :
    (m.erase k).lookup j = if j = k then none else m.lookup j := by
  by_cases e : j = k
  · subst e; simp
  · rw [if_neg e, Finmap.lookup_erase_ne e]

theorem lookup_erase_eq_some {k j : κ} :
    (m.erase k).lookup j = some v ↔ j ≠ k ∧ m.lookup j = some v := by
  rw [lookup_erase_eq]
  split
  · next h => simp [h]
  · next h => simp [h]

theorem erase_of_notMem (h : k ∉ m) : m.erase k = m := by
  refine Finmap.ext_lookup fun j => ?_
  rw [lookup_erase_eq]
  split
  · next e => rw [e, Finmap.lookup_eq_none.mpr h]
  · rfl

/-- Writing back what is already there. -/
theorem insert_of_lookup (h : m.lookup k = some v) :
    m.insert k v = m := by
  refine Finmap.ext_lookup fun j => ?_
  rw [lookup_insert_eq]
  by_cases e : j = k
  · rw [if_pos e, e, h]
  · rw [if_neg e]

/-- The map a list of entries with distinct keys spells out. -/
theorem lookup_foldr_insert (hn : (es.map Prod.fst).Nodup) :
    (es.foldr (fun e m => m.insert e.1 e.2) (∅ : Dict κ ν)).lookup k = some v ↔ (k, v) ∈ es := by
  induction es with
  | nil => simp
  | cons e es ih =>
    obtain ⟨hne, hn⟩ := List.nodup_cons.mp hn
    rw [List.foldr_cons, lookup_insert_eq, List.mem_cons]
    by_cases h : k = e.1
    · subst h
      have : (e.1, v) ∉ es := fun hm => hne (List.mem_map.mpr ⟨_, hm, rfl⟩)
      simp [this, Prod.ext_iff, eq_comm]
    · rw [if_neg h, ih hn, or_iff_right (fun e' => h (congrArg Prod.fst e'))]

/-- A loop that copies a map copies it, in any order. -/
theorem IsOrder.foldr_insert_range (h : IsOrder ks m) :
    (m.range ks).foldr (fun e m => m.insert e.1 e.2) (∅ : Dict κ ν) = m := by
  refine Finmap.ext_lookup fun k => Option.ext fun v => ?_
  rw [lookup_foldr_insert (h.map_fst_range.symm ▸ h.1), h.mem_range]

/-! ### Writing and erasing many entries -/

/-- The entries of `es`, written one after the other. -/
def insertAll (m : Dict κ ν) (es : List (κ × ν)) : Dict κ ν :=
  es.foldl (fun m e => m.insert e.1 e.2) m

/-- The keys of `ks`, erased one after the other. -/
def eraseAll (m : Dict κ ν) (ks : List κ) : Dict κ ν := ks.foldl (fun m k => m.erase k) m

@[simp] theorem insertAll_nil (m : Dict κ ν) : m.insertAll [] = m := rfl

@[simp] theorem insertAll_cons (m : Dict κ ν) (e : κ × ν) (es : List (κ × ν)) :
    m.insertAll (e :: es) = (m.insert e.1 e.2).insertAll es := rfl

theorem insertAll_append (m : Dict κ ν) (es es' : List (κ × ν)) :
    m.insertAll (es ++ es') = (m.insertAll es).insertAll es' :=
  List.foldl_append ..

@[simp] theorem eraseAll_nil (m : Dict κ ν) : m.eraseAll [] = m := rfl

@[simp] theorem eraseAll_cons (m : Dict κ ν) (k : κ) (ks : List κ) :
    m.eraseAll (k :: ks) = (m.erase k).eraseAll ks := rfl

theorem lookup_eraseAll (k : κ) :
    ∀ (ks : List κ) (m : Dict κ ν),
      (m.eraseAll ks).lookup k = if k ∈ ks then none else m.lookup k
  | [], m => by simp
  | j :: ks, m => by
    rw [eraseAll_cons, lookup_eraseAll k ks, lookup_erase_eq]
    by_cases h : k ∈ ks <;> by_cases e : k = j <;> simp [h, e]

/-- A key that is not written keeps its entry. -/
theorem lookup_insertAll_of_notMem :
    ∀ {es : List (κ × ν)} (m : Dict κ ν), k ∉ es.map Prod.fst →
      (m.insertAll es).lookup k = m.lookup k
  | [], _, _ => rfl
  | e :: es, m, h => by
    rw [List.map_cons, List.mem_cons, not_or] at h
    rw [insertAll_cons, lookup_insertAll_of_notMem _ h.2, Finmap.lookup_insert_of_ne _ h.1]

/-- A key that is written once has what was written. -/
theorem lookup_insertAll_of_mem :
    ∀ {es : List (κ × ν)} (m : Dict κ ν), (es.map Prod.fst).Nodup → (k, v) ∈ es →
      (m.insertAll es).lookup k = some v
  | e :: es, m, hn, h => by
    obtain ⟨hne, hn⟩ := List.nodup_cons.mp hn
    rw [insertAll_cons]
    rcases List.mem_cons.mp h with rfl | h
    · rw [lookup_insertAll_of_notMem _ hne, Finmap.lookup_insert]
    · exact lookup_insertAll_of_mem _ hn h

/-- What is found was written, or was there before. -/
theorem mem_of_lookup_insertAll (h : (m.insertAll es).lookup k = some v) :
    (k, v) ∈ es ∨ m.lookup k = some v := by
  induction es generalizing m with
  | nil => exact .inr h
  | cons e es ih =>
    rcases ih h with h | h
    · exact .inl (List.mem_cons_of_mem _ h)
    rw [lookup_insert_eq] at h
    split at h
    · next hk =>
      obtain rfl := Option.some.inj h
      exact .inl (hk ▸ List.mem_cons_self)
    · exact .inr h

/-- The last of a list with its key. -/
def LastBy (f : ν → κ) (l : List ν) (v : ν) : Prop :=
  ∃ a b, l = a ++ v :: b ∧ ∀ x ∈ b, f x ≠ f v

omit [DecidableEq κ] in
theorem lastBy_concat {f : ν → κ} {l : List ν} {x v : ν} :
    LastBy f (l ++ [x]) v ↔ x = v ∨ f x ≠ f v ∧ LastBy f l v := by
  constructor
  · rintro ⟨a, b, hl, hb⟩
    rcases List.eq_nil_or_concat b with rfl | ⟨b, y, rfl⟩
    · obtain ⟨-, hx⟩ := List.append_inj' hl rfl
      exact .inl (List.cons.inj hx).1
    · have hl' : l ++ [x] = (a ++ v :: b) ++ [y] := by simpa using hl
      obtain ⟨rfl, hx⟩ := List.append_inj' hl' rfl
      obtain ⟨rfl, -⟩ := List.cons.inj hx
      exact .inr ⟨hb x (by simp), a, b, rfl, fun z hz => hb z (by simp [hz])⟩
  · rintro (rfl | ⟨hx, a, b, rfl, hb⟩)
    · exact ⟨l, [], rfl, by simp⟩
    · refine ⟨a, b ++ [x], by simp, fun z hz => ?_⟩
      rcases List.mem_append.mp hz with hz | hz
      · exact hb z hz
      · exact List.mem_singleton.mp hz ▸ hx

/-- **What is last written under its key is found there**, whatever was there before. -/
theorem lookup_insertAll_iff_lastBy {f : ν → κ} {l : List ν} :
    (∀ m : Dict κ ν, (m.insertAll (l.map fun x => (f x, x))).lookup (f v) = some v) ↔
      LastBy f l v := by
  induction l using List.reverseRecOn with
  | nil =>
    refine iff_of_false (fun h => ?_) ?_
    · have := h ∅
      simp at this
    · rintro ⟨a, b, hl, -⟩
      simp at hl
  | append_singleton l x ih =>
    rw [lastBy_concat, ← ih]
    simp only [List.map_append, List.map_cons, List.map_nil, insertAll_append, insertAll_cons,
      insertAll_nil, lookup_insert_eq]
    by_cases hx : f v = f x
    · simp [hx]
    · have hne : x ≠ v := fun he => hx (he ▸ rfl)
      simp only [if_neg hx, hne, false_or, ne_eq, Ne.symm hx, not_false_eq_true, true_and]

/-- **Writing changes nothing** exactly if every entry is there already. -/
theorem insertAll_eq_self_iff (hn : (es.map Prod.fst).Nodup) :
    m.insertAll es = m ↔ ∀ e ∈ es, m.lookup e.1 = some e.2 := by
  constructor
  · intro h e he
    rw [← h]
    exact lookup_insertAll_of_mem m hn he
  · intro h
    induction es with
    | nil => rfl
    | cons e es ih =>
      obtain ⟨he, hes⟩ := List.forall_mem_cons.mp h
      rw [insertAll_cons, insert_of_lookup he, ih (List.nodup_cons.mp hn).2 hes]

/-- **Writing all of `m` gives `m`** exactly if there is no other key. -/
theorem insertAll_range_eq_iff {m m' : Dict κ ν} (ho : IsOrder ks m) :
    m'.insertAll (m.range ks) = m ↔ ∀ k ∈ m', k ∈ m := by
  constructor
  · intro h k hk
    by_contra hne
    have hnot : k ∉ (m.range ks).map Prod.fst := by rwa [ho.map_fst_range, ho.mem_iff]
    have hl := lookup_insertAll_of_notMem m' hnot
    rw [h, Finmap.lookup_eq_none.mpr hne] at hl
    exact Finmap.lookup_eq_none.mp hl.symm hk
  · intro h
    refine Finmap.ext_lookup fun k => ?_
    cases hk : m.lookup k with
    | some v =>
      exact lookup_insertAll_of_mem m' (ho.map_fst_range.symm ▸ ho.1) (ho.mem_range.mpr hk)
    | none =>
      have hne := Finmap.lookup_eq_none.mp hk
      rw [lookup_insertAll_of_notMem m' (by rwa [ho.map_fst_range, ho.mem_iff])]
      exact Finmap.lookup_eq_none.mpr fun hm => hne (h k hm)

/-! ### Filtering -/

/-- The entries of `m` that pass the test. -/
def filter (p : κ → ν → Bool) (m : Dict κ ν) : Dict κ ν where
  entries := m.entries.filter fun e => p e.1 e.2
  nodupKeys := by
    have h := Multiset.nodup_keys.mpr m.nodupKeys
    exact Multiset.nodup_keys.mp (Multiset.nodup_of_le
      (Multiset.map_le_map (Multiset.filter_le _ _)) h)

theorem lookup_filter (p : κ → ν → Bool) (m : Dict κ ν) (k : κ) :
    (m.filter p).lookup k = (m.lookup k).filter (p k) := by
  ext v
  rw [Finmap.lookup_eq_some_iff, Option.filter_eq_some_iff,
    Finmap.lookup_eq_some_iff]
  simp [filter, Multiset.mem_filter]

/-! ### Maps with a default -/

/-- The value at `k`, or `d` when there is none. -/
def getD (m : Dict κ ν) (k : κ) (d : ν) : ν := (m.lookup k).getD d

@[simp] theorem getD_empty (k : κ) (d : ν) : getD (∅ : Dict κ ν) k d = d := by
  simp [getD]

theorem getD_insert (m : Dict κ ν) (k j : κ) (v d : ν) :
    (m.insert k v).getD j d = if j = k then v else m.getD j d := by
  rw [getD, lookup_insert_eq]
  split <;> rfl

/-- The map with the keys `ks` and the values `f`. -/
def ofKeys (ks : Finset κ) (f : κ → ν) : Dict κ ν where
  entries := ks.val.map fun k => ⟨k, f k⟩
  nodupKeys := by
    rw [← Multiset.nodup_keys, Multiset.keys, Multiset.map_map]
    simpa using ks.nodup

theorem lookup_ofKeys (ks : Finset κ) (f : κ → ν) (k : κ) :
    (ofKeys ks f).lookup k = if k ∈ ks then some (f k) else none := by
  ext v
  rw [Finmap.lookup_eq_some_iff]
  by_cases h : k ∈ ks <;> simp [ofKeys, h, eq_comm]

/-- `for k, v := range m { acc[k] += v }`, where a key that is not there reads as zero.  The order
does not matter. -/
def addAll [Add ν] [Zero ν] (acc m : Dict κ ν) : Dict κ ν :=
  ofKeys (acc.keys ∪ m.keys) fun k => acc.getD k 0 + m.getD k 0

/-- At a key, the two are added. -/
theorem getD_addAll [Add ν] [Zero ν] (h0 : (0 : ν) + 0 = 0) (acc m : Dict κ ν) (k : κ) :
    (acc.addAll m).getD k 0 = acc.getD k 0 + m.getD k 0 := by
  rw [getD, addAll, lookup_ofKeys]
  split
  · rfl
  · next h =>
    rw [Finset.mem_union, not_or, Finmap.mem_keys, Finmap.mem_keys, ← Finmap.lookup_eq_none,
      ← Finmap.lookup_eq_none] at h
    simp [getD, h.1, h.2, h0]

/-! ### Sums over the entries -/

variable {M : Type} [AddCommMonoid M]

/-- The sum of the weight `f` over the entries of `m`. -/
def sum (f : κ → ν → M) (m : Dict κ ν) : M := (m.entries.map fun e => f e.1 e.2).sum

/-- A loop in any order computes the sum. -/
theorem IsOrder.sum_range (f : κ → ν → M) (h : IsOrder ks m) :
    ((m.range ks).map fun e => f e.1 e.2).sum = m.sum f := by
  have hp : (((m.range ks).map fun e => (⟨e.1, e.2⟩ : Sigma fun _ : κ => ν)) : Multiset _)
      = m.entries := by
    refine (Multiset.Nodup.ext ?_ m.nodup_entries).mpr ?_
    · refine Multiset.coe_nodup.mpr
        ((List.Nodup.of_map Prod.fst (h.map_fst_range.symm ▸ h.1)).map ?_)
      rintro ⟨a, b⟩ ⟨c, d⟩ e
      simpa using e
    · rintro ⟨k, v⟩
      rw [← Finmap.lookup_eq_some_iff, ← h.mem_range]
      simp
  rw [sum, ← hp]
  simp [Function.comp_def]

/-- A map that changes the values only has the same orders, and its loops see the new values. -/
theorem IsOrder.of_map {m m' : Dict κ ν} {g : κ → ν → ν}
    (h : ∀ k, m'.lookup k = (m.lookup k).map (g k)) (ho : IsOrder ks m) :
    IsOrder ks m' ∧ m'.range ks = (m.range ks).map fun e => (e.1, g e.1 e.2) := by
  constructor
  · refine ⟨ho.1, ?_⟩
    rw [ho.2]
    ext k
    rw [Finmap.mem_keys, Finmap.mem_keys, ← Finmap.lookup_isSome, ← Finmap.lookup_isSome, h]
    simp
  · rw [range, range, List.map_filterMap]
    refine List.filterMap_congr fun k _ => ?_
    rw [h]
    cases m.lookup k <;> rfl

theorem sum_congr {f g : κ → ν → M} (h : ∀ k v, m.lookup k = some v → f k v = g k v) :
    m.sum f = m.sum g := by
  refine congrArg Multiset.sum (Multiset.map_congr rfl fun e he => ?_)
  exact h e.1 e.2 (Finmap.lookup_eq_some_iff.mpr he)

end Finmap
