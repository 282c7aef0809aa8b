import Mathlib.Algebra.BigOperators.Group.Finset.Defs
import NimbusCore.Support.Maps

/-!
# Support — Edits

A list of edits writes or erases entries, one after the other.  What it leaves is what it has
written, and the entries at the keys that it does not touch:

* `lookup_edits`: key by key.
* `sum_edits`: a sum over the entries is the sum over what is kept and the sum over what is written,
  and the latter is what the same edits make of the empty map.
* `sum_le_of_sub`: a part of a map has a smaller sum.
* `sum_le_sum_places`: entries that have places of their own weigh no more than the places do.
-/

namespace Finmap

open Multiset

variable {κ ν : Type} [DecidableEq κ]

/-- An edit: a value is written at a key, or what is there is erased. -/
def edit (m : Dict κ ν) (e : κ × Option ν) : Dict κ ν :=
  match e.2 with
  | none => m.erase e.1
  | some v => m.insert e.1 v

/-- The edits of `es`, one after the other. -/
def edits (m : Dict κ ν) (es : List (κ × Option ν)) : Dict κ ν := es.foldl edit m

@[simp] theorem edits_nil (m : Dict κ ν) : m.edits [] = m := rfl

@[simp] theorem edits_cons (m : Dict κ ν) (e : κ × Option ν) (es : List (κ × Option ν)) :
    m.edits (e :: es) = (m.edit e).edits es := rfl

theorem edits_append (m : Dict κ ν) (es es' : List (κ × Option ν)) :
    m.edits (es ++ es') = (m.edits es).edits es' :=
  List.foldl_append ..

theorem lookup_edit (m : Dict κ ν) (e : κ × Option ν) (k : κ) :
    (m.edit e).lookup k = if k = e.1 then e.2 else m.lookup k := by
  rcases e with ⟨j, _ | v⟩
  · exact lookup_erase_eq m j k
  · exact lookup_insert_eq m j k v

/-- At a key that is edited there is what the edits make of the empty map; elsewhere there is what
was there. -/
theorem lookup_edits (k : κ) :
    ∀ (es : List (κ × Option ν)) (m : Dict κ ν),
      (m.edits es).lookup k =
        if k ∈ es.map Prod.fst then ((∅ : Dict κ ν).edits es).lookup k else m.lookup k
  | [], m => by simp
  | e :: es, m => by
    rw [edits_cons, edits_cons, lookup_edits k es (m.edit e), lookup_edits k es (edit ∅ e),
      lookup_edit, lookup_edit]
    by_cases hk : k ∈ es.map Prod.fst
    · simp [hk]
    · by_cases he : k = e.1 <;> simp [hk, he]

/-- What the edits make of the empty map was written by one of them. -/
theorem of_lookup_edits_empty {k : κ} {v : ν} :
    ∀ {es : List (κ × Option ν)}, ((∅ : Dict κ ν).edits es).lookup k = some v →
      (k, some v) ∈ es
  | [], h => by simp at h
  | e :: es, h => by
    rw [edits_cons, lookup_edits, lookup_edit] at h
    split at h
    · exact List.mem_cons_of_mem _ (of_lookup_edits_empty h)
    · split at h
      · next he => exact List.mem_cons.mpr (.inl (Prod.ext he h.symm))
      · simp at h

/-- What holds of the entries and of what is written holds afterwards. -/
theorem forall_edits {P : ν → Prop} {m : Dict κ ν} {es : List (κ × Option ν)}
    (hm : ∀ k v, m.lookup k = some v → P v) (hes : ∀ e ∈ es, ∀ v ∈ e.2, P v) (k : κ) (v : ν)
    (hl : (m.edits es).lookup k = some v) : P v := by
  rw [lookup_edits] at hl
  split at hl
  · exact hes _ (of_lookup_edits_empty hl) v rfl
  · exact hm k v hl

theorem insertAll_eq_edits (m : Dict κ ν) (es : List (κ × ν)) :
    m.insertAll es = m.edits (es.map fun e => (e.1, some e.2)) := by
  rw [edits, List.foldl_map]
  rfl

theorem eraseAll_eq_edits (m : Dict κ ν) (ks : List κ) :
    m.eraseAll ks = m.edits (ks.map fun k => (k, none)) := by
  rw [edits, List.foldl_map]
  rfl

/-! ### Sums -/

section

variable {M : Type} [AddCommMonoid M] {f : κ → ν → M} {m m' : Dict κ ν}

omit [DecidableEq κ] in
theorem sum_filter_add (p : κ → ν → Bool) :
    (m.filter p).sum f + (m.filter fun k v => !p k v).sum f = m.sum f := by
  rw [sum, sum, sum, filter, filter, ← sum_add, ← map_add]
  congr 2
  have := filter_add_not (fun e : Sigma fun _ : κ => ν => p e.1 e.2 = true) m.entries
  simpa using this

theorem sum_eq_zero (h : ∀ k v, m.lookup k = some v → f k v = 0) : m.sum f = 0 := by
  rw [sum_congr h, sum, sum_map_zero]

/-- A weight that is the same everywhere. -/
theorem sum_const {c : M} (h : ∀ k v, m.lookup k = some v → f k v = c) :
    m.sum f = m.keys.card • c := by
  rw [sum_congr h, sum, map_const', sum_replicate]
  congr 1
  exact (card_map Sigma.fst m.entries).symm

/-- **After the edits**: what is kept, and what is written. -/
theorem sum_edits (es : List (κ × Option ν)) :
    (m.edits es).sum f =
      (m.eraseAll (es.map Prod.fst)).sum f + ((∅ : Dict κ ν).edits es).sum f := by
  rw [← sum_filter_add (fun k _ => k ∉ es.map Prod.fst)]
  congr 2
  · refine Finmap.ext_lookup fun k => ?_
    rw [lookup_filter, lookup_edits, lookup_eraseAll]
    by_cases hk : k ∈ es.map Prod.fst
    · rw [if_pos hk, if_pos hk]
      simp [hk]
    · rw [if_neg hk, if_neg hk]
      cases m.lookup k <;> simp [hk]
  · refine Finmap.ext_lookup fun k => ?_
    rw [lookup_filter, lookup_edits]
    by_cases hk : k ∈ es.map Prod.fst
    · rw [if_pos hk]
      cases ((∅ : Dict κ ν).edits es).lookup k <;> simp [hk]
    · have hnone : ((∅ : Dict κ ν).edits es).lookup k = none := by
        rw [lookup_edits, if_neg hk, Finmap.lookup_empty]
      rw [if_neg hk, hnone]
      cases m.lookup k <;> simp [hk]

variable [PartialOrder M] [IsOrderedAddMonoid M]

/-- **A part of a map has a smaller sum**, when no weight is negative. -/
theorem sum_le_of_sub (h : ∀ k v, m'.lookup k = some v → m.lookup k = some v)
    (h0 : ∀ k v, m.lookup k = some v → 0 ≤ f k v) : m'.sum f ≤ m.sum f := by
  have hle : m'.entries ≤ m.entries := by
    refine (le_iff_subset m'.nodup_entries).mpr fun e he => ?_
    exact Finmap.lookup_eq_some_iff.mp (h e.1 e.2 (Finmap.lookup_eq_some_iff.mpr he))
  obtain ⟨rest, hrest⟩ := Multiset.le_iff_exists_add.mp hle
  have hnn : 0 ≤ (rest.map fun e => f e.1 e.2).sum := by
    refine sum_nonneg fun x hx => ?_
    obtain ⟨e, he, rfl⟩ := mem_map.mp hx
    refine h0 e.1 e.2 (Finmap.lookup_eq_some_iff.mpr ?_)
    rw [hrest]
    exact mem_add.mpr (.inr he)
  rw [sum, sum, hrest, map_add, sum_add]
  exact le_add_of_nonneg_right hnn

/-- An entry that is put takes the place of another. -/
theorem sum_insert_le (h0 : ∀ k v, m.lookup k = some v → 0 ≤ f k v) (k : κ) (v : ν) :
    (m.insert k v).sum f ≤ m.sum f + f k v := by
  have hedit : (m.insert k v).sum f = (m.erase k).sum f + ((∅ : Dict κ ν).insert k v).sum f :=
    sum_edits [(k, some v)]
  have hone : ((∅ : Dict κ ν).insert k v).sum f = f k v := by
    rw [← (isOrder_singleton k v).sum_range]
    simp [range]
  have hrest : (m.erase k).sum f ≤ m.sum f := by
    refine sum_le_of_sub (fun j w hj => ?_) h0
    rw [lookup_erase_eq] at hj
    split at hj
    · cases hj
    · exact hj
  rw [hedit, hone]
  gcongr

end

/-! ### Sums over a set -/

section

variable {β M : Type} [DecidableEq β] [AddCommMonoid M] [PartialOrder M] [IsOrderedAddMonoid M]
  {f : κ → ν → M} {w : β → M} {m : Dict κ ν} {g : κ → ν → β}

/-- The values of `g` at the entries. -/
def values (g : κ → ν → β) (m : Dict κ ν) : Finset β := (m.entries.map fun e => g e.1 e.2).toFinset

theorem mem_values {x : β} :
    x ∈ m.values g ↔ ∃ k v, m.lookup k = some v ∧ g k v = x := by
  simp only [values, mem_toFinset, mem_map]
  constructor
  · rintro ⟨e, he, rfl⟩
    exact ⟨e.1, e.2, lookup_eq_some_iff.mpr he, rfl⟩
  · rintro ⟨k, v, h, rfl⟩
    exact ⟨⟨k, v⟩, lookup_eq_some_iff.mp h, rfl⟩

omit [DecidableEq κ] in
/-- Each value is counted once. -/
theorem sum_values_le (h0 : ∀ x ∈ m.values g, 0 ≤ w x) :
    ∑ x ∈ m.values g, w x ≤ m.sum fun k v => w (g k v) := by
  obtain ⟨rest, hrest⟩ := Multiset.le_iff_exists_add.mp
    (dedup_le (m.entries.map fun e => g e.1 e.2))
  have hsum : (m.sum fun k v => w (g k v)) = ((m.entries.map fun e => g e.1 e.2).map w).sum := by
    rw [map_map]
    rfl
  have hnn : 0 ≤ (rest.map w).sum := by
    refine sum_nonneg fun y hy => ?_
    obtain ⟨x, hx, rfl⟩ := mem_map.mp hy
    refine h0 x (mem_toFinset.mpr ?_)
    rw [hrest]
    exact mem_add.mpr (.inr hx)
  rw [hsum, hrest, map_add, sum_add]
  exact le_add_of_nonneg_right hnn

omit [DecidableEq β] in
/-- **Entries that have places of their own** weigh no more than the places do. -/
theorem sum_le_sum_places {S : Finset β} (e : β → κ) (h0 : ∀ x ∈ S, 0 ≤ w x)
    (h : ∀ k v, m.lookup k = some v → g k v ∈ S ∧ e (g k v) = k ∧ f k v ≤ w (g k v)) :
    m.sum f ≤ ∑ x ∈ S, w x := by
  have hplace : ∀ en ∈ m.entries, _ := fun en hen => h en.1 en.2 (lookup_eq_some_iff.mpr hen)
  have hle : (m.entries.map fun en => g en.1 en.2) ≤ S.val := by
    refine (le_iff_subset ?_).mpr fun x hx => ?_
    · refine Multiset.Nodup.map_on (fun en hen en' hen' heq => ?_) m.nodup_entries
      have hkey : en.1 = en'.1 := by
        rw [← (hplace en hen).2.1, heq, (hplace en' hen').2.1]
      obtain ⟨k, v⟩ := en
      obtain ⟨k', v'⟩ := en'
      obtain rfl : k = k' := hkey
      have hv := (lookup_eq_some_iff.mpr hen).symm.trans (lookup_eq_some_iff.mpr hen')
      cases hv
      rfl
    · obtain ⟨en, hen, rfl⟩ := mem_map.mp hx
      exact (hplace en hen).1
  calc m.sum f ≤ (m.entries.map fun en => w (g en.1 en.2)).sum :=
        sum_map_le_sum_map _ _ fun en hen => (hplace en hen).2.2
    _ = ((m.entries.map fun en => g en.1 en.2).map w).sum := by rw [map_map]; rfl
    _ ≤ (S.val.map w).sum := by
        obtain ⟨rest, hrest⟩ := Multiset.le_iff_exists_add.mp hle
        rw [hrest, map_add, sum_add]
        refine le_add_of_nonneg_right (sum_nonneg fun y hy => ?_)
        obtain ⟨x, hx, rfl⟩ := mem_map.mp hy
        refine h0 x (Finset.mem_val.mp ?_)
        rw [hrest]
        exact mem_add.mpr (.inr hx)
    _ = ∑ x ∈ S, w x := rfl

end

end Finmap
