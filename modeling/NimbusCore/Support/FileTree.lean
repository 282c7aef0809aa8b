import Mathlib.Data.List.Infix
import NimbusCore.Support.Maps

/-!
# Support — File trees

Files and directories by the names that lead to them, and what the calls of an operating system do
to them: `MkdirAll`, `WriteFile`, `RemoveAll`, `ReadFile` and `ReadDir` of Go's `os`.  There are no
links, and a call fails only for what stands in its way: a file where a directory is needed, or a
directory where a file is.  The top of a tree cannot be removed.  What a call may leave that fails
for any other reason is `MkdirLeaves`, `WriteLeaves` and `RemoveLeaves`.

* `FileTree`: whatever is there is in a directory that is there.
* `look_mkdirAll`, `look_writeFile`, `look_removeAll`: what is where after a call.
* `exists_listing`: a directory has a listing.

Nothing here is about a particular program.
-/

/-- The names that lead to a file or a directory from the top. -/
abbrev Place := List (List Char)

/-- A directory, or a file with its contents. -/
inductive FileNode (β : Type) where
  | dir
  | file (data : β)
  deriving DecidableEq

/-- Files and directories.  What is there is in a directory. -/
structure FileTree (β : Type) where
  nodes : Dict Place (FileNode β)
  top : nodes.lookup [] = some .dir
  closed : ∀ l n node, nodes.lookup (l ++ [n]) = some node → nodes.lookup l = some .dir

namespace FileTree

open List Finmap

variable {β : Type} {t t' : FileTree β} {l q : Place} {data : β}

/-- What is at a place. -/
def look (t : FileTree β) (l : Place) : Option (FileNode β) := t.nodes.lookup l

/-- The place is that of a file. -/
def IsFile (t : FileTree β) (l : Place) : Prop := ∃ data, t.look l = some (.file data)

instance (t : FileTree β) (l : Place) : Decidable (t.IsFile l) :=
  match h : t.look l with
  | none => .isFalse fun ⟨_, hd⟩ => by rw [h] at hd; cases hd
  | some .dir => .isFalse fun ⟨_, hd⟩ => by rw [h] at hd; cases hd
  | some (.file data) => .isTrue ⟨data, h⟩

/-- The place is that of a directory. -/
def IsDir (t : FileTree β) (l : Place) : Prop := t.look l = some .dir

instance (t : FileTree β) (l : Place) : Decidable (t.IsDir l) :=
  match h : t.look l with
  | none => .isFalse fun hd => by rw [IsDir, h] at hd; cases hd
  | some .dir => .isTrue h
  | some (.file data) => .isFalse fun hd => by rw [IsDir, h] at hd; cases hd

/-- Whatever is above something is a directory. -/
theorem dir_of_append {node : FileNode β} {n : List Char} :
    ∀ {ns : Place}, t.look (l ++ n :: ns) = some node → t.IsDir l := by
  intro ns
  induction ns using List.reverseRecOn generalizing node with
  | nil => exact t.closed l n node
  | append_singleton ns m ih =>
    intro h
    have h' : t.look (l ++ n :: ns ++ [m]) = some node := by simpa using h
    exact ih (t.closed (l ++ n :: ns) m node h')

theorem dir_of_prefix {node : FileNode β} (h : l <+: q) (hne : l ≠ q) (hq : t.look q = some node) :
    t.IsDir l := by
  obtain ⟨ns, rfl⟩ := h
  cases ns with
  | nil => exact absurd (append_nil l).symm hne
  | cons n ns => exact dir_of_append hq

/-! ### The calls -/

/-- A tree with nothing in it. -/
def empty : FileTree β where
  nodes := (∅ : Dict Place (FileNode β)).insert [] .dir
  top := lookup_insert _
  closed l n node h := by
    rw [lookup_insert_of_ne _ (by simp), lookup_empty] at h
    cases h

theorem look_empty (q : Place) :
    (empty : FileTree β).look q = if q = [] then some .dir else none := by
  rw [look, empty, Finmap.lookup_insert_eq, lookup_empty]

/-- Directories at some places. -/
def withDirs (nodes : Dict Place (FileNode β)) (ls : List Place) : Dict Place (FileNode β) :=
  ls.foldl (fun m l => m.insert l .dir) nodes

theorem lookup_withDirs (nodes : Dict Place (FileNode β)) (ls : List Place) (q : Place) :
    (withDirs nodes ls).lookup q = if q ∈ ls then some .dir else nodes.lookup q := by
  induction ls generalizing nodes with
  | nil => simp [withDirs]
  | cons l ls ih =>
    rw [withDirs, foldl_cons, ← withDirs, ih, Finmap.lookup_insert_eq]
    by_cases hl : q = l
    · simp [hl]
    · simp [hl]

theorem lookup_withDirs_inits (nodes : Dict Place (FileNode β)) (l q : Place) :
    (withDirs nodes l.inits).lookup q = if q <+: l then some .dir else nodes.lookup q := by
  simp only [lookup_withDirs, mem_inits]

/-- `os.MkdirAll`. -/
def mkdirAll (t : FileTree β) (l : Place) : Option (FileTree β) :=
  if ∃ p ∈ l.inits, t.IsFile p then none
  else some
    { nodes := withDirs t.nodes l.inits
      top := by rw [lookup_withDirs_inits, if_pos nil_prefix]
      closed p n node h := by
        rw [lookup_withDirs_inits] at h ⊢
        split
        · rfl
        · next hp =>
          rw [if_neg fun hpn => hp ((prefix_append p [n]).trans hpn)] at h
          exact t.closed p n node h }

/-- `os.WriteFile`. -/
def writeFile (t : FileTree β) (l : Place) (data : β) : Option (FileTree β) :=
  if h : l ≠ [] ∧ t.IsDir l.dropLast ∧ ¬ t.IsDir l then some
    { nodes := t.nodes.insert l (.file data)
      top := by rw [lookup_insert_of_ne _ h.1.symm]; exact t.top
      closed p n node hn := by
        have hpl : p ≠ l := by
          rintro rfl
          rw [lookup_insert_of_ne _ (by simp)] at hn
          exact h.2.2 (t.closed p n node hn)
        rw [lookup_insert_of_ne _ hpl]
        rw [Finmap.lookup_insert_eq] at hn
        split at hn
        · next he =>
          have hparent : t.IsDir p := by
            have := h.2.1
            rwa [← he, dropLast_concat] at this
          exact hparent
        · exact t.closed p n node hn }
  else none

/-- `os.RemoveAll`: what is left, and whether it has succeeded. -/
def removeAll (t : FileTree β) (l : Place) : FileTree β × Bool :=
  ({ nodes := t.nodes.filter fun q _ => q = [] ∨ ¬ l <+: q
     top := by rw [Finmap.lookup_filter, t.top]; simp
     closed p n node h := by
      rw [Finmap.lookup_filter, Option.filter_eq_some_iff] at h
      rw [Finmap.lookup_filter, t.closed p n node h.1]
      have hkeep : p = [] ∨ ¬ l <+: p := by
        have := h.2
        simp only [append_eq_nil_iff, cons_ne_self, and_false, false_or,
          decide_eq_true_eq] at this
        exact .inr fun hlp => this (hlp.trans (prefix_append p [n]))
      simp [hkeep] },
   decide (l ≠ [] ∧ ¬ ∃ p ∈ l.inits, p ≠ l ∧ t.IsFile p))

/-- `os.ReadFile`. -/
def readFile (t : FileTree β) (l : Place) : Option β :=
  match t.look l with
  | some (.file data) => some data
  | _ => none

/-- What a failing `os.MkdirAll` may leave: some of the directories are there. -/
def MkdirLeaves (t : FileTree β) (l : Place) (t' : FileTree β) : Prop :=
  ∀ q, t'.look q = t.look q ∨ q <+: l ∧ t.look q = none ∧ t'.look q = some .dir

/-- What a failing `os.WriteFile` may leave: a file, but not with what was to be in it. -/
def WriteLeaves (t : FileTree β) (l : Place) (t' : FileTree β) : Prop :=
  ∀ q, t'.look q = t.look q ∨ q = l ∧ ¬ t.IsDir q ∧ t'.IsFile q

/-- What a failing `os.RemoveAll` may leave: some of what was to be removed is gone. -/
def RemoveLeaves (t : FileTree β) (l : Place) (t' : FileTree β) : Prop :=
  ∀ q, t'.look q = t.look q ∨ l <+: q ∧ t'.look q = none

/-- The names that `os.ReadDir` finds in a directory, in some order. -/
def IsListing (t : FileTree β) (l : Place) (names : List (List Char)) : Prop :=
  names.Nodup ∧ ∀ n, n ∈ names ↔ (t.look (l ++ [n])).isSome

/-! ### What is where after a call -/

section

variable (h : t.mkdirAll l = some t')

include h

/-- The place and all above it are directories now. -/
theorem look_mkdirAll (q : Place) : t'.look q = if q <+: l then some .dir else t.look q := by
  rw [mkdirAll] at h
  split at h
  · cases h
  · cases h
    exact lookup_withDirs_inits t.nodes l q

theorem not_isFile_of_mkdirAll (hq : q <+: l) : ¬ t.IsFile q := by
  rw [mkdirAll] at h
  split at h
  · cases h
  · next hnone => exact fun hfile => hnone ⟨q, (mem_inits q l).mpr hq, hfile⟩

/-- Making directories keeps what is there. -/
theorem isDir_mkdirAll (hq : t.IsDir q) : t'.IsDir q := by
  rw [IsDir, look_mkdirAll h]
  split
  · rfl
  · exact hq

theorem isFile_mkdirAll (hq : t.IsFile q) : t'.IsFile q := by
  obtain ⟨data, hdata⟩ := hq
  refine ⟨data, ?_⟩
  rw [look_mkdirAll h, if_neg fun hp => not_isFile_of_mkdirAll h hp ⟨data, hdata⟩, hdata]

/-- Making directories makes no file, and removes none. -/
theorem isFile_mkdirAll_iff : t'.IsFile q ↔ t.IsFile q := by
  refine ⟨?_, isFile_mkdirAll h⟩
  rintro ⟨data, hdata⟩
  rw [look_mkdirAll h] at hdata
  split at hdata
  · cases hdata
  · exact ⟨data, hdata⟩

end

/-- Directories can be made where there is no file on the way. -/
theorem exists_mkdirAll (h : ∀ p, p <+: l → ¬ t.IsFile p) : ∃ t', t.mkdirAll l = some t' := by
  rw [mkdirAll, if_neg]
  · exact ⟨_, rfl⟩
  · rintro ⟨p, hp, hfile⟩
    exact h p ((mem_inits p l).mp hp) hfile

section

variable (h : t.writeFile l data = some t')

include h

theorem look_writeFile (q : Place) : t'.look q = if q = l then some (.file data) else t.look q := by
  rw [writeFile] at h
  split at h
  · cases h
    exact Finmap.lookup_insert_eq ..
  · cases h

/-- No file is written over a directory. -/
theorem not_isDir_of_writeFile : ¬ t.IsDir l := by
  rw [writeFile] at h
  split at h
  · next hw => exact hw.2.2
  · cases h

/-- Writing a file keeps what is there, but for its contents. -/
theorem isDir_writeFile (hq : t.IsDir q) : t'.IsDir q := by
  have hne : q ≠ l := by
    rintro rfl
    exact not_isDir_of_writeFile h hq
  rw [IsDir, look_writeFile h, if_neg hne, hq]

theorem isFile_writeFile (hq : t.IsFile q) : t'.IsFile q := by
  obtain ⟨data', hdata'⟩ := hq
  rw [IsFile, look_writeFile h]
  split
  · exact ⟨data, rfl⟩
  · exact ⟨data', hdata'⟩

/-- The files after one is written. -/
theorem isFile_writeFile_iff : t'.IsFile q ↔ q = l ∨ t.IsFile q := by
  by_cases hq : q = l
  · refine ⟨fun _ => .inl hq, fun _ => ⟨data, ?_⟩⟩
    rw [look_writeFile h, if_pos hq]
  · rw [IsFile, look_writeFile h, if_neg hq]
    exact ⟨.inr, fun h' => h'.resolve_left hq⟩

end

/-- A file can be written in a directory. -/
theorem exists_writeFile {n : List Char} (data : β) (hdir : t.IsDir l)
    (hnot : ¬ t.IsDir (l ++ [n])) : ∃ t', t.writeFile (l ++ [n]) data = some t' := by
  rw [writeFile, dif_pos]
  · exact ⟨_, rfl⟩
  · rw [dropLast_concat]
    exact ⟨by simp, hdir, hnot⟩

theorem look_removeAll (t : FileTree β) (l q : Place) :
    (t.removeAll l).1.look q = if q ≠ [] ∧ l <+: q then none else t.look q := by
  rw [look, removeAll, Finmap.lookup_filter, look]
  by_cases h : q ≠ [] ∧ l <+: q
  · rw [if_pos h]
    simp [h.1, h.2]
  · rw [if_neg h]
    have hkeep : q = [] ∨ ¬ l <+: q := by
      rw [not_and_or, not_not] at h
      exact h
    cases t.nodes.lookup q <;> simp [hkeep]

/-- The files after a removal. -/
theorem isFile_removeAll_iff (hl : l ≠ []) :
    (t.removeAll l).1.IsFile q ↔ t.IsFile q ∧ ¬ l <+: q := by
  rw [IsFile, look_removeAll]
  by_cases hq : l <+: q
  · have hne : q ≠ [] := fun h => hl (prefix_nil.mp (h ▸ hq))
    simp [hq, hne]
  · simp only [hq, and_false, if_false, not_false_eq_true, and_true, IsFile]

theorem isFile_of_eq (h : t'.look q = t.look q) : t'.IsFile q ↔ t.IsFile q := by
  rw [IsFile, IsFile, h]

theorem MkdirLeaves.isFile_iff (h : t.MkdirLeaves l t') : t'.IsFile q ↔ t.IsFile q := by
  rcases h q with hq | ⟨-, hq, hq'⟩
  · exact isFile_of_eq hq
  · simp [IsFile, hq, hq']

theorem WriteLeaves.isFile_iff (h : t.WriteLeaves l t') (hne : q ≠ l) :
    t'.IsFile q ↔ t.IsFile q := by
  rcases h q with hq | ⟨hq, -⟩
  · exact isFile_of_eq hq
  · exact absurd hq hne

theorem RemoveLeaves.isFile_iff (h : t.RemoveLeaves l t') (hne : ¬ l <+: q) :
    t'.IsFile q ↔ t.IsFile q := by
  rcases h q with hq | ⟨hq, -⟩
  · exact isFile_of_eq hq
  · exact absurd hq hne

/-- A directory below the top can be removed. -/
theorem removeAll_ok (hne : l ≠ []) (hl : t.IsDir l) : (t.removeAll l).2 = true := by
  refine decide_eq_true ⟨hne, ?_⟩
  rintro ⟨p, hp, hpl, data, hdata⟩
  have hdir := dir_of_prefix ((mem_inits p l).mp hp) hpl hl
  rw [IsDir, hdata] at hdir
  cases hdir

theorem readFile_eq_some : t.readFile l = some data ↔ t.look l = some (.file data) := by
  rw [readFile]
  split
  · next data' h => rw [h]; simp
  · next h =>
    constructor
    · intro h'
      cases h'
    · intro h'
      exact absurd h' (h data)

/-- **A directory has a listing.** -/
theorem exists_listing (t : FileTree β) (l : Place) : ∃ names, t.IsListing l names := by
  refine ⟨((t.nodes.keys.filter fun q => q ≠ [] ∧ q.dropLast = l).image
    fun q => q.getLast?.getD []).toList, Finset.nodup_toList _, fun n => ?_⟩
  rw [Finset.mem_toList, Finset.mem_image]
  constructor
  · rintro ⟨q, hq, rfl⟩
    obtain ⟨hkey, hne, rfl⟩ := Finset.mem_filter.mp hq
    have hlast : q.dropLast ++ [q.getLast?.getD []] = q := by
      rw [List.getLast?_eq_some_getLast hne, Option.getD_some, dropLast_concat_getLast]
    rw [look, hlast, lookup_isSome]
    exact mem_keys.mp hkey
  · intro h
    refine ⟨l ++ [n], Finset.mem_filter.mpr ⟨?_, by simp, by simp⟩, by simp⟩
    exact mem_keys.mpr (lookup_isSome.mp h)

end FileTree
