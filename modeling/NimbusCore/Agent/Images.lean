import Mathlib.Data.List.Basic

/-!
# Agent — image references

`resolveImageRef` of `internal/agent/process.go`: a reference gets a registry in front, unless its
first segment looks like one, and the tag `latest` behind, unless it has a tag or a digest.

Two predicates say what a resolved reference has: a registry or a path (`'/'`), and a pin, which is
a digest or a tag (`Pinned`).  Adding a registry leaves the pin alone (`pinned_expandRegistry`) and
adding a tag leaves the registry alone (`expandRegistry_append`), so each step finds nothing to do
after the other one, and resolving is a normal form (`resolveImageRef_canonical`).
-/

namespace NimbusCore.Agent

open List

/-- `expandRegistry`. -/
def expandRegistry (ref : String) : String :=
  if "docker.io/".toList <+: ref.toList ∨ "localhost/".toList <+: ref.toList then ref
  else if '/' ∉ ref.toList then "docker.io/library/" ++ ref
  else
    let firstSegment := ref.toList.takeWhile (· ≠ '/')
    if '.' ∈ firstSegment ∨ ':' ∈ firstSegment ∨ firstSegment = "localhost".toList then ref
    else "docker.io/" ++ ref

/-- `strings.LastIndex`, of one character. -/
def lastIndex (c : Char) (s : List Char) : Int := s.length - 1 - s.reverse.idxOf c

/-- `ensureTagOrDigest`. -/
def ensureTagOrDigest (ref : String) : String :=
  if '@' ∈ ref.toList then ref
  else if lastIndex '/' ref.toList < lastIndex ':' ref.toList then ref
  else ref ++ ":latest"

/-- `resolveImageRef`. -/
def resolveImageRef (ref : String) : String := ensureTagOrDigest (expandRegistry ref)

example : resolveImageRef "nginx" = "docker.io/library/nginx:latest" := by decide

example : resolveImageRef "localhost:5000/team/app" = "localhost:5000/team/app:latest" := by decide

/-! ### Tags and digests -/

/-- A colon behind the last slash: one that no slash follows. -/
def Tagged (s : List Char) : Prop := ∃ a b, s = a ++ ':' :: b ∧ '/' ∉ b

/-- A reference that says which image it means: it has a digest or a tag. -/
def Pinned (ref : String) : Prop := '@' ∈ ref.toList ∨ Tagged ref.toList

variable {x y c : Char} {l : List Char}

/-- One character stands in front of every occurrence of another. -/
theorem before_cons_iff :
    (∃ b a, c :: l = b ++ x :: a ∧ y ∉ b) ↔ c = x ∨ (c ≠ y ∧ ∃ b a, l = b ++ x :: a ∧ y ∉ b) := by
  constructor
  · rintro ⟨b, a, hl, hb⟩
    rcases b with _ | ⟨d, b⟩
    · exact .inl (List.cons.inj hl).1
    obtain ⟨rfl, hl'⟩ := List.cons.inj hl
    obtain ⟨hne, hb⟩ := not_or.mp (mem_cons.not.mp hb)
    exact .inr ⟨Ne.symm hne, b, a, hl', hb⟩
  · rintro (rfl | ⟨hne, b, a, rfl, hb⟩)
    · exact ⟨[], l, rfl, not_mem_nil⟩
    · exact ⟨c :: b, a, rfl, by simp [Ne.symm hne, hb]⟩

theorem idxOf_lt_idxOf_iff (hxy : x ≠ y) :
    ∀ l : List Char, l.idxOf x < l.idxOf y ↔ ∃ b a, l = b ++ x :: a ∧ y ∉ b
  | [] => by simp
  | c :: l => by
    rw [before_cons_iff, ← idxOf_lt_idxOf_iff hxy l]
    by_cases hx : c = x
    · subst hx
      simp [idxOf_cons_ne _ hxy]
    by_cases hy : c = y
    · subst hy
      simp [hx]
    · simp [idxOf_cons_ne _ hx, idxOf_cons_ne _ hy, hx, hy]

/-- `lastColon > lastSlash`. -/
theorem lastIndex_lt_iff (s : List Char) : lastIndex '/' s < lastIndex ':' s ↔ Tagged s := by
  have hidx : lastIndex '/' s < lastIndex ':' s ↔ s.reverse.idxOf ':' < s.reverse.idxOf '/' := by
    unfold lastIndex
    omega
  rw [hidx, idxOf_lt_idxOf_iff (by decide)]
  constructor
  · rintro ⟨b, a, hs, hb⟩
    refine ⟨a.reverse, b.reverse, ?_, by simpa using hb⟩
    rw [← reverse_reverse s, hs]
    simp
  · rintro ⟨a, b, rfl, hb⟩
    exact ⟨b.reverse, a.reverse, by simp, by simpa using hb⟩

theorem tagged_append_iff {p : List Char} (hp : ':' ∉ p) (s : List Char) :
    Tagged (p ++ s) ↔ Tagged s := by
  constructor
  · rintro ⟨a, b, hs, hb⟩
    rcases append_eq_append_iff.mp hs with ⟨a', -, hs⟩ | ⟨c, hp', hs⟩
    · exact ⟨a', b, hs, hb⟩
    · rcases c with _ | ⟨x, c⟩
      · exact ⟨[], b, hs.symm, hb⟩
      obtain ⟨rfl, -⟩ := List.cons.inj hs
      exact absurd (hp' ▸ by simp) hp
  · rintro ⟨a, b, rfl, hb⟩
    exact ⟨p ++ a, b, by simp, hb⟩

variable {ref : String}

/-- The tag is added exactly where there is no pin. -/
theorem ensureTagOrDigest_of_pinned (h : Pinned ref) : ensureTagOrDigest ref = ref := by
  unfold ensureTagOrDigest
  split_ifs with hat htag
  · rfl
  · rfl
  · exact absurd h (not_or.mpr ⟨hat, (lastIndex_lt_iff _).not.mp htag⟩)

theorem ensureTagOrDigest_of_not_pinned (h : ¬ Pinned ref) :
    ensureTagOrDigest ref = ref ++ ":latest" := by
  obtain ⟨hat, htag⟩ := not_or.mp h
  unfold ensureTagOrDigest
  rw [if_neg hat, if_neg ((lastIndex_lt_iff _).not.mpr htag)]

theorem pinned_latest (ref : String) : Pinned (ref ++ ":latest") :=
  .inr ⟨ref.toList, "latest".toList, by rw [String.toList_append]; rfl, by decide⟩

/-! ### Registries -/

/-- What may stand in front of a reference. -/
def registries : List String := ["", "docker.io/", "docker.io/library/"]

theorem expandRegistry_eq (ref : String) :
    ∃ registry ∈ registries, expandRegistry ref = registry ++ ref := by
  simp only [expandRegistry]
  split_ifs
  · exact ⟨"", by decide, by simp⟩
  · exact ⟨"", by decide, by simp⟩
  · exact ⟨"docker.io/", by decide, rfl⟩
  · exact ⟨"docker.io/library/", by decide, rfl⟩

theorem pinned_append_iff {registry : String} (h : registry ∈ registries) (ref : String) :
    Pinned (registry ++ ref) ↔ Pinned ref := by
  have hfree : '@' ∉ registry.toList ∧ ':' ∉ registry.toList := by
    revert registry
    decide
  unfold Pinned
  rw [String.toList_append, mem_append, tagged_append_iff hfree.2]
  simp [hfree.1]

/-- **Adding a registry neither adds a pin nor hides one.** -/
theorem pinned_expandRegistry (ref : String) : Pinned (expandRegistry ref) ↔ Pinned ref := by
  obtain ⟨registry, hmem, heq⟩ := expandRegistry_eq ref
  rw [heq, pinned_append_iff hmem]

theorem slash_mem_expandRegistry (ref : String) : '/' ∈ (expandRegistry ref).toList := by
  simp only [expandRegistry]
  split_ifs with hprefix hslash
  · rcases hprefix with h | h <;> exact h.subset (by decide)
  · exact hslash
  · rw [String.toList_append]
    exact mem_append_left _ (by decide)
  · rw [String.toList_append]
    exact mem_append_left _ (by decide)

/-- Nothing is put in front of a reference to a registry, whatever follows it. -/
theorem expandRegistry_dockerIo (t : String) :
    expandRegistry ("docker.io/" ++ t) = "docker.io/" ++ t := by
  unfold expandRegistry
  rw [if_pos (.inl (by rw [String.toList_append]; exact prefix_append ..))]

theorem takeWhile_append_of_mem (h : c ∈ l) (t : List Char) :
    (l ++ t).takeWhile (· ≠ c) = l.takeWhile (· ≠ c) := by
  obtain ⟨a, b, rfl, ha⟩ := eq_append_cons_of_mem h
  have hall : ∀ x ∈ a, decide (x ≠ c) = true := fun x hx => by
    simpa using fun hxc : x = c => ha (hxc ▸ hx)
  rw [append_assoc, takeWhile_append_of_pos hall, takeWhile_append_of_pos hall]
  simp

/-- **A reference with a registry keeps it** when something is added behind. -/
theorem expandRegistry_append (ref t : String) :
    expandRegistry (expandRegistry ref ++ t) = expandRegistry ref ++ t := by
  by_cases hprefix : "docker.io/".toList <+: ref.toList ∨ "localhost/".toList <+: ref.toList
  · have hself : expandRegistry ref = ref := if_pos hprefix
    rw [hself, expandRegistry, if_pos]
    rw [String.toList_append]
    exact hprefix.imp (·.trans (prefix_append ..)) (·.trans (prefix_append ..))
  by_cases hslash : '/' ∉ ref.toList
  · have hlib : expandRegistry ref = "docker.io/" ++ ("library/" ++ ref) := by
      rw [expandRegistry, if_neg hprefix, if_pos hslash, ← String.append_assoc]
      rfl
    rw [hlib, String.append_assoc, expandRegistry_dockerIo]
  have hmem := not_not.mp hslash
  by_cases hfirst : '.' ∈ ref.toList.takeWhile (· ≠ '/') ∨ ':' ∈ ref.toList.takeWhile (· ≠ '/') ∨
      ref.toList.takeWhile (· ≠ '/') = "localhost".toList
  · have hself : expandRegistry ref = ref := by
      rw [expandRegistry, if_neg hprefix, if_neg hslash]
      exact if_pos hfirst
    -- the first segment ends at the first slash, which is in front of what is added
    have hsame : (ref ++ t).toList.takeWhile (· ≠ '/') = ref.toList.takeWhile (· ≠ '/') := by
      rw [String.toList_append, takeWhile_append_of_mem hmem]
    have hslash' : ¬ '/' ∉ (ref ++ t).toList := by
      rw [String.toList_append]
      exact not_not.mpr (mem_append_left _ hmem)
    rw [hself, expandRegistry]
    split_ifs with h
    · rfl
    · exact if_pos (hsame ▸ hfirst)
  · have hio : expandRegistry ref = "docker.io/" ++ ref := by
      rw [expandRegistry, if_neg hprefix, if_neg hslash]
      exact if_neg hfirst
    rw [hio, String.append_assoc, expandRegistry_dockerIo]

/-! ### Resolving -/

theorem resolveImageRef_of_pinned (h : Pinned ref) : resolveImageRef ref = expandRegistry ref :=
  ensureTagOrDigest_of_pinned ((pinned_expandRegistry ref).mpr h)

theorem resolveImageRef_of_not_pinned (h : ¬ Pinned ref) :
    resolveImageRef ref = expandRegistry ref ++ ":latest" :=
  ensureTagOrDigest_of_not_pinned ((pinned_expandRegistry ref).not.mpr h)

/-- What resolving leaves alone: a pinned reference with its registry in place. -/
theorem resolveImageRef_of_expanded (hexp : expandRegistry ref = ref)
    (hpin : Pinned ref) : resolveImageRef ref = ref :=
  (resolveImageRef_of_pinned hpin).trans hexp

/-- **Resolving an image reference gives its canonical form.**  Resolving twice is resolving once.
The result has a slash, and a digest or a colon behind its last slash.  It is the reference with one
of the `registries` in front, and behind it nothing or the tag `latest`, the latter only where the
reference has neither a digest nor a colon behind its last slash. -/
theorem resolveImageRef_canonical (ref : String) :
    resolveImageRef (resolveImageRef ref) = resolveImageRef ref ∧
      '/' ∈ (resolveImageRef ref).toList ∧ Pinned (resolveImageRef ref) ∧
      ∃ registry ∈ registries, ∃ tag ∈ ["", ":latest"],
        resolveImageRef ref = registry ++ ref ++ tag ∧ (tag = ":latest" → ¬ Pinned ref) := by
  obtain ⟨registry, hreg, heq⟩ := expandRegistry_eq ref
  have hslash := slash_mem_expandRegistry ref
  by_cases hpin : Pinned ref
  · have hpin' := (pinned_expandRegistry ref).mpr hpin
    have hexp : expandRegistry (expandRegistry ref) = expandRegistry ref := by
      simpa using expandRegistry_append ref ""
    rw [resolveImageRef_of_pinned hpin]
    exact ⟨resolveImageRef_of_expanded hexp hpin', hslash, hpin',
      registry, hreg, "", by decide, by simp [heq], fun h => absurd h (by decide)⟩
  · have hpin' := pinned_latest (expandRegistry ref)
    rw [resolveImageRef_of_not_pinned hpin]
    refine ⟨resolveImageRef_of_expanded (expandRegistry_append ref _) hpin', ?_, hpin',
      registry, hreg, ":latest", by decide, by rw [heq], fun _ => hpin⟩
    rw [String.toList_append]
    exact mem_append_left _ hslash

end NimbusCore.Agent
