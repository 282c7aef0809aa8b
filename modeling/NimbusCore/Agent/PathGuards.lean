import NimbusCore.Agent.FilesServer
import NimbusCore.Csi.Hostpath

/-!
# Agent — the two lexical path guards

`resolveVolumePath` of the files endpoint and `validVolumeID` of the hostpath driver refuse a path
by the text of `filepath.Rel`: they clean a directory and what is joined to it, and ask whether the
way from the one to the other starts with `..`.

`path_guards_exact`: for every directory that starts at the root or leads down from the working
directory, that is exact.  What is accepted is the directory itself, and what has it as a prefix of
whole segments: names that only start with two dots are among it, and siblings of the directory
whose name only starts like its own are not.
-/

namespace NimbusCore.Agent

open UnixPath

/-- The guard of `base` accepts exactly those `s` that stay in it. -/
structure GuardsExactly (base s : String) (accepted : Prop) : Prop where
  exact_iff : accepted ↔ cleanPath (joinPath [base, s]) = cleanPath base ∨
    SegmentPrefix (cleanPath base) (cleanPath (joinPath [base, s]))
  dots : dotdot <+: s.toList → s ≠ ".." → '/' ∉ s.toList → accepted
  sibling : ∀ x, cleanPath base ≠ "/" → x ≠ "" → ¬ IsAbs x →
    cleanPath (joinPath [base, s]) = cleanPath base ++ x → ¬ accepted

theorem GuardsExactly.congr {base s : String} {P Q : Prop} (h : GuardsExactly base s P)
    (hPQ : P ↔ Q) : GuardsExactly base s Q :=
  propext hPQ ▸ h

section

variable {base s : String}

/-- A name that starts with two dots is one. -/
theorem isName_of_dots (hdots : dotdot <+: s.toList) (hne : s ≠ "..") (hslash : '/' ∉ s.toList) :
    IsName s.toList := by
  obtain ⟨t, ht⟩ := hdots
  refine ⟨?_, ?_, fun h => hne ?_, hslash⟩
  · rw [← ht]; simp [dotdot]
  · rw [← ht]; simp [dotdot]
  · rw [← String.ofList_toList (s := s), h]; rfl

/-- **The test of both guards is exact.** -/
theorem guardsExactly (h : ProperBase base) :
    GuardsExactly base s
      (∃ rel, relPath (cleanPath base) (cleanPath (joinPath [base, s])) = some rel ∧
      ¬ Escapes rel) where
  exact_iff := by
    rw [rel_exact h]
    refine ⟨.inr, ?_⟩
    rintro (heq | hpre)
    · rw [heq]
      exact ⟨Iff.rfl, List.prefix_refl _⟩
    · exact hpre
  dots hdots hne hslash := by
    have hname := isName_of_dots hdots hne hslash
    have hwalk := walk_eq_extend (parse base) hname
    rw [String.ofList_toList] at hwalk
    have hjoin : parse (joinPath [base, s]) = (parse base).walk s := parse_join h.ne_empty [s]
    rw [rel_inside_iff, parse_clean, parse_clean, hjoin, hwalk]
    exact contains_extend _ _
  sibling x hroot hx hslash heq := by
    have hne : parse base ≠ root := fun hp => hroot (by rw [cleanPath, hp]; decide)
    have hhere : parse base ≠ here := by
      intro hp
      rcases h.path with hr | ⟨-, hn⟩
      · rw [hp] at hr; cases hr
      · rw [hp] at hn; exact hn rfl
    rw [rel_inside_iff, parse_clean, parse_clean]
    exact not_contains_of_sibling hne hhere hx hslash heq

end

/-- **Both guards are exact.**  For a directory that starts at the root, or leads down from the
working directory: what is accepted is the directory, and what has it as a prefix of whole segments;
and the files endpoint resolves it to the cleaned path. -/
theorem path_guards_exact :
    (∀ (volumesDir : String) (v : VolumeRef) (path : String), v.Named →
      ProperBase (joinPath [volumesDir, v.ns, v.name]) →
      GuardsExactly (joinPath [volumesDir, v.ns, v.name]) path
          ((resolveVolumePath volumesDir v path).isSome = true) ∧
        ∀ p, resolveVolumePath volumesDir v path = some p →
          p = cleanPath (joinPath [joinPath [volumesDir, v.ns, v.name], path])) ∧
      ∀ (d : Csi.Driver) (id : String), id ≠ "" → ProperBase d.baseDir →
        GuardsExactly d.baseDir id (d.validVolumeID id = true) := by
  refine ⟨fun volumesDir v path hv hbase => ⟨(guardsExactly hbase).congr ?_, fun p hp => ?_⟩,
    fun d id hid hbase => (guardsExactly hbase).congr ?_⟩
  · rw [resolveVolumePath, if_neg (not_or.mpr hv)]
    simp only
    cases relPath (cleanPath (joinPath [volumesDir, v.ns, v.name]))
        (cleanPath (joinPath [joinPath [volumesDir, v.ns, v.name], path])) with
    | none => simp
    | some rel => by_cases hesc : Escapes rel <;> simp [hesc]
  · obtain ⟨-, rfl, -⟩ := resolveVolumePath_eq_some.mp hp
    rw [cleanPath, parse_join hbase.ne_empty]
    rfl
  · rw [Csi.Driver.validVolumeID, if_neg hid, Csi.Driver.volumeDir]
    cases relPath (cleanPath d.baseDir) (cleanPath (joinPath [d.baseDir, id])) with
    | none => simp
    | some rel => simp

/-- Below `/vol/default/data` a name of three dots stays; below `data` a sibling is refused. -/
theorem path_guards_exact_sample :
    (resolveVolumePath "/vol" ⟨"default", "data"⟩ "...").isSome = true ∧
      ¬ (Csi.Driver.mk "data" (by decide)).validVolumeID "../data2" = true :=
  ⟨(path_guards_exact.1 "/vol" ⟨"default", "data"⟩ "..." ⟨by decide, by decide⟩
      (by decide +kernel)).1.dots (by decide) (by decide) (by decide),
    (path_guards_exact.2 (Csi.Driver.mk "data" (by decide)) "../data2" (by decide)
      (by decide +kernel)).sibling "2" (by decide +kernel) (by decide) (by decide)
      (by decide +kernel)⟩

end NimbusCore.Agent
