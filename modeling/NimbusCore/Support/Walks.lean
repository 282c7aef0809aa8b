import Mathlib.Logic.Function.Iterate
import NimbusCore.Support.Paths

/-!
# Support — Walks

What a text does from wherever it is walked.

* `walk_of_landing`: a text that never climbs above its start leads down from every path, by the
  same names (`landing`).  `leadsDown_of_here`: which texts these are is seen from the working
  directory.
* `walk_eq_follow`: a walk depends on where its text leads from the working directory, and on
  nothing else of it.
* `exists_walk_eq_iff`: two texts may lead to one path exactly if one of them `Meets` the other.

Nothing here is about a particular program.
-/

open UnixPath List

/-! ### Texts that lead down -/

namespace UnixPath

/-- Where elements lead from a place below the start, unless they lead above the start. -/
def descend : List (List Char) → List (List Char) → Option (List (List Char))
  | place, [] => some place
  | place, e :: es =>
    if e = dotdot then if place = [] then none else descend place.dropLast es
    else if IsName e then descend (place ++ [e]) es
    else descend place es

/-- Where a text leads from its start, unless it goes above it on the way. -/
def landing (s : String) : Option (List (List Char)) := descend [] (s.toList.splitOn '/')

end UnixPath

/-- The text leads to a place below its start, and not above it on the way. -/
def LeadsDown (s : String) : Prop := ∃ l, landing s = some l ∧ l ≠ []

instance (s : String) : Decidable (LeadsDown s) :=
  match h : landing s with
  | none => .isFalse fun ⟨_, hl, _⟩ => by rw [h] at hl; cases hl
  | some [] => .isFalse fun ⟨_, hl, hne⟩ => by rw [h] at hl; cases hl; exact hne rfl
  | some (n :: l) => .isTrue ⟨n :: l, h, cons_ne_nil _ _⟩

example : LeadsDown "a/../b" ∧ ¬ LeadsDown "a/.." ∧ ¬ LeadsDown "a/../../b" := by decide

namespace UnixPath

section

variable {place : List (List Char)} (hplace : ∀ n ∈ place, IsName n) (p : UnixPath)

theorem above_extend_place (hne : place ≠ []) :
    (p.extend place hplace).above = p.extend place.dropLast
      fun n hn => hplace n (dropLast_subset _ hn) := by
  ext1
  · rfl
  · simp [above, extend, hne]
  · exact dropLast_append_of_ne_nil hne

theorem push_extend_place {e : List Char} (he : IsName e) :
    (p.extend place hplace).push e = p.extend (place ++ [e])
      (by simpa [or_imp, forall_and] using ⟨hplace, he⟩) := by
  rw [push_name he]
  ext1 <;> simp [extend]

end

/-- Elements that never climb above their start lead down from every path alike. -/
theorem foldl_push_of_descend {place es l : List (List Char)} (hplace : ∀ n ∈ place, IsName n)
    (h : descend place es = some l) :
    ∃ hl : ∀ n ∈ l, IsName n, ∀ p : UnixPath,
      es.foldl push (p.extend place hplace) = p.extend l hl := by
  induction es generalizing place with
  | nil =>
    cases h
    exact ⟨hplace, fun p => rfl⟩
  | cons e es ih =>
    simp only [foldl_cons]
    rw [descend] at h
    split at h
    · next he =>
      split at h
      · cases h
      · next hne =>
        simp only [he, push_dotdot, above_extend_place hplace _ hne]
        exact ih _ h
    · next he =>
      split at h
      · next hname =>
        simp only [push_extend_place hplace _ hname]
        exact ih _ h
      · next hname =>
        simp only [push_of_not he hname]
        exact ih hplace h

/-- Elements that climb above their start leave the working directory. -/
theorem up_pos_of_descend {place es : List (List Char)} (hplace : ∀ n ∈ place, IsName n)
    (h : descend place es = none) : 0 < (es.foldl push (here.extend place hplace)).up := by
  induction es generalizing place with
  | nil => cases h
  | cons e es ih =>
    rw [foldl_cons]
    rw [descend] at h
    split at h
    · next he =>
      rw [he, push_dotdot]
      split at h
      · next hnil =>
        -- From here on the path has gone up once, and what goes up stays up.
        subst hnil
        have hup : (here.extend [] hplace).above.up = 1 := rfl
        exact Nat.lt_of_lt_of_le (by rw [hup]; exact Nat.one_pos) (up_le_foldl es)
      · next hne =>
        rw [above_extend_place hplace _ hne]
        exact ih _ h
    · next he =>
      split at h
      · next hname =>
        rw [push_extend_place hplace _ hname]
        exact ih _ h
      · next hname =>
        rw [push_of_not he hname]
        exact ih hplace h

/-- **A text that never climbs above its start** leads down from every path alike. -/
theorem walk_of_landing {s : String} {l : List (List Char)} (h : landing s = some l) :
    ∃ hl : ∀ n ∈ l, IsName n, ∀ p : UnixPath, p.walk s = p.extend l hl := by
  have hnil : ∀ n ∈ ([] : List (List Char)), IsName n := fun n hn => by cases hn
  obtain ⟨hl, hfold⟩ := foldl_push_of_descend hnil h
  refine ⟨hl, fun p => ?_⟩
  have hstart : p.extend [] hnil = p := by
    ext1 <;> simp [extend]
  rw [← hfold p, walk, hstart]

/-- Only a text that never climbs above its start stays in the working directory. -/
theorem exists_landing {s : String} (h : here.Contains (here.walk s)) :
    ∃ l, landing s = some l := by
  cases hs : landing s with
  | some l => exact ⟨l, rfl⟩
  | none =>
    have hnil : ∀ n ∈ ([] : List (List Char)), IsName n := fun n hn => by cases hn
    have hup := up_pos_of_descend hnil hs
    have hstart : here.extend [] (fun n hn => by cases hn) = here := rfl
    rw [hstart] at hup
    have hzero : (here.walk s).up = 0 := h.2.1
    rw [walk] at hzero
    omega

end UnixPath

theorem LeadsDown.below {s : String} (h : LeadsDown s) (p : UnixPath) : p.Below (p.walk s) := by
  obtain ⟨l, hl, hne⟩ := h
  obtain ⟨hnames, hwalk⟩ := walk_of_landing hl
  rw [hwalk p]
  exact below_extend.mpr hne

/-- **The texts that lead below their start from everywhere** are told apart at the working
directory. -/
theorem leadsDown_of_here {s : String} (h : here.Below (here.walk s)) : LeadsDown s := by
  obtain ⟨l, hl⟩ := exists_landing h.1
  obtain ⟨hnames, hwalk⟩ := walk_of_landing hl
  rw [hwalk here] at h
  exact ⟨l, hl, below_extend.mp h⟩

theorem walk_slash (p : UnixPath) (a b : String) : p.walk (a ++ "/" ++ b) = (p.walk a).walk b := by
  have htext : a ++ "/" ++ b = String.ofList (a.toList ++ '/' :: b.toList) := by
    apply String.toList_inj.mp
    simp
  rw [htext, walk_append_slash, String.ofList_toList, String.ofList_toList]

/-! ### Texts that may lead to one path -/

namespace UnixPath

variable {p a b : UnixPath}

/-- Where one path leads from another. -/
def follow (p a : UnixPath) : UnixPath := (above^[a.up] p).extend a.names a.isName

theorem above_iterate_names (n : Nat) (p : UnixPath) :
    (above^[n] p).names = p.names.take (p.names.length - n) := by
  induction n generalizing p with
  | zero => simp
  | succ n ih =>
    rw [Function.iterate_succ_apply, ih]
    simp only [above, length_dropLast]
    rw [dropLast_eq_take, take_take]
    congr 1
    omega

theorem above_iterate_rooted (n : Nat) (p : UnixPath) : (above^[n] p).rooted = p.rooted := by
  induction n generalizing p with
  | zero => rfl
  | succ n ih => rw [Function.iterate_succ_apply, ih, rooted_above]

/-- **A walk depends on where its text leads from the working directory**, and on nothing else of
it. -/
theorem foldl_push_eq_follow (es : List (List Char)) {a : UnixPath} (ha : a.rooted = false) :
    es.foldl push (p.follow a) = p.follow (es.foldl push a) := by
  induction es generalizing a with
  | nil => rfl
  | cons e es ih =>
    have hstep : (p.follow a).push e = p.follow (a.push e) := by
      by_cases he : e = dotdot
      · subst he
        rw [push_dotdot, push_dotdot]
        by_cases hn : a.names = []
        · have hup : a.above.up = a.up + 1 := by simp [above, hn, ha]
          have hnames : a.above.names = [] := by simp [above, hn]
          have hleft : p.follow a = above^[a.up] p := by
            ext1 <;> simp [follow, extend, hn]
          rw [hleft]
          ext1 <;> simp [follow, extend, hup, hnames, Function.iterate_succ_apply']
        · have hup : a.above.up = a.up := by simp [above, hn]
          have hnames : a.above.names = a.names.dropLast := rfl
          rw [follow, above_extend_place _ _ hn]
          ext1 <;> simp [follow, extend, hup, hnames]
      · by_cases hname : IsName e
        · rw [push_name hname, push_name hname]
          ext1 <;> simp [follow, extend]
        · rw [push_of_not he hname, push_of_not he hname]
    rw [foldl_cons, foldl_cons, hstep, ih (by rw [rooted_push, ha])]

/-- A walk does from anywhere what it does from here. -/
theorem walk_eq_follow (p : UnixPath) (s : String) : p.walk s = p.follow (here.walk s) := by
  have h := foldl_push_eq_follow (p := p) (s.toList.splitOn '/') (a := here) rfl
  have hhere : p.follow here = p := by ext1 <;> simp [follow, extend, here]
  rw [hhere] at h
  exact h

/-- `b` goes up at least as often as `a`, and may come to the names of `a` by others that it has
gone up for. -/
def Meets (a b : UnixPath) : Prop :=
  a.up ≤ b.up ∧ a.names <:+ b.names ∧ b.names.length - a.names.length ≤ b.up - a.up

instance (a b : UnixPath) : Decidable (a.Meets b) := inferInstanceAs (Decidable (_ ∧ _ ∧ _))

theorem meets_of_follow_eq (hup : a.up ≤ b.up) (h : p.follow a = p.follow b) : a.Meets b := by
  have hnames := congrArg names h
  simp only [follow, extend, above_iterate_names] at hnames
  have hlen := congrArg List.length hnames
  simp only [length_append, length_take] at hlen
  refine ⟨hup, ?_, by omega⟩
  have hsuf : a.names <:+ p.names.take (p.names.length - b.up) ++ b.names :=
    hnames ▸ suffix_append _ _
  exact suffix_of_suffix_length_le hsuf (suffix_append _ _) (by omega)

theorem exists_follow_eq (h : a.Meets b) : ∃ p : UnixPath, p.follow a = p.follow b := by
  obtain ⟨hup, ⟨w, hw⟩, hlen⟩ := h
  have hnames : ∀ n ∈ w ++ List.replicate a.up ['x'], IsName n := by
    intro n hn
    rcases mem_append.mp hn with hn | hn
    · exact b.isName n (hw ▸ mem_append_left _ hn)
    · rw [eq_of_mem_replicate hn]
      decide
  rw [← hw, length_append, Nat.add_sub_cancel] at hlen
  refine ⟨root.extend _ hnames, ?_⟩
  ext1
  · simp [follow, extend, above_iterate_rooted]
  · have hr : ∀ n, (above^[n] (root.extend _ hnames)).up = 0 := fun n =>
      (above^[n] (root.extend _ hnames)).up_rooted (above_iterate_rooted n _)
    simp only [follow, extend] at hr ⊢
    rw [hr, hr]
  · simp only [follow, extend, above_iterate_names, root, nil_append, length_append,
      length_replicate, Nat.add_sub_cancel, take_left]
    rw [show w.length + a.up - b.up = 0 by omega, take_zero, nil_append, hw]

/-- **Two texts may lead to one path** exactly if one of them meets the other. -/
theorem exists_walk_eq_iff {s t : String} : (∃ p : UnixPath, p.walk s = p.walk t) ↔
    (here.walk s).Meets (here.walk t) ∨ (here.walk t).Meets (here.walk s) := by
  constructor
  · rintro ⟨p, h⟩
    rw [walk_eq_follow p s, walk_eq_follow p t] at h
    rcases Nat.le_total (here.walk s).up (here.walk t).up with hup | hup
    · exact .inl (meets_of_follow_eq hup h)
    · exact .inr (meets_of_follow_eq hup h.symm)
  · rintro (h | h)
    · obtain ⟨p, hp⟩ := exists_follow_eq h
      exact ⟨p, by rw [walk_eq_follow p s, walk_eq_follow p t, hp]⟩
    · obtain ⟨p, hp⟩ := exists_follow_eq h
      exact ⟨p, by rw [walk_eq_follow p s, walk_eq_follow p t, hp]⟩

end UnixPath
