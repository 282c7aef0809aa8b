import Mathlib.Data.List.Basic
import NimbusCore.Support.Text

/-!
# Support — Paths

`path/filepath` of Go's standard library on Unix: `Clean`, `Join`, `Dir` and `Rel`, all of them
lexical.  What a text means as a path is a `UnixPath`: whether it starts at the root, how many times
it goes up, and the names it then goes down by.  Of the characters of a text only slashes and dots
are told apart, so that they may as well be the bytes of a string that is not UTF-8.

* `parse_render`: a path is found again from its text, so that `cleanPath` is idempotent.
* `parse_join`: what is joined to a path is walked from it, element by element.
* `Contains`: one path is another or below it.  `rel_inside_iff`: this is what the test on the text
  of `Rel` says.  `rel_exact`: on texts, that the cleaned target is the cleaned base or has it as a
  prefix of whole segments.

Nothing here is about a particular program.
-/

namespace UnixPath

/-- The element that goes up. -/
def dotdot : List Char := ['.', '.']

/-- An element that is a name. -/
def IsName (n : List Char) : Prop := n ≠ [] ∧ n ≠ ['.'] ∧ n ≠ dotdot ∧ '/' ∉ n

instance (n : List Char) : Decidable (IsName n) := inferInstanceAs (Decidable (_ ∧ _ ∧ _ ∧ _))

end UnixPath

open UnixPath List

/-- What a text means as a path. -/
@[ext] structure UnixPath where
  rooted : Bool
  up : Nat
  names : List (List Char)
  up_rooted : rooted = true → up = 0
  isName : ∀ n ∈ names, IsName n
  deriving DecidableEq

namespace UnixPath

/-- The working directory. -/
def here : UnixPath where
  rooted := false
  up := 0
  names := []
  up_rooted h := by cases h
  isName n h := by cases h

/-- The root. -/
def root : UnixPath where
  rooted := true
  up := 0
  names := []
  up_rooted _ := rfl
  isName n h := by cases h

/-- More names below. -/
def extend (p : UnixPath) (ns : List (List Char)) (h : ∀ n ∈ ns, IsName n) : UnixPath where
  rooted := p.rooted
  up := p.up
  names := p.names ++ ns
  up_rooted := p.up_rooted
  isName n hn := (mem_append.mp hn).elim (p.isName n) (h n)

/-- One up.  The root is above itself. -/
def above (p : UnixPath) : UnixPath where
  rooted := p.rooted
  up := if p.names = [] ∧ p.rooted = false then p.up + 1 else p.up
  names := p.names.dropLast
  up_rooted h := by simp [h, p.up_rooted h]
  isName n hn := p.isName n (dropLast_subset _ hn)

/-- One element further.  An element that is empty or a dot is passed over. -/
def push (p : UnixPath) (e : List Char) : UnixPath :=
  if e = dotdot then p.above
  else if h : IsName e then p.extend [e] fun _ hn => mem_singleton.mp hn ▸ h
  else p

/-- All elements of a text. -/
def walk (p : UnixPath) (s : String) : UnixPath := (s.toList.splitOn '/').foldl push p

/-- The path of a text. -/
def parse (s : String) : UnixPath := (if s.toList.head? = some '/' then root else here).walk s

/-- The elements of a path, those that go up first. -/
def elements (p : UnixPath) : List (List Char) := List.replicate p.up dotdot ++ p.names

/-- The elements that a path is written with: the working directory is a dot. -/
def segmentsOf (p : UnixPath) : List (List Char) := if p = here then [['.']] else p.elements

/-- Elements as a text. -/
def renderElements (es : List (List Char)) : String :=
  if es = [] then "." else String.ofList (['/'].intercalate es)

/-- The shortest text. -/
def render (p : UnixPath) : String :=
  if p.rooted then String.ofList ('/' :: ['/'].intercalate p.names) else renderElements p.elements

end UnixPath

/-- `filepath.Clean`. -/
def cleanPath (s : String) : String := (parse s).render

/-- `filepath.Join`. -/
def joinPath (parts : List String) : String :=
  let parts := parts.filter (· ≠ "")
  if parts = [] then "" else cleanPath (String.ofList (['/'].intercalate (parts.map String.toList)))

/-- `filepath.Dir`. -/
def dirPath (s : String) : String :=
  cleanPath (String.ofList (s.toList.reverse.dropWhile (· ≠ '/')).reverse)

/-- Two lists without the elements that both start with. -/
def stripCommon {α : Type} [DecidableEq α] : List α → List α → List α × List α
  | a :: as, b :: bs => if a = b then stripCommon as bs else (a :: as, b :: bs)
  | as, bs => (as, bs)

/-- The elements that lead from one path to another, if there are any: a base that goes up where the
target does not cannot be undone. -/
def relElements (bs ts : List (List Char)) : Option (List (List Char)) :=
  let rest := stripCommon bs ts
  if rest.1.head? = some dotdot then none
  else some (List.replicate rest.1.length dotdot ++ rest.2)

/-- `filepath.Rel`: a text that leads from `base` to `target`, if there is one. -/
def relPath (base target : String) : Option String :=
  if cleanPath base = cleanPath target then some "."
  else if (parse base).rooted ≠ (parse target).rooted then none
  else (relElements (parse base).elements (parse target).segmentsOf).map renderElements

/-- `rel == ".." || strings.HasPrefix(rel, "../")`. -/
def Escapes (rel : String) : Prop := rel = ".." ∨ "../".toList <+: rel.toList

instance (rel : String) : Decidable (Escapes rel) := inferInstanceAs (Decidable (_ ∨ _))

example : cleanPath "/a/../../b/./c//" = "/b/c" := by decide
example : joinPath ["data", "../..", "x"] = "../x" := by decide
example : dirPath "a/b/../c" = "a" := by decide
example : relPath "/a/b" "/a/c/d" = some "../c/d" := by decide
example : relPath ".." "a" = none := by decide

namespace UnixPath

variable {p q b : UnixPath} {e : List Char} {es ns : List (List Char)}

/-! ### Walking -/

@[simp] theorem push_dotdot : p.push dotdot = p.above := if_pos rfl

theorem push_name (h : IsName e) :
    p.push e = p.extend [e] (fun _ hn => mem_singleton.mp hn ▸ h) := by
  rw [push, if_neg h.2.2.1, dif_pos h]

theorem push_of_not (hd : e ≠ dotdot) (h : ¬ IsName e) : p.push e = p := by
  rw [push, if_neg hd, dif_neg h]

@[simp] theorem push_nil : p.push [] = p := push_of_not (by decide) (by decide)

@[simp] theorem walk_empty : p.walk "" = p := by simp [walk]

/-- A text after a slash is walked after the text before it. -/
theorem walk_append_slash (p : UnixPath) (a b : List Char) :
    p.walk (String.ofList (a ++ '/' :: b)) = (p.walk (String.ofList a)).walk (String.ofList b) := by
  simp [walk, splitOn_append_cons_self]

@[simp] theorem rooted_above : p.above.rooted = p.rooted := rfl

@[simp] theorem rooted_push : (p.push e).rooted = p.rooted := by
  rw [push]
  split
  · rfl
  · split <;> rfl

theorem rooted_foldl (es : List (List Char)) : (es.foldl push p).rooted = p.rooted := by
  induction es generalizing p with
  | nil => rfl
  | cons e es ih => rw [foldl_cons, ih, rooted_push]

@[simp] theorem rooted_walk (s : String) : (p.walk s).rooted = p.rooted := rooted_foldl _

theorem up_le_push : p.up ≤ (p.push e).up := by
  rw [push]
  split
  · simp only [above]
    split <;> omega
  · split <;> exact Nat.le_refl _

theorem up_le_foldl (es : List (List Char)) : p.up ≤ (es.foldl push p).up := by
  induction es generalizing p with
  | nil => exact Nat.le_refl _
  | cons e es ih => exact Nat.le_trans up_le_push ih

/-- Names lead down. -/
theorem foldl_push_names (p : UnixPath) (h : ∀ n ∈ ns, IsName n) :
    ns.foldl push p = p.extend ns h := by
  induction ns generalizing p with
  | nil => simp [extend]
  | cons n ns ih =>
    obtain ⟨hn, hns⟩ := forall_mem_cons.mp h
    rw [foldl_cons, ih _ hns, push_name hn]
    simp [extend]

theorem foldl_push_dotdot (n : Nat) (hp : p.names = []) (hr : p.rooted = false) :
    (List.replicate n dotdot).foldl push p =
      { p with up := p.up + n, up_rooted := by simp [hr] } := by
  induction n generalizing p with
  | zero => rfl
  | succ n ih =>
    have habove : p.above.names = [] := by simp [above, hp]
    rw [replicate_succ, foldl_cons, push_dotdot, ih habove hr]
    ext1 <;> simp [above, hp, hr]
    omega

theorem dotdot_notMem (p : UnixPath) : dotdot ∉ p.names := fun h => (p.isName _ h).2.2.1 rfl

theorem slash_notMem_elements (p : UnixPath) : ∀ e ∈ p.elements, '/' ∉ e := by
  intro e he
  rcases mem_append.mp he with he | he
  · rw [eq_of_mem_replicate he]
    decide
  · exact (p.isName e he).2.2.2

theorem foldl_push_elements (hr : p.rooted = false) : p.elements.foldl push here = p := by
  rw [elements, foldl_append, foldl_push_dotdot _ rfl rfl, foldl_push_names _ p.isName]
  ext1 <;> simp [extend, here, hr]

/-! ### Texts -/

theorem head?_intercalate_ne (h : ∀ e ∈ es, '/' ∉ e) (hne : ∀ e ∈ es, e ≠ []) :
    (['/'].intercalate es).head? ≠ some '/' := by
  rcases es with _ | ⟨e, es⟩
  · simp
  obtain ⟨c, e, rfl⟩ := exists_cons_of_ne_nil (hne e mem_cons_self)
  have hc : c ≠ '/' := fun hc => h _ mem_cons_self (by simp [hc])
  cases es with
  | nil => simpa using hc
  | cons e' es => simpa [intercalate_cons_cons] using hc

theorem ne_nil_of_mem_elements (p : UnixPath) : ∀ e ∈ p.elements, e ≠ [] := by
  intro e he
  rcases mem_append.mp he with he | he
  · rw [eq_of_mem_replicate he]
    decide
  · exact (p.isName e he).1

/-- **A path is found again from its text.** -/
theorem parse_render (p : UnixPath) : parse p.render = p := by
  rw [render]
  split
  · next hr =>
    have hup := p.up_rooted hr
    rw [parse, String.toList_ofList, List.head?_cons, if_pos rfl]
    have hsplit : ('/' :: ['/'].intercalate p.names).splitOn '/' =
        [] :: (['/'].intercalate p.names).splitOn '/' :=
      splitOn_append_cons_self [] _
    rw [walk, String.toList_ofList, hsplit, foldl_cons, push_nil]
    by_cases hn : p.names = []
    · rw [hn]
      ext1 <;> simp [root, hr, hup, hn]
    · rw [splitOn_intercalate _ (fun n h => (p.isName n h).2.2.2) hn,
        foldl_push_names _ p.isName]
      ext1 <;> simp [extend, root, hr, hup]
  · next hr =>
    have hr : p.rooted = false := by simpa using hr
    rw [renderElements]
    split
    · next hn =>
      have := foldl_push_elements hr
      rw [hn] at this
      exact this
    · next hn =>
      rw [parse, String.toList_ofList,
        if_neg (head?_intercalate_ne p.slash_notMem_elements p.ne_nil_of_mem_elements), walk,
        String.toList_ofList, splitOn_intercalate _ p.slash_notMem_elements hn,
        foldl_push_elements hr]

@[simp] theorem parse_clean (s : String) : parse (cleanPath s) = parse s := parse_render _

theorem intercalate_ne_nil (hne : es ≠ []) (h : ∀ e ∈ es, e ≠ []) :
    ['/'].intercalate es ≠ [] := by
  obtain ⟨e, es, rfl⟩ := exists_cons_of_ne_nil hne
  have he := h e mem_cons_self
  cases es <;> simp [intercalate_cons_cons, he]

theorem render_ne_empty (p : UnixPath) : p.render ≠ "" := by
  rw [render]
  split
  · simp
  · rw [renderElements]
    split
    · decide
    · next hne => simpa using intercalate_ne_nil hne p.ne_nil_of_mem_elements

@[simp] theorem joinPath_empty_cons (ss : List String) : joinPath ("" :: ss) = joinPath ss := by
  simp [joinPath]

/-- Only of empty texts an empty one is joined. -/
theorem joinPath_ne_empty {ss : List String} {s : String} (hmem : s ∈ ss) (hs : s ≠ "") :
    joinPath ss ≠ "" := by
  have hne : ss.filter (· ≠ "") ≠ [] :=
    ne_nil_of_mem (mem_filter.mpr ⟨hmem, by simpa using hs⟩)
  rw [joinPath, if_neg hne]
  exact render_ne_empty _

/-- What is joined to a path is walked from it. -/
theorem walk_intercalate (p : UnixPath) (ss : List String) :
    p.walk (String.ofList (['/'].intercalate (ss.map String.toList))) = ss.foldl walk p := by
  induction ss generalizing p with
  | nil => exact walk_empty
  | cons s ss ih =>
    rcases ss with _ | ⟨s', ss⟩
    · simp
    rw [map_cons, map_cons, intercalate_cons_cons, append_assoc,
      singleton_append, walk_append_slash, String.ofList_toList, foldl_cons, ← ih,
      map_cons]

theorem foldl_walk_filter (p : UnixPath) (ss : List String) :
    (ss.filter (· ≠ "")).foldl walk p = ss.foldl walk p := by
  induction ss generalizing p with
  | nil => rfl
  | cons s ss ih =>
    by_cases hs : s = ""
    · simpa [hs] using ih p
    · simpa [hs] using ih _

/-- There is a text for every way down. -/
theorem exists_walk_extend (p : UnixPath) (h : ∀ n ∈ ns, IsName n) :
    ∃ s : String, p.walk s = p.extend ns h := by
  by_cases hne : ns = []
  · subst hne
    exact ⟨"", by simp [extend]⟩
  · refine ⟨String.ofList (['/'].intercalate ns), ?_⟩
    rw [walk, String.toList_ofList, splitOn_intercalate _ (fun n hn => (h n hn).2.2.2) hne,
      foldl_push_names p h]

/-- A name leads to what has it below. -/
theorem walk_eq_extend (p : UnixPath) {n : List Char} (h : IsName n) :
    p.walk (String.ofList n) = p.extend [n] (forall_mem_singleton.mpr h) := by
  have hsplit : n.splitOn '/' = [n] := by
    have hslash : ∀ l ∈ [n], '/' ∉ l := forall_mem_singleton.mpr h.2.2.2
    have hjoin := splitOn_intercalate '/' hslash (cons_ne_nil n [])
    rwa [intercalate_singleton] at hjoin
  rw [walk, String.toList_ofList, hsplit, foldl_cons, foldl_nil, push_name h]

/-- **Joining walks.** -/
theorem parse_join {s : String} (hs : s ≠ "") (ss : List String) :
    parse (joinPath (s :: ss)) = ss.foldl walk (parse s) := by
  have hl : s.toList ≠ [] := fun h => hs (String.toList_eq_nil_iff.mp h)
  have hhead : ∀ r : List String,
      (['/'].intercalate ((s :: r).map String.toList)).head? = s.toList.head? := by
    intro r
    obtain ⟨c, cs, hc⟩ := exists_cons_of_ne_nil hl
    cases r with
    | nil => simp
    | cons s' r => simp [intercalate_cons_cons, hc]
  have hfilter : (s :: ss).filter (· ≠ "") = s :: ss.filter (· ≠ "") :=
    filter_cons_of_pos (by simpa using hs)
  rw [joinPath, hfilter, if_neg (cons_ne_nil _ _), parse_clean, parse, String.toList_ofList,
    hhead, walk_intercalate, foldl_cons, foldl_walk_filter, parse]

theorem joinPath_eq_render {s : String} (hs : s ≠ "") (ss : List String) :
    joinPath (s :: ss) = (ss.foldl walk (parse s)).render := by
  have hfilter : (s :: ss).filter (· ≠ "") ≠ [] := by simp [hs]
  rw [← parse_join hs, joinPath, if_neg hfilter, parse_clean, cleanPath]

/-! ### Directories -/

theorem intercalate_concat (hes : es ≠ []) (n : List Char) :
    ['/'].intercalate (es ++ [n]) = ['/'].intercalate es ++ '/' :: n := by
  induction es with
  | nil => exact absurd rfl hes
  | cons e es ih =>
    rcases es with _ | ⟨e', es⟩
    · simp [intercalate_cons_cons]
    rw [cons_append, cons_append, intercalate_cons_cons, ← cons_append,
      ih (cons_ne_nil _ _), intercalate_cons_cons]
    simp

/-- The directory of a text is what stands up to its last slash. -/
theorem dirPath_append {a n : List Char} (hn : '/' ∉ n) (ha : a = [] ∨ a.getLast? = some '/') :
    dirPath (String.ofList (a ++ n)) = cleanPath (String.ofList a) := by
  have hdrop : (n.reverse ++ a.reverse).dropWhile (· ≠ '/') = a.reverse := by
    have hpos : ∀ c ∈ n.reverse, decide (c ≠ '/') = true := by
      intro c hc
      exact decide_eq_true fun h => hn (h ▸ mem_reverse.mp hc)
    rw [dropWhile_append_of_pos hpos]
    rcases ha with rfl | ha
    · rfl
    · obtain ⟨a', rfl⟩ := List.getLast?_eq_some_iff.mp ha
      simp
  rw [dirPath, String.toList_ofList, reverse_append, hdrop, reverse_reverse]

/-- A slash at the end means nothing, but for the root. -/
theorem parse_append_slash {t : List Char} (ht : t ≠ []) :
    parse (String.ofList (t ++ ['/'])) = parse (String.ofList t) := by
  have hhead : (t ++ ['/']).head? = t.head? := List.head?_append_of_ne_nil t ht
  rw [parse, String.toList_ofList, hhead, walk_append_slash, parse, String.toList_ofList]
  exact walk_empty

theorem above_extend {n : List Char} (h : p.names = ns ++ [n]) :
    p.above.names = ns ∧ p.above.up = p.up := by
  have hne : p.names ≠ [] := by simp [h]
  exact ⟨by simp [above, h], by simp [above, hne]⟩

/-- **The directory of a path with a name** is one up. -/
theorem parse_dirPath_render (hp : p.names ≠ []) : parse (dirPath p.render) = p.above := by
  obtain ⟨ns, n, hns⟩ := (eq_nil_or_concat' p.names).resolve_left hp
  obtain ⟨hnames, hup⟩ := above_extend hns
  have hn : '/' ∉ n := (p.isName n (by simp [hns])).2.2.2
  have helems : p.elements = p.above.elements ++ [n] := by
    simp only [elements, hnames, hup, hns, append_assoc]
  have hfound := parse_render p.above
  cases hr : p.rooted with
  | true =>
    have hr' : p.above.rooted = true := hr
    rw [render, if_pos hr, hns]
    rw [render, if_pos hr', hnames] at hfound
    by_cases hnil : ns = []
    · subst hnil
      rw [nil_append, intercalate_singleton]
      rw [show '/' :: n = ['/'] ++ n from rfl, dirPath_append hn (.inr rfl), parse_clean]
      exact hfound
    · rw [intercalate_concat hnil, show '/' :: (['/'].intercalate ns ++ '/' :: n) =
        ('/' :: ['/'].intercalate ns ++ ['/']) ++ n by simp,
        dirPath_append hn (.inr List.getLast?_concat),
        parse_clean, parse_append_slash (cons_ne_nil _ _), hfound]
  | false =>
    have hr' : p.above.rooted ≠ true := by simp [hr]
    rw [render, if_neg (by simp [hr]), renderElements, if_neg (by simp [helems]), helems]
    rw [render, if_neg hr', renderElements] at hfound
    by_cases hnil : p.above.elements = []
    · rw [if_pos hnil] at hfound
      rw [hnil, nil_append, intercalate_singleton, ← nil_append n,
        dirPath_append hn (.inl rfl), parse_clean]
      exact hfound
    · rw [if_neg hnil] at hfound
      have hne := intercalate_ne_nil hnil p.above.ne_nil_of_mem_elements
      rw [intercalate_concat hnil, show ['/'].intercalate p.above.elements ++ '/' :: n =
        (['/'].intercalate p.above.elements ++ ['/']) ++ n by simp,
        dirPath_append hn (.inr (by simp)), parse_clean, parse_append_slash hne, hfound]

/-! ### Containment -/

/-- `q` is `p` or below it. -/
def Contains (p q : UnixPath) : Prop := q.rooted = p.rooted ∧ q.up = p.up ∧ p.names <+: q.names

/-- `q` is below `p`. -/
def Below (p q : UnixPath) : Prop := p.Contains q ∧ q ≠ p

instance (p q : UnixPath) : Decidable (p.Contains q) := inferInstanceAs (Decidable (_ ∧ _ ∧ _))

instance (p q : UnixPath) : Decidable (p.Below q) := inferInstanceAs (Decidable (_ ∧ _))

theorem contains_refl (p : UnixPath) : p.Contains p := ⟨rfl, rfl, prefix_refl _⟩

theorem Contains.trans {q r : UnixPath} (h : p.Contains q) (h' : q.Contains r) : p.Contains r :=
  ⟨h'.1.trans h.1, h'.2.1.trans h.2.1, h.2.2.trans h'.2.2⟩

theorem Contains.antisymm (h : p.Contains q) (h' : q.Contains p) : p = q :=
  UnixPath.ext h'.1 h'.2.1 (h.2.2.eq_of_length_le h'.2.2.length_le)

/-- Of two paths that contain a third, one contains the other. -/
theorem Contains.total {q r : UnixPath} (h : p.Contains r) (h' : q.Contains r) :
    p.Contains q ∨ q.Contains p := by
  rcases prefix_or_prefix_of_prefix h.2.2 h'.2.2 with hn | hn
  · exact .inl ⟨h'.1.symm.trans h.1, h'.2.1.symm.trans h.2.1, hn⟩
  · exact .inr ⟨h.1.symm.trans h'.1, h.2.1.symm.trans h'.2.1, hn⟩

theorem contains_extend (ns : List (List Char)) (h : ∀ n ∈ ns, IsName n) :
    p.Contains (p.extend ns h) := ⟨rfl, rfl, prefix_append _ _⟩

theorem Contains.exists_extend (h : p.Contains q) :
    ∃ ns hns, q = p.extend ns hns := by
  obtain ⟨ns, hns⟩ := h.2.2
  refine ⟨ns, fun n hn => q.isName n (hns ▸ mem_append_right _ hn), ?_⟩
  exact UnixPath.ext h.1 h.2.1 hns.symm

@[simp] theorem extend_contains_extend {ms ns : List (List Char)} {hm : ∀ n ∈ ms, IsName n}
    {hn : ∀ n ∈ ns, IsName n} : (p.extend ms hm).Contains (p.extend ns hn) ↔ ms <+: ns := by
  simp [Contains, extend]

@[simp] theorem extend_eq_self {h : ∀ n ∈ ns, IsName n} :
    p.extend ns h = p ↔ ns = [] := by
  simp [UnixPath.ext_iff, extend]

theorem below_extend {h : ∀ n ∈ ns, IsName n} :
    p.Below (p.extend ns h) ↔ ns ≠ [] := by
  simp [Below, contains_extend]

/-- What is above something below is not left. -/
theorem Below.contains_above (h : p.Below q) : p.Contains q.above := by
  obtain ⟨ns, hns, rfl⟩ := h.1.exists_extend
  have hne : ns ≠ [] := below_extend.mp h
  refine ⟨rfl, ?_, ?_⟩
  · simp [above, extend, hne]
  · exact ⟨ns.dropLast, (dropLast_append_of_ne_nil hne).symm⟩

theorem Below.names_ne_nil (h : p.Below q) : q.names ≠ [] := by
  obtain ⟨ns, hns, rfl⟩ := h.1.exists_extend
  simp [extend, below_extend.mp h]

/-- What is above contains. -/
theorem contains_of_above (hp : p.names ≠ []) : p.above.Contains p := by
  refine ⟨rfl, ?_, dropLast_prefix _⟩
  simp [above, hp]

theorem Below.trans_contains {q r : UnixPath} (h : p.Below q) (h' : q.Contains r) : p.Below r := by
  refine ⟨h.1.trans h', fun he => h.2 ?_⟩
  have hback : q.Contains p := he ▸ h'
  exact hback.antisymm h.1

/-! ### Relative paths -/

/-- How often something stands in front of what does not start with it. -/
theorem replicate_append_inj {α : Type} {a : α} {x y : List α} (hx : x.head? ≠ some a)
    (hy : y.head? ≠ some a) :
    ∀ {m n : Nat}, List.replicate m a ++ x = List.replicate n a ++ y → m = n ∧ x = y
  | 0, 0, h => ⟨rfl, h⟩
  | 0, n + 1, h => by
    rw [replicate_succ, cons_append] at h
    exact absurd (congrArg List.head? h) hx
  | m + 1, 0, h => by
    rw [replicate_succ, cons_append] at h
    exact absurd (congrArg List.head? h.symm) hy
  | m + 1, n + 1, h => by
    rw [replicate_succ, replicate_succ, cons_append, cons_append] at h
    obtain ⟨hm, hxy⟩ := replicate_append_inj hx hy (List.cons.inj h).2
    exact ⟨congrArg (· + 1) hm, hxy⟩

theorem head?_names_ne (p : UnixPath) : p.names.head? ≠ some dotdot :=
  fun h => p.dotdot_notMem (mem_of_mem_head? h)

/-- The elements of what a path contains start with those of the path. -/
theorem contains_iff_elements :
    p.Contains q ↔ q.rooted = p.rooted ∧
      ∃ r, q.elements = p.elements ++ r ∧ r.head? ≠ some dotdot := by
  constructor
  · intro h
    obtain ⟨ns, hns, rfl⟩ := h.exists_extend
    refine ⟨rfl, ns, by simp [elements, extend], fun hd => ?_⟩
    exact (hns dotdot (mem_of_mem_head? hd)).2.2.1 rfl
  · rintro ⟨hr, r, he, hd⟩
    have hhead : (p.names ++ r).head? ≠ some dotdot := by
      have hp := p.head?_names_ne
      cases hn : p.names with
      | nil => simpa using hd
      | cons n ns => simpa [hn] using hp
    rw [elements, elements, append_assoc] at he
    obtain ⟨hup, hnames⟩ := replicate_append_inj q.head?_names_ne hhead he
    exact ⟨hr, hup, r, hnames.symm⟩

section

variable {α : Type} [DecidableEq α]

/-- What has been taken off both lists. -/
theorem stripCommon_spec : ∀ as bs : List α, ∃ c, as = c ++ (stripCommon as bs).1 ∧
    bs = c ++ (stripCommon as bs).2
  | [], bs | a :: as, [] => ⟨[], by simp [stripCommon], by simp [stripCommon]⟩
  | a :: as, b :: bs => by
    rw [stripCommon]
    split
    · next h =>
      obtain ⟨c, ha, hb⟩ := stripCommon_spec as bs
      exact ⟨a :: c, congrArg (a :: ·) ha, by rw [← h]; exact congrArg (a :: ·) hb⟩
    · exact ⟨[], rfl, rfl⟩

@[simp] theorem stripCommon_append (as r : List α) : stripCommon as (as ++ r) = ([], r) := by
  induction as with
  | nil => cases r <;> rfl
  | cons a as ih => rw [cons_append, stripCommon, if_pos rfl, ih]

end

theorem eq_of_isPrefix_slash {a b c : List Char} (ha : '/' ∉ a) (hb : '/' ∉ b)
    (h : a ++ ['/'] <+: b ++ '/' :: c) : a = b := by
  induction a generalizing b with
  | nil =>
    cases b with
    | nil => rfl
    | cons y b => exact absurd (cons_prefix_cons.mp h).1 (by simp_all)
  | cons x a ih =>
    rcases b with _ | ⟨y, b⟩
    · exact absurd (cons_prefix_cons.mp h).1 (by simp_all [eq_comm])
    obtain ⟨rfl, htail⟩ := cons_prefix_cons.mp h
    have ha : '/' ∉ a := fun hm => ha (mem_cons_of_mem _ hm)
    have hb : '/' ∉ b := fun hm => hb (mem_cons_of_mem _ hm)
    rw [ih ha hb htail]

/-- A text of elements goes up at first if its first element does. -/
theorem escapes_intercalate (hes : ∀ e ∈ es, '/' ∉ e) :
    Escapes (renderElements es) ↔ es.head? = some dotdot := by
  have hpre : "../".toList = dotdot ++ ['/'] := by decide
  have hdd : ".." = String.ofList dotdot := by decide
  rcases es with _ | ⟨e, es⟩
  · exact iff_of_false (by decide) (by simp)
  have he : '/' ∉ e := hes e mem_cons_self
  rw [renderElements, if_neg (cons_ne_nil _ _), Escapes, hpre, hdd, String.toList_ofList,
    String.ofList_inj, List.head?_cons, Option.some_inj]
  cases es with
  | nil =>
    rw [intercalate_singleton]
    constructor
    · rintro (h | h)
      · exact h
      · exact absurd (h.subset (by simp)) he
    · exact .inl
  | cons e' es =>
    rw [intercalate_cons_cons, append_assoc, singleton_append]
    constructor
    · rintro (h | h)
      · exact absurd (h ▸ by simp : '/' ∈ dotdot) (by decide)
      · exact (eq_of_isPrefix_slash (by decide) he h).symm
    · rintro rfl
      exact .inr ⟨['/'].intercalate (e' :: es), by simp⟩

/-- What leads on without going up at first leads on from the base itself. -/
theorem relElements_inside_iff {bs ts : List (List Char)} :
    (∃ es, relElements bs ts = some es ∧ es.head? ≠ some dotdot) ↔
      ∃ r, ts = bs ++ r ∧ r.head? ≠ some dotdot := by
  constructor
  · rintro ⟨es, hes, hd⟩
    obtain ⟨c, hb, ht⟩ := stripCommon_spec bs ts
    rw [relElements] at hes
    split at hes
    · cases hes
    · cases hes
      cases hrest : (stripCommon bs ts).1 with
      | nil =>
        rw [hrest] at hd hb
        rw [append_nil] at hb
        exact ⟨_, ht.trans (congrArg (· ++ _) hb.symm), by simpa using hd⟩
      | cons b rest => simp [hrest, replicate_succ] at hd
  · rintro ⟨r, rfl, hd⟩
    exact ⟨r, by simp [relElements], hd⟩

theorem slash_notMem_segmentsOf (p : UnixPath) : ∀ e ∈ p.segmentsOf, '/' ∉ e := by
  rw [segmentsOf]
  split
  · decide
  · exact p.slash_notMem_elements

theorem slash_notMem_relElements {p q : UnixPath}
    (h : relElements p.elements q.segmentsOf = some es) : ∀ e ∈ es, '/' ∉ e := by
  obtain ⟨c, -, hq⟩ := stripCommon_spec p.elements q.segmentsOf
  rw [relElements] at h
  split at h
  · cases h
  · cases h
    intro e he
    rcases mem_append.mp he with he | he
    · rw [eq_of_mem_replicate he]
      decide
    · exact q.slash_notMem_segmentsOf e (hq ▸ mem_append_right _ he)

theorem elements_eq_nil (hr : p.rooted = false) : p.elements = [] ↔ p = here := by
  rw [elements, append_eq_nil_iff, replicate_eq_nil_iff, UnixPath.ext_iff, hr]
  simp [here]

theorem dot_notMem_elements (p : UnixPath) : ['.'] ∉ p.elements := by
  intro h
  rcases mem_append.mp h with h | h
  · exact absurd (eq_of_mem_replicate h) (by decide)
  · exact (p.isName _ h).2.1 rfl

/-- Nothing else than the working directory is above it. -/
theorem contains_iff_segmentsOf (hne : p ≠ q) (hr : q.rooted = p.rooted) :
    p.Contains q ↔ ∃ r, q.segmentsOf = p.elements ++ r ∧ r.head? ≠ some dotdot := by
  rw [contains_iff_elements, and_iff_right hr, segmentsOf]
  split
  · next hq =>
    subst hq
    have hp : p.elements ≠ [] := fun h => hne ((elements_eq_nil hr.symm).mp h)
    obtain ⟨e, es, hes⟩ := exists_cons_of_ne_nil hp
    have hdot : e ≠ ['.'] := by
      rintro rfl
      exact p.dot_notMem_elements (by rw [hes]; exact mem_cons_self)
    refine iff_of_false ?_ ?_
    · rintro ⟨r, h, -⟩
      rw [hes] at h
      cases h
    · rintro ⟨r, h, -⟩
      rw [hes] at h
      exact hdot (List.cons.inj h).1.symm
  · exact Iff.rfl

/-- **The test on the relative path** is passed by what the base contains. -/
theorem rel_inside_iff (base target : String) :
    (∃ rel, relPath base target = some rel ∧ ¬ Escapes rel) ↔
      (parse base).Contains (parse target) := by
  rw [relPath]
  split
  · next heq =>
    rw [← parse_clean base, heq, parse_clean]
    exact iff_of_true ⟨".", rfl, by decide⟩ (contains_refl _)
  · next htext =>
    have hne : parse base ≠ parse target := fun h => htext (congrArg render h)
    split
    · next hr =>
      refine iff_of_false (by simp) fun h => hr h.1.symm
    · next hr =>
      rw [contains_iff_segmentsOf hne (not_not.mp hr).symm, ← relElements_inside_iff]
      constructor
      · rintro ⟨rel, hrel, hesc⟩
        obtain ⟨es, hes, rfl⟩ := Option.map_eq_some_iff.mp hrel
        exact ⟨es, hes, fun h => hesc ((escapes_intercalate (slash_notMem_relElements hes)).mpr h)⟩
      · rintro ⟨es, hes, hd⟩
        refine ⟨_, by rw [hes, Option.map_some], fun h => hd ?_⟩
        exact (escapes_intercalate (slash_notMem_relElements hes)).mp h

/-! ### Segments of a text -/

/-- The text starts at the root. -/
def IsAbs (s : String) : Prop := s.toList.head? = some '/'

/-- The segments of a text, between its slashes. -/
def segments (s : String) : List (List Char) := (s.toList.splitOn '/').filter (· ≠ [])

/-- The segments of `t` start with those of `s`, and both texts or neither start at the root. -/
def SegmentPrefix (s t : String) : Prop := (IsAbs t ↔ IsAbs s) ∧ segments s <+: segments t

/-- A directory that a lexical test can be relative to: it starts at the root, or it leads down from
the working directory and is not that. -/
def ProperBase (base : String) : Prop :=
  IsAbs base ∨ cleanPath base ≠ "." ∧ dotdot ∉ segments (cleanPath base)

instance (s : String) : Decidable (IsAbs s) := inferInstanceAs (Decidable (_ = _))

instance (base : String) : Decidable (ProperBase base) := inferInstanceAs (Decidable (_ ∨ _ ∧ _))

theorem rooted_parse_iff (s : String) : (parse s).rooted = true ↔ IsAbs s := by
  rw [parse, rooted_walk, IsAbs]
  split
  · next h => exact iff_of_true rfl h
  · next h => exact iff_of_false (by decide) h

theorem isAbs_render : IsAbs p.render ↔ p.rooted = true := by
  rw [← rooted_parse_iff, parse_render]

theorem segments_intercalate (hslash : ∀ e ∈ es, '/' ∉ e) (hne : ∀ e ∈ es, e ≠ []) :
    segments (String.ofList (['/'].intercalate es)) = es := by
  rw [segments, String.toList_ofList]
  by_cases h : es = []
  · subst h
    rfl
  · rw [splitOn_intercalate _ hslash h, filter_eq_self.mpr fun e he => by simp [hne e he]]

/-- **The segments of a cleaned text** are the elements it is written with. -/
theorem segments_render (p : UnixPath) : segments p.render = p.segmentsOf := by
  rw [render, segmentsOf]
  split
  · next hr =>
    have hhere : p ≠ here := fun h => by rw [h] at hr; cases hr
    have hsplit : ('/' :: ['/'].intercalate p.names).splitOn '/' =
        [] :: (['/'].intercalate p.names).splitOn '/' :=
      splitOn_append_cons_self [] _
    have hnames := segments_intercalate (fun n hn => (p.isName n hn).2.2.2)
      fun n hn => (p.isName n hn).1
    rw [segments, String.toList_ofList] at hnames
    rw [if_neg hhere, segments, String.toList_ofList, hsplit, filter_cons_of_neg (by simp),
      hnames, elements, p.up_rooted hr]
    rfl
  · next hr =>
    have hr : p.rooted = false := by simpa using hr
    rw [renderElements]
    simp only [elements_eq_nil hr]
    split
    · decide
    · exact segments_intercalate p.slash_notMem_elements p.ne_nil_of_mem_elements

theorem ProperBase.ne_empty {base : String} (h : ProperBase base) : base ≠ "" := by
  rintro rfl
  exact absurd h (by decide)

/-- The path of a proper base. -/
theorem ProperBase.path {base : String} (h : ProperBase base) :
    (parse base).rooted = true ∨ (parse base).up = 0 ∧ (parse base).names ≠ [] := by
  rcases h with h | ⟨hdot, hup⟩
  · exact .inl ((rooted_parse_iff base).mpr h)
  · cases hr : (parse base).rooted with
    | true => exact .inl rfl
    | false =>
      have hhere : parse base ≠ here := fun h => hdot (by rw [cleanPath, h]; decide)
      rw [cleanPath, segments_render, segmentsOf, if_neg hhere, elements] at hup
      have h0 : (parse base).up = 0 := by
        by_contra h0
        exact hup (mem_append_left _ (mem_replicate.mpr ⟨h0, rfl⟩))
      refine .inr ⟨h0, fun hn => hhere ((elements_eq_nil hr).mp ?_)⟩
      rw [elements, h0, hn]
      rfl

/-- **A path is another or below it** if its segments start with those of the other. -/
theorem contains_iff_segmentPrefix (hp : p.rooted = true ∨ p.up = 0 ∧ p.names ≠ []) :
    p.Contains q ↔ SegmentPrefix p.render q.render := by
  have hhere : p ≠ here := by
    rintro rfl
    rcases hp with hp | hp
    · cases hp
    · exact hp.2 rfl
  have hnames : p.elements = p.names := by
    rcases hp with hp | hp
    · rw [elements, p.up_rooted hp]; rfl
    · rw [elements, hp.1]; rfl
  rw [SegmentPrefix, isAbs_render, isAbs_render, segments_render, segments_render, segmentsOf,
    if_neg hhere]
  by_cases hr : q.rooted = p.rooted
  · rw [hr, and_iff_right Iff.rfl]
    by_cases heq : p = q
    · subst heq
      rw [segmentsOf, if_neg hhere]
      exact iff_of_true (contains_refl p) (prefix_refl _)
    · rw [contains_iff_segmentsOf heq hr]
      constructor
      · rintro ⟨r, h, -⟩
        exact ⟨r, h.symm⟩
      · rintro ⟨r, h⟩
        refine ⟨r, h.symm, fun hd => ?_⟩
        -- what goes up stands in front of all names
        have hmem : dotdot ∈ r := mem_of_mem_head? hd
        rw [segmentsOf] at h
        split at h
        · have := h ▸ mem_append_right p.elements hmem
          exact absurd this (by decide)
        · have hq0 : q.up = 0 := by
            rcases hp with hp | hp
            · exact q.up_rooted (hr.trans hp)
            · by_contra h0
              obtain ⟨n, ns, hns⟩ := exists_cons_of_ne_nil hp.2
              obtain ⟨k, hk⟩ := Nat.exists_eq_succ_of_ne_zero h0
              rw [hnames, hns, elements, hk, replicate_succ] at h
              exact p.dotdot_notMem (by rw [hns, (List.cons.inj h).1]; exact mem_cons_self)
          have hq : q.elements = q.names := by rw [elements, hq0]; rfl
          exact q.dotdot_notMem (hq ▸ h ▸ mem_append_right _ hmem)
  · refine iff_of_false (fun h => hr h.1) fun h => hr ?_
    exact Bool.eq_iff_iff.mpr h.1

theorem intercalate_append {es ns : List (List Char)} (hes : es ≠ []) (hns : ns ≠ []) :
    ['/'].intercalate (es ++ ns) = ['/'].intercalate es ++ '/' :: ['/'].intercalate ns := by
  induction es with
  | nil => exact absurd rfl hes
  | cons e es ih =>
    cases es with
    | nil =>
      obtain ⟨n, ns, rfl⟩ := exists_cons_of_ne_nil hns
      simp [intercalate_cons_cons]
    | cons e' es =>
      rw [cons_append, cons_append, intercalate_cons_cons, ← cons_append,
        ih (cons_ne_nil _ _), intercalate_cons_cons]
      simp

/-- What is below goes on with a slash. -/
theorem toList_render_extend {h : ∀ n ∈ ns, IsName n} (hns : ns ≠ [])
    (hroot : p ≠ root) (hhere : p ≠ here) :
    (p.extend ns h).render.toList = p.render.toList ++ '/' :: ['/'].intercalate ns := by
  cases hr : p.rooted with
  | true =>
    have hr' : (p.extend ns h).rooted = true := hr
    have hnames : p.names ≠ [] := fun hn =>
      hroot (UnixPath.ext hr (p.up_rooted hr) hn)
    rw [render, if_pos hr', render, if_pos hr, String.toList_ofList, String.toList_ofList]
    exact congrArg ('/' :: ·) (intercalate_append hnames hns)
  | false =>
    have hr' : ¬ (p.extend ns h).rooted = true := by rw [extend, hr]; decide
    have hne : p.elements ≠ [] := fun he => hhere ((elements_eq_nil hr).mp he)
    have helems : (p.extend ns h).elements = p.elements ++ ns := by simp [elements, extend]
    rw [render, if_neg hr', render, if_neg (by simp [hr]), renderElements, helems,
      if_neg (by simp [hne]), renderElements, if_neg hne, String.toList_ofList,
      String.toList_ofList, intercalate_append hne hns]

/-- **A sibling** whose text only starts the same is not below. -/
theorem not_contains_of_sibling {x : String} (hroot : p ≠ root) (hhere : p ≠ here)
    (hx : x ≠ "") (hslash : x.toList.head? ≠ some '/') (h : q.render = p.render ++ x) :
    ¬ p.Contains q := by
  intro hc
  obtain ⟨ns, hns, rfl⟩ := hc.exists_extend
  have htext := congrArg String.toList h
  rw [String.toList_append] at htext
  by_cases hnil : ns = []
  · rw [extend_eq_self.mpr hnil] at htext
    exact hx (String.toList_eq_nil_iff.mp (by simpa using htext))
  · rw [toList_render_extend hnil hroot hhere, append_cancel_left_eq] at htext
    exact hslash (by rw [← htext]; rfl)

/-- **The test on the relative path, on texts.** -/
theorem rel_exact {base : String} (hbase : ProperBase base) (target : String) :
    (∃ rel, relPath (cleanPath base) (cleanPath target) = some rel ∧ ¬ Escapes rel) ↔
      SegmentPrefix (cleanPath base) (cleanPath target) := by
  rw [rel_inside_iff, parse_clean, parse_clean, contains_iff_segmentPrefix hbase.path, cleanPath,
    cleanPath]

end UnixPath
