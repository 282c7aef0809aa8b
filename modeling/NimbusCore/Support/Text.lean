import Mathlib.Algebra.Group.Nat.Defs
import Mathlib.Data.List.Basic

/-!
# Support — Text

Functions of Go's standard library on strings, and how they undo each other: a number written in
decimal behind a prefix is found again by cutting the prefix off and parsing (`atoi_trimPrefix`);
what stands in front of a separator is found again by looking for it (`eq_of_isPrefix_append_sep`).

Two lists joined by a separator, or the second alone when the first is empty (`joined`), can be
taken apart again exactly if the separator stands nowhere else, the first place apart
(`Separable`).  Nothing here is about a particular program.
-/

/-- `strings.TrimPrefix`. -/
def trimPrefix (s pfx : String) : String :=
  if pfx.toList <+: s.toList then String.ofList (s.toList.drop pfx.toList.length) else s

@[simp] theorem trimPrefix_append (pfx t : String) : trimPrefix (pfx ++ t) pfx = t := by
  simp [trimPrefix]

/-- Two lists in front of a separator that neither the second nor what follows it has. -/
theorem eq_of_isPrefix_append_sep {α : Type} {sep : α} :
    ∀ {a b c : List α}, sep ∉ b → sep ∉ c → a ++ [sep] <+: b ++ sep :: c → a = b
  | [], [], _, _, _, _ => rfl
  | x :: a, [], c, _, hc, h => by
    obtain ⟨rfl, htail⟩ := List.cons_prefix_cons.mp h
    exact absurd (htail.subset (by simp)) hc
  | [], y :: b, c, hb, _, h => by
    obtain ⟨rfl, -⟩ := List.cons_prefix_cons.mp h
    exact absurd List.mem_cons_self hb
  | x :: a, y :: b, c, hb, hc, h => by
    obtain ⟨rfl, htail⟩ := List.cons_prefix_cons.mp h
    have hb : sep ∉ b := fun hm => hb (List.mem_cons_of_mem _ hm)
    exact congrArg (x :: ·) (eq_of_isPrefix_append_sep hb hc htail)

/-- **Two pairs are joined to one list** by a separator exactly if they are the same, or what stands
between two separators of the list is on either side. -/
theorem append_sep_eq_iff {α : Type} {sep : α} {a b c d : List α} :
    a ++ sep :: b = c ++ sep :: d ↔ (a = c ∧ b = d) ∨
      (∃ x, c = a ++ sep :: x ∧ b = x ++ sep :: d) ∨
        ∃ x, a = c ++ sep :: x ∧ d = x ++ sep :: b := by
  constructor
  · intro h
    rcases List.append_eq_append_iff.mp h with ⟨x, hc, hb⟩ | ⟨x, ha, hd⟩
    · rcases x with _ | ⟨y, x⟩
      · simp_all
      obtain ⟨rfl, rfl⟩ := List.cons.inj hb
      exact .inr (.inl ⟨x, hc, rfl⟩)
    · rcases x with _ | ⟨y, x⟩
      · simp_all
      obtain ⟨rfl, rfl⟩ := List.cons.inj hd
      exact .inr (.inr ⟨x, ha, rfl⟩)
  · rintro (⟨rfl, rfl⟩ | ⟨x, rfl, rfl⟩ | ⟨x, rfl, rfl⟩) <;> simp

/-! ### Joined lists -/

section

variable {α : Type} (sep : α)

/-- `a`, the separator and `b`; only `b` if `a` is empty. -/
def joined (a b : List α) : List α := if a = [] then b else a ++ sep :: b

/-- The separator stands nowhere in `joined sep a b` but between `a` and `b`, or at the very
start. -/
def Separable : List α → List α → Prop
  | [], b => sep ∉ b.tail
  | _ :: a, b => sep ∉ a ∧ sep ∉ b

instance [DecidableEq α] : (a b : List α) → Decidable (Separable sep a b)
  | [], b => inferInstanceAs (Decidable (sep ∉ b.tail))
  | _ :: a, b => inferInstanceAs (Decidable (sep ∉ a ∧ sep ∉ b))

variable {sep}

@[simp] theorem joined_nil (b : List α) : joined sep [] b = b := rfl

@[simp] theorem joined_cons (x : α) (a b : List α) :
    joined sep (x :: a) b = x :: (a ++ sep :: b) := rfl

@[simp] theorem separable_nil {b : List α} : Separable sep [] b ↔ sep ∉ b.tail := Iff.rfl

@[simp] theorem separable_cons {x : α} {a b : List α} :
    Separable sep (x :: a) b ↔ sep ∉ a ∧ sep ∉ b := Iff.rfl

theorem isPrefix_joined {a : List α} (ha : a ≠ []) (b : List α) : a ++ [sep] <+: joined sep a b :=
  ⟨b, by simp [joined, ha]⟩

/-- **What stands in front of the separator is the first part**, if the parts are separable. -/
theorem eq_of_isPrefix_joined {a b c : List α} (h : Separable sep a b) (hc : c ≠ [])
    (hp : c ++ [sep] <+: joined sep a b) : c = a := by
  obtain ⟨y, c, rfl⟩ := List.exists_cons_of_ne_nil hc
  cases a with
  | nil =>
    rcases b with _ | ⟨x, b⟩
    · simp at hp
    obtain ⟨-, htail⟩ := List.cons_prefix_cons.mp hp
    exact absurd (htail.subset (by simp)) (separable_nil.mp h)
  | cons x a =>
    obtain ⟨ha, hb⟩ := separable_cons.mp h
    obtain ⟨rfl, htail⟩ := List.cons_prefix_cons.mp hp
    rw [eq_of_isPrefix_append_sep ha hb htail]

/-- **Separable parts are found again.** -/
theorem joined_inj {a b a' b' : List α} (h : Separable sep a b) (h' : Separable sep a' b')
    (he : joined sep a b = joined sep a' b') : a = a' ∧ b = b' := by
  have ha : a = a' := by
    by_cases hn : a = []
    · by_cases hn' : a' = []
      · rw [hn, hn']
      · exact (eq_of_isPrefix_joined h hn' (he ▸ isPrefix_joined hn' b')).symm
    · exact eq_of_isPrefix_joined h' hn (he ▸ isPrefix_joined hn b)
  subst ha
  refine ⟨rfl, ?_⟩
  simp only [joined] at he
  split at he
  · exact he
  · exact (List.cons.inj (List.append_cancel_left he)).2

/-- **Parts that are not separable have another first part.** -/
theorem exists_isPrefix_joined {a b : List α} (h : ¬ Separable sep a b) :
    ∃ c, c ≠ [] ∧ c ≠ a ∧ c ++ [sep] <+: joined sep a b := by
  cases a with
  | nil =>
    rcases b with _ | ⟨x, b⟩
    · simp at h
    obtain ⟨u, v, rfl⟩ := List.append_of_mem (not_not.mp (mt separable_nil.mpr h))
    exact ⟨x :: u, by simp, by simp, v, by simp⟩
  | cons x a =>
    by_cases ha : sep ∈ a
    · obtain ⟨u, v, rfl⟩ := List.append_of_mem ha
      exact ⟨x :: u, by simp, by simp, v ++ sep :: b, by simp⟩
    · have hb : sep ∈ b := by
        by_contra hb
        exact h (separable_cons.mpr ⟨ha, hb⟩)
      obtain ⟨u, v, rfl⟩ := List.append_of_mem hb
      exact ⟨x :: (a ++ sep :: u), by simp, by simp, v, by simp⟩

end

/-! ### Numbers -/

/-- A nonempty sequence of decimal digits. -/
def parseDigits (cs : List Char) : Option Nat :=
  if cs ≠ [] ∧ cs.all Char.isDigit then some (Nat.ofDigitChars 10 cs 0) else none

/-- `strconv.Atoi`, on a 64-bit machine: an optional sign, then digits, of a value in range. -/
def atoi (s : String) : Option Int :=
  match s.toList with
  | '-' :: cs => (parseDigits cs).bind fun n => if n ≤ 2 ^ 63 then some (-n) else none
  | '+' :: cs => (parseDigits cs).bind fun n => if n < 2 ^ 63 then some n else none
  | cs => (parseDigits cs).bind fun n => if n < 2 ^ 63 then some n else none

theorem parseDigits_toDigits (n : Nat) : parseDigits (Nat.toDigits 10 n) = some n := by
  have hall : (Nat.toDigits 10 n).all Char.isDigit = true := by
    rw [List.all_eq_true]
    intro c hc
    exact Nat.isDigit_of_mem_toDigits (by decide) (by decide) hc
  rw [parseDigits, if_pos ⟨Nat.toDigits_ne_nil, hall⟩, Nat.ofDigitChars_ten_toDigits]

theorem toString_nat_inj {m n : Nat} (h : toString m = toString n) : m = n := by
  have hd : Nat.toDigits 10 m = Nat.toDigits 10 n := by
    rw [Nat.toString_eq_repr, Nat.toString_eq_repr] at h
    rw [← Nat.toList_repr, ← Nat.toList_repr, h]
  have := parseDigits_toDigits m
  rw [hd, parseDigits_toDigits] at this
  exact (Option.some.inj this).symm

/-- **Parsing undoes printing.** -/
theorem atoi_toString {n : Nat} (h : n < 2 ^ 63) : atoi (toString n) = some (n : Int) := by
  have hd : ∀ c ∈ Nat.toDigits 10 n, c.isDigit = true := fun c hc =>
    Nat.isDigit_of_mem_toDigits (by decide) (by decide) hc
  have hl : (toString n).toList = Nat.toDigits 10 n := by
    rw [Nat.toString_eq_repr, Nat.toList_repr]
  have hp := parseDigits_toDigits n
  rw [atoi, hl]
  -- a decimal starts with a digit, which is not a sign
  split
  · next cs heq => exact absurd (hd '-' (by rw [heq]; exact List.mem_cons_self)) (by decide)
  · next cs heq => exact absurd (hd '+' (by rw [heq]; exact List.mem_cons_self)) (by decide)
  · rw [hp, Option.bind_some, if_pos h]

theorem atoi_trimPrefix (pfx : String) {n : Nat} (h : n < 2 ^ 63) :
    atoi (trimPrefix (pfx ++ toString n) pfx) = some (n : Int) := by
  rw [trimPrefix_append, atoi_toString h]
