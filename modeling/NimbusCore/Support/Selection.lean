import Mathlib.Data.List.Basic
import Mathlib.Order.Lattice

/-!
# Support — choosing the best of a list

A loop that goes through a list and keeps the best element so far, with its score.  An element takes
the place of the best only if it is allowed and its score is higher.

* `Leads P f l a`: `a` is the first element of `l` in `P` with the highest score under `f`.
* `keepBest_eq_some_iff`: what the loop ends with.
* `Leads.perm`: if all scores are different, the order of the list makes no difference.

Nothing here is about a particular program.
-/

variable {α β : Type} [LinearOrder β]

/-- `a` is the first of the elements of `l` in `P` with the highest score. -/
def Leads (P : α → Prop) (f : α → β) (l : List α) (a : α) : Prop :=
  ∃ before after, l = before ++ a :: after ∧ P a ∧
    (∀ c ∈ before, P c → f c < f a) ∧ ∀ c ∈ after, P c → f c ≤ f a

/-- The loop, with the best so far and its score. -/
def keepBest (p : α → Bool) (f : α → β) : List α → Option α → β → Option α
  | [], best, _ => best
  | a :: l, best, score =>
    if p a && score < f a then keepBest p f l (some a) (f a) else keepBest p f l best score

section

variable {P : α → Prop} {p : α → Bool} {f : α → β} {l : List α} {a c : α}

theorem not_leads_nil : ¬ Leads P f [] a := by
  rintro ⟨before, after, hl, -⟩
  cases before <;> cases hl

theorem leads_cons : Leads P f (c :: l) a ↔
    (c = a ∧ P a ∧ ∀ d ∈ l, P d → f d ≤ f a) ∨ Leads P f l a ∧ (P c → f c < f a) := by
  constructor
  · rintro ⟨before, after, hl, ha, hbefore, hafter⟩
    cases before with
    | nil =>
      cases hl
      exact .inl ⟨rfl, ha, hafter⟩
    | cons b before =>
      cases hl
      obtain ⟨hc, hrest⟩ := List.forall_mem_cons.mp hbefore
      exact .inr ⟨⟨before, after, rfl, ha, hrest, hafter⟩, hc⟩
  · rintro (⟨rfl, ha, hafter⟩ | ⟨⟨before, after, rfl, ha, hbefore, hafter⟩, hc⟩)
    · exact ⟨[], l, rfl, ha, fun d hd => absurd hd List.not_mem_nil, hafter⟩
    · exact ⟨c :: before, after, rfl, ha, List.forall_mem_cons.mpr ⟨hc, hbefore⟩, hafter⟩

/-- It is in the list and in `P`, and no other in `P` is better. -/
theorem Leads.best (h : Leads P f l a) : a ∈ l ∧ P a ∧ ∀ c ∈ l, P c → f c ≤ f a := by
  obtain ⟨before, after, rfl, ha, hbefore, hafter⟩ := h
  refine ⟨List.mem_append_right _ List.mem_cons_self, ha, fun c hc hp => ?_⟩
  rcases List.mem_append.mp hc with hc | hc
  · exact le_of_lt (hbefore c hc hp)
  · rcases List.mem_cons.mp hc with rfl | hc
    · exact le_refl _
    · exact hafter c hc hp

theorem Leads.congr {Q : α → Prop} {g : α → β} (h : Leads P f l a)
    (hsame : ∀ c ∈ l, (P c ↔ Q c) ∧ f c = g c) : Leads Q g l a := by
  obtain ⟨before, after, rfl, ha, hbefore, hafter⟩ := h
  obtain ⟨hsame, hrest⟩ := List.forall_mem_append.mp hsame
  obtain ⟨⟨hpa, hfa⟩, hrest⟩ := List.forall_mem_cons.mp hrest
  refine ⟨before, after, rfl, hpa.mp ha, fun c hc hq => ?_, fun c hc hq => ?_⟩
  · rw [← hfa, ← (hsame c hc).2]
    exact hbefore c hc ((hsame c hc).1.mpr hq)
  · rw [← hfa, ← (hrest c hc).2]
    exact hafter c hc ((hrest c hc).1.mpr hq)

/-- If all scores are different, one that no other is better than is the first. -/
theorem leads_of_best (hne : l.Pairwise fun c d => f c ≠ f d) (ha : a ∈ l) (hp : P a)
    (hbest : ∀ c ∈ l, P c → f c ≤ f a) : Leads P f l a := by
  obtain ⟨before, after, rfl⟩ := List.append_of_mem ha
  obtain ⟨-, -, hcross⟩ := List.pairwise_append.mp hne
  refine ⟨before, after, rfl, hp, fun c hc hpc => ?_, fun c hc hpc => ?_⟩
  · exact lt_of_le_of_ne (hbest c (List.mem_append_left _ hc) hpc)
      (hcross c hc a List.mem_cons_self)
  · exact hbest c (List.mem_append_right _ (List.mem_cons_of_mem _ hc)) hpc

/-- **The order makes no difference** if all scores are different. -/
theorem Leads.perm {l' : List α} (h : Leads P f l a) (hne : l.Pairwise fun c d => f c ≠ f d)
    (hperm : l.Perm l') : Leads P f l' a := by
  obtain ⟨ha, hp, hbest⟩ := h.best
  refine leads_of_best ?_ (hperm.mem_iff.mp ha) hp fun c hc => hbest c (hperm.mem_iff.mpr hc)
  exact hperm.pairwise hne fun hcd hdc => hcd hdc.symm

/-- **What the loop ends with** is the best it had, if nothing is better, or the first that is. -/
theorem keepBest_eq_some_iff : ∀ {l : List α} {best : Option α} {score : β},
    keepBest p f l best score = some a ↔
      (best = some a ∧ ∀ c ∈ l, p c = true → f c ≤ score) ∨
        Leads (fun c => p c = true) f l a ∧ score < f a
  | [], best, score => by
    rw [keepBest]
    constructor
    · intro hb
      exact .inl ⟨hb, fun c hc => absurd hc List.not_mem_nil⟩
    · rintro (⟨hb, -⟩ | ⟨hleads, -⟩)
      · exact hb
      · exact absurd hleads not_leads_nil
  | c :: l, best, score => by
    rw [keepBest, leads_cons, List.forall_mem_cons]
    split
    · next hc =>
      rw [Bool.and_eq_true, decide_eq_true_eq] at hc
      rw [keepBest_eq_some_iff, Option.some.injEq]
      constructor
      · rintro (⟨rfl, hrest⟩ | ⟨hleads, hlt⟩)
        · exact .inr ⟨.inl ⟨rfl, hc.1, hrest⟩, hc.2⟩
        · exact .inr ⟨.inr ⟨hleads, fun _ => hlt⟩, hc.2.trans hlt⟩
      · rintro (⟨-, hle, -⟩ | ⟨⟨rfl, -, hrest⟩ | ⟨hleads, hlt⟩, -⟩)
        · exact absurd hc.2 (not_lt.mpr (hle hc.1))
        · exact .inl ⟨rfl, hrest⟩
        · exact .inr ⟨hleads, hlt hc.1⟩
    · next hc =>
      rw [Bool.and_eq_true, decide_eq_true_eq, not_and, not_lt] at hc
      rw [keepBest_eq_some_iff]
      constructor
      · rintro (⟨hb, hrest⟩ | ⟨hleads, hlt⟩)
        · exact .inl ⟨hb, hc, hrest⟩
        · exact .inr ⟨.inr ⟨hleads, fun hp => lt_of_le_of_lt (hc hp) hlt⟩, hlt⟩
      · rintro (⟨hb, -, hrest⟩ | ⟨⟨rfl, hp, -⟩ | ⟨hleads, -⟩, hlt⟩)
        · exact .inl ⟨hb, hrest⟩
        · exact absurd hlt (not_lt.mpr (hc hp))
        · exact .inr ⟨hleads, hlt⟩

end
