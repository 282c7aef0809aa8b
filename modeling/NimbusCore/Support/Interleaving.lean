import Mathlib.Logic.Function.Basic
import NimbusCore.Support.Contracts
import NimbusCore.Support.Steps

/-!
# Support — Interleavings

Several programs against one outside.  A step is one command of one of them, answered; the others
wait.  `Interleaves G H P s tr Q t`: from the programs `P` and the state `s` the steps `tr`, newest
first, lead to the programs `Q` and the state `t`, and each of them meets the guard `G`.

* `Interleaves.invariant`: what holds at the start and is kept by every step.
* `Interleaves.along`: what a program does after what it has done before, it does among others too.
* `Interleaves.ensures`: contracts hold of each program as long as they keep what the others rely
  on.
* `Interleaves.each_iff`: what is the same of each step is the same of a run.
* `Knows`: **read, modify, write.**  What a program has read is still so, unless it was disturbed
  since (`Undisturbed`).  `Knows.step` keeps this through one step.

Nothing here is about a particular program.
-/

namespace Prog

/-- One step: who took it, the command and its answer, the states before and after. -/
structure Event (ι C : Type) (R : C → Type) (σ : Type) where
  who : ι
  cmd : C
  answer : R cmd
  pre : σ
  post : σ

/-- Who took a step, the command and its answer. -/
def Event.done {ι C σ : Type} {R : C → Type} (e : Event ι C R σ) : ι × Done C R :=
  (e.who, ⟨e.cmd, e.answer⟩)

/-- What a step must meet, given the steps so far and the programs that are left. -/
abbrev Guard (ι C : Type) (R : C → Type) (ξ α σ : Type) :=
  List (Event ι C R σ) → (ι → Prog C R ξ α) → Event ι C R σ → Prop

section

variable {ι C : Type} [DecidableEq ι] {R : C → Type} {ξ α σ ν : Type}

/-- The interleavings of the programs `P` from `s`. -/
inductive Interleaves (G : Guard ι C R ξ α σ) (H : Handler C R σ) (P : ι → Prog C R ξ α) (s : σ) :
    List (Event ι C R σ) → (ι → Prog C R ξ α) → σ → Prop
  | nil : Interleaves G H P s [] P s
  | cons {tr Q t} (i : ι) {c : C} {k : R c → Prog C R ξ α} {x : R c} {t' : σ} :
      Interleaves G H P s tr Q t → Q i = .call c k → H c t x t' → G tr Q ⟨i, c, x, t, t'⟩ →
      Interleaves G H P s (⟨i, c, x, t, t'⟩ :: tr) (Function.update Q i (k x)) t'

/-- No step is refused. -/
def unguarded : Guard ι C R ξ α σ := fun _ _ _ => True

variable {G : Guard ι C R ξ α σ} {H : Handler C R σ} {P Q : ι → Prog C R ξ α} {s t : σ}
  {tr : List (Event ι C R σ)} {Φ : ι → List (Done C R) → C → Prop}

/-- **The rule of invariants.** -/
theorem Interleaves.invariant {I : List (Event ι C R σ) → (ι → Prog C R ξ α) → σ → Prop}
    (h0 : I [] P s)
    (hstep : ∀ tr Q t i c k x t', Interleaves G H P s tr Q t → I tr Q t → Q i = .call c k →
      H c t x t' → G tr Q ⟨i, c, x, t, t'⟩ →
        I (⟨i, c, x, t, t'⟩ :: tr) (Function.update Q i (k x)) t')
    (h : Interleaves G H P s tr Q t) : I tr Q t := by
  induction h with
  | nil => exact h0
  | cons i h hQ hH hG ih => exact hstep _ _ _ i _ _ _ _ h ih hQ hH hG

/-- **Simulation**, of several programs: the same steps, between related states. -/
theorem Interleaves.simulate {τ : Type} {H' : Handler C R τ} {rel : σ → τ → Prop}
    (hH : ∀ c s x s₁ t, rel s t → H c s x s₁ → ∃ t₁, H' c t x t₁ ∧ rel s₁ t₁) {t₀ : τ}
    (h : Interleaves G H P s tr Q t) (h0 : rel s t₀) :
    ∃ tr' t', Interleaves unguarded H' P t₀ tr' Q t' ∧ rel t t' ∧
      List.Forall₂ (fun e e' => e.done = e'.done ∧ rel e.post e'.post) tr tr' := by
  induction h with
  | nil => exact ⟨[], t₀, .nil, h0, .nil⟩
  | cons i _ hQ hc _ ih =>
    obtain ⟨tr', t', h', hrel, htr⟩ := ih
    obtain ⟨t₁, hc', h₁⟩ := hH _ _ _ _ _ hrel hc
    exact ⟨_, t₁, .cons i h' hQ hc' trivial, h₁, .cons ⟨rfl, h₁⟩ htr⟩

/-! ### What one program has done -/

/-- What `i` has done, newest first. -/
def history (i : ι) : List (Event ι C R σ) → List (Done C R)
  | [] => []
  | e :: tr => if e.who = i then ⟨e.cmd, e.answer⟩ :: history i tr else history i tr

section

variable (h : Interleaves G H P s tr Q t)

include h

/-- **What a program does after what it has done before**, it does among others too. -/
theorem Interleaves.along (hP : ∀ i, (P i).Along (Φ i) []) (j : ι) :
    (Q j).Along (Φ j) (history j tr) := by
  induction h with
  | nil => exact hP j
  | @cons tr Q t i c k x t' _ hQ _ _ ih =>
    by_cases hj : i = j
    · subst hj
      rw [hQ] at ih
      simpa [history] using ih.2 x
    · simpa [history, hj, Function.update_of_ne (Ne.symm hj)] using ih

/-- The command a program is about to issue. -/
theorem Interleaves.along_next (hP : ∀ i, (P i).Along (Φ i) []) {i : ι} {c : C}
    {k : R c → Prog C R ξ α} (hQ : Q i = .call c k) : Φ i (history i tr) c := by
  have := h.along hP i
  rw [hQ] at this
  exact this.1

/-- What a program has done when it is through, it has done among others too. -/
theorem Interleaves.ends {Φ : ι → List (Done C R) → α → Prop} (hP : ∀ i, (P i).Ends (Φ i) [])
    (j : ι) : (Q j).Ends (Φ j) (history j tr) := by
  induction h with
  | nil => exact hP j
  | @cons tr Q t i c k x t' _ hQ _ _ ih =>
    by_cases hj : i = j
    · subst hj
      rw [hQ] at ih
      simpa [history] using ih x
    · simpa [history, hj, Function.update_of_ne (Ne.symm hj)] using ih

/-- **Contracts among others.**  If in a state of `I` the answers are in `A`, and what each program
may issue leads back to `I`, then `I` holds throughout, and so does each contract. -/
theorem Interleaves.ensures {A : (c : C) → R c → Prop} {p : ι → C → Prop} {Φ : ι → α → Prop}
    {I : σ → Prop} (hA : ∀ c s x s₁, I s → H c s x s₁ → A c x)
    (hI : ∀ i c, p i c → ∀ s x s₁, I s → H c s x s₁ → I s₁) (hP : ∀ i, (P i).Ensures A (p i) (Φ i))
    (hs : I s) : I t ∧ ∀ i, (Q i).Ensures A (p i) (Φ i) := by
  refine h.invariant (I := fun _ Q t => I t ∧ ∀ i, (Q i).Ensures A (p i) (Φ i)) ⟨hs, hP⟩ ?_
  rintro tr Q t i c k x t' - ⟨ht, hall⟩ hQ hH -
  have hi := hall i
  rw [hQ] at hi
  refine ⟨hI i c hi.1 t x t' ht hH, fun j => ?_⟩
  by_cases hj : j = i
  · subst hj
    rw [Function.update_self]
    exact hi.2 x (hA c t x t' ht hH)
  · rw [Function.update_of_ne hj]
    exact hall j

/-! ### Each step of a run -/

/-- **Step by step**: what is the same of each step of the runs in `K` is the same of the run. -/
theorem Interleaves.each_iff {K : List (Event ι C R σ) → Prop}
    (hK : ∀ e tr, K (e :: tr) → K tr) {Φ Ψ : List (Event ι C R σ) → Event ι C R σ → Prop}
    (hΦ : ∀ tr Q t i c x t', Interleaves G H P s tr Q t → K tr → H c t x t' →
      (Φ tr ⟨i, c, x, t, t'⟩ ↔ Ψ tr ⟨i, c, x, t, t'⟩)) (hk : K tr) :
    EachStep Φ tr ↔ EachStep Ψ tr := by
  induction h with
  | nil => exact Iff.rfl
  | @cons tr Q t i c k x t' hrun _ hH _ ih =>
    exact and_congr (hΦ tr Q t i c x t' hrun (hK _ tr hk) hH) (ih (hK _ tr hk))

/-- What each program does, it does at each step. -/
theorem Interleaves.each_along (hP : ∀ i, (P i).Along (Φ i) []) :
    EachStep (fun tr e => Φ e.who (history e.who tr) e.cmd) tr := by
  induction h with
  | nil => trivial
  | cons i hrun hQ _ _ ih => exact ⟨hrun.along_next hP hQ, ih⟩

end

/-! ### Read, modify, write -/

/-- The last thing a history has shown. -/
def lastSeen (rd : (c : C) → R c → Option ν) : List (Done C R) → Option ν
  | [] => none
  | a :: h => (rd a.1 a.2).or (lastSeen rd h)

/-- What a program has seen, a step of its has shown. -/
theorem exists_of_lastSeen {rd : (c : C) → R c → Option ν} {i : ι} {v : ν} :
    ∀ {tr : List (Event ι C R σ)}, lastSeen rd (history i tr) = some v →
      ∃ e ∈ tr, rd e.cmd e.answer = some v
  | [], h => by cases h
  | e :: tr, h => by
    by_cases hi : e.who = i
    · rw [history, if_pos hi, lastSeen] at h
      rcases Option.or_eq_some_iff.mp h with h | ⟨-, h⟩
      · exact ⟨e, List.mem_cons_self, h⟩
      · obtain ⟨e', he', hv⟩ := exists_of_lastSeen h
        exact ⟨e', List.mem_cons_of_mem e he', hv⟩
    · rw [history, if_neg hi] at h
      obtain ⟨e', he', hv⟩ := exists_of_lastSeen h
      exact ⟨e', List.mem_cons_of_mem e he', hv⟩

/-- No step is in `W` since the last one in `S`. -/
def Undisturbed (S W : Event ι C R σ → Prop) : List (Event ι C R σ) → Prop
  | [] => True
  | e :: tr => S e ∨ ¬ W e ∧ Undisturbed S W tr

omit [DecidableEq ι] in
theorem undisturbed_of_forall {S W : Event ι C R σ → Prop} (h : ∀ e, ¬ W e) :
    ∀ tr : List (Event ι C R σ), Undisturbed S W tr
  | [] => trivial
  | e :: tr => .inr ⟨h e, undisturbed_of_forall h tr⟩

/-- The step shows `i` something. -/
def Shows (rd : (c : C) → R c → Option ν) (i : ι) (e : Event ι C R σ) : Prop :=
  e.who = i ∧ (rd e.cmd e.answer).isSome

/-- Unless it was disturbed by `W` since, what `i` has last seen fits `t`. -/
def Knows (Fits : ν → σ → Prop) (rd : (c : C) → R c → Option ν) (W : Event ι C R σ → Prop) (i : ι)
    (tr : List (Event ι C R σ)) (t : σ) : Prop :=
  Undisturbed (Shows rd i) W tr → ∀ v, lastSeen rd (history i tr) = some v → Fits v t

variable {Fits : ν → σ → Prop} {rd : (c : C) → R c → Option ν} {W : Event ι C R σ → Prop} {i : ι}

theorem knows_nil : Knows Fits rd W i ([] : List (Event ι C R σ)) s :=
  fun _ v hv => by cases hv

/-- **One step**: what it shows is so after it, and what is not in `W` leaves it so. -/
theorem Knows.step {e : Event ι C R σ} (h : Knows Fits rd W i tr e.pre)
    (hrd : ∀ v, rd e.cmd e.answer = some v → Fits v e.post)
    (hW : ¬ W e → ∀ v, Fits v e.pre → Fits v e.post) : Knows Fits rd W i (e :: tr) e.post := by
  intro hu v hv
  by_cases hi : e.who = i
  · rw [history, if_pos hi, lastSeen] at hv
    cases hr : rd e.cmd e.answer with
    | some w =>
      rw [hr, Option.some_or] at hv
      exact hrd v (hr.trans hv)
    | none =>
      rw [hr, Option.none_or] at hv
      have hs : ¬ Shows rd i e := fun hs => by simp [Shows, hr] at hs
      obtain ⟨hw, hu⟩ := hu.resolve_left hs
      exact hW hw v (h hu v hv)
  · rw [history, if_neg hi] at hv
    obtain ⟨hw, hu⟩ := hu.resolve_left fun hs => hi hs.1
    exact hW hw v (h hu v hv)

/-! ### Runs that are played -/

instance decidableUndisturbed {S W : Event ι C R σ → Prop} [DecidablePred S] [DecidablePred W] :
    (tr : List (Event ι C R σ)) → Decidable (Undisturbed S W tr)
  | [] => inferInstanceAs (Decidable True)
  | _ :: tr =>
    have := decidableUndisturbed (S := S) (W := W) tr
    inferInstanceAs (Decidable (_ ∨ _ ∧ _))

instance {rd : (c : C) → R c → Option ν} {i : ι} : DecidablePred (Shows (σ := σ) rd i) :=
  fun _ => inferInstanceAs (Decidable (_ ∧ _))

instance : ∀ tr (Q : ι → Prog C R ξ α) (e : Event ι C R σ), Decidable (unguarded tr Q e) :=
  fun _ _ _ => inferInstanceAs (Decidable True)

/-- Where a run has come to. -/
structure Reached (ι C : Type) (R : C → Type) (ξ α σ : Type) where
  trace : List (Event ι C R σ)
  progs : ι → Prog C R ξ α
  state : σ

variable {χ : Type} {resolve : (c : C) → χ → σ → Option (R c × σ)}

/-- Plays the moves: who is next, and the choice by which `resolve` answers the command.  There is
no run if a command cannot be answered so, or if a step does not meet the guard. -/
def play (G : Guard ι C R ξ α σ) [∀ tr Q e, Decidable (G tr Q e)]
    (resolve : (c : C) → χ → σ → Option (R c × σ)) :
    List (ι × χ) → Reached ι C R ξ α σ → Option (Reached ι C R ξ α σ)
  | [], r => some r
  | (i, ch) :: moves, r =>
    match r.progs i with
    | .ret _ | .stop _ => none
    | .call c k =>
      match resolve c ch r.state with
      | none => none
      | some (x, t') =>
        if G r.trace r.progs ⟨i, c, x, r.state, t'⟩ then
          play G resolve moves
            ⟨⟨i, c, x, r.state, t'⟩ :: r.trace, Function.update r.progs i (k x), t'⟩
        else none

/-- **What is played is an interleaving.** -/
theorem interleaves_of_play {G : Guard ι C R ξ α σ} [∀ tr Q e, Decidable (G tr Q e)]
    (hres : ∀ c ch s x s', resolve c ch s = some (x, s') → H c s x s') :
    ∀ (moves : List (ι × χ)) {r r' : Reached ι C R ξ α σ},
      Interleaves G H P s r.trace r.progs r.state → play G resolve moves r = some r' →
        Interleaves G H P s r'.trace r'.progs r'.state
  | [], r, r', h, hp => by cases hp; exact h
  | (i, ch) :: moves, r, r', h, hp => by
    rw [play] at hp
    split at hp
    · cases hp
    · cases hp
    · next c k hQ =>
      split at hp
      · cases hp
      · next x t' hx =>
        split at hp
        · next hG =>
          exact interleaves_of_play hres moves
            (.cons i h hQ (hres c ch r.state x t' hx) hG) hp
        · cases hp

/-- A run that is found by playing it. -/
theorem exists_of_play {G : Guard ι C R ξ α σ} [∀ tr Q e, Decidable (G tr Q e)]
    (hres : ∀ c ch s x s', resolve c ch s = some (x, s') → H c s x s') (moves : List (ι × χ))
    {T : Reached ι C R ξ α σ → Prop} [DecidablePred T]
    (h : (play G resolve moves ⟨[], P, s⟩).any fun r => T r) :
    ∃ tr Q t, Interleaves G H P s tr Q t ∧ T ⟨tr, Q, t⟩ := by
  obtain ⟨r, hr, hT⟩ := (Option.any_eq_true _ _).mp h
  exact ⟨r.trace, r.progs, r.state, interleaves_of_play hres moves .nil hr, of_decide_eq_true hT⟩

end

end Prog
