import Mathlib.Data.List.Basic

/-!
# Support — Steps

Runs of a machine that takes one step at a time, as lists of steps.

* `Throughout next P s run`: every step of the run is in `P`, in the state it is taken in.
* `Throughout.invariant`: what every such step keeps holds after the run.
* `Throughout.split`: a step of a run is in `P` of the state that the steps before it lead to.
* `EachStep Φ tr`: each of the steps `tr`, newest first, is in `Φ` of the steps before it.

Nothing here is about a particular program.
-/

variable {σ ε : Type} {next : σ → ε → σ} {P : σ → ε → Prop}

/-- Every step of the run is in `P`, in the state it is taken in. -/
def Throughout (next : σ → ε → σ) (P : σ → ε → Prop) : σ → List ε → Prop
  | _, [] => True
  | s, e :: run => P s e ∧ Throughout next P (next s e) run

/-- **What every step keeps** holds after the run. -/
theorem Throughout.invariant {I : σ → Prop} (hI : ∀ s e, I s → P s e → I (next s e)) :
    ∀ {run : List ε} {s : σ}, Throughout next P s run → I s → I (run.foldl next s)
  | [], _, _, hs => hs
  | e :: _, s, h, hs => h.2.invariant hI (hI s e hs h.1)

/-- A step of a run, and the steps before it. -/
theorem Throughout.split {e : ε} {post : List ε} :
    ∀ {pre : List ε} {s : σ}, Throughout next P s (pre ++ e :: post) →
      Throughout next P s pre ∧ P (pre.foldl next s) e
  | [], _, h => ⟨trivial, h.1⟩
  | _ :: _, _, h => ⟨⟨h.1, h.2.split.1⟩, h.2.split.2⟩

/-- Each step is in `Φ` of the steps before it.  The newest comes first. -/
def EachStep (Φ : List ε → ε → Prop) : List ε → Prop
  | [] => True
  | e :: tr => Φ tr e ∧ EachStep Φ tr

instance decidableEachStep {Φ : List ε → ε → Prop} [∀ tr e, Decidable (Φ tr e)] :
    (tr : List ε) → Decidable (EachStep Φ tr)
  | [] => inferInstanceAs (Decidable True)
  | _ :: tr =>
    have := decidableEachStep (Φ := Φ) tr
    inferInstanceAs (Decidable (_ ∧ _))
