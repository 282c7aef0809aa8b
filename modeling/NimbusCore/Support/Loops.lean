import Mathlib.Logic.Relation
import NimbusCore.Support.Contracts

/-!
# Support — Loops

A loop that waits for an event, runs a program on it and waits again, while the outside goes on by
itself.  A state of the loop is where it is (`Mode`) and the state of the outside; a step takes an
event, issues one command of the program, or is one of the outside.  `L.Reaches G s tr m t`: from
`s` the steps `tr` of the loop, newest first, lead to `m` and `t`, and each of them meets the guard
`G`.

* `Reaches.along`: what a program does after what it has done before, it does in the loop too.
* `Reaches.settled`: **between events.**  What every program keeps from its event to its end holds
  whenever the loop waits.
* `Reaches.after`: **once and from then on.**  When something has happened, after which the programs
  issue only commands in `P`, no other command comes after it.
* `recorded`: the loop that keeps its own steps, for what is kept of the steps and the state.

Nothing here is about a particular program.
-/

/-- A loop over the events `ε`. -/
structure EventLoop (ε C : Type) (R : C → Type) (σ : Type) where
  /-- The event can be taken, which leaves the second state. -/
  arrives : ε → σ → σ → Prop
  /-- What is run on an event.  It returns whether the loop goes on. -/
  body : ε → Prog C R Empty Bool
  answers : Handler C R σ
  /-- What the outside does by itself. -/
  drifts : σ → σ → Prop

namespace EventLoop

/-- Where a loop is: it waits, runs a program on an event, or has ended. -/
inductive Mode (ε C : Type) (R : C → Type) where
  | idle
  | busy (e : ε) (p : Prog C R Empty Bool)
  | ended

/-- A step of the loop. -/
inductive Label (ε C : Type) (R : C → Type) where
  | took (e : ε)
  | did (c : C) (x : R c)

/-- What a step must meet, given the steps so far and the state it starts from. -/
structure Guard (ε C : Type) (R : C → Type) (σ : Type) where
  takes : List (Label ε C R) → ε → σ → Prop := fun _ _ _ => True
  allows : List (Label ε C R) → ε → (c : C) → R c → σ → Prop := fun _ _ _ _ _ => True

variable {ε C : Type} {R : C → Type} {σ : Type}

/-- The runs of a loop from `s`. -/
inductive Reaches (L : EventLoop ε C R σ) (G : Guard ε C R σ) (s : σ) :
    List (Label ε C R) → Mode ε C R → σ → Prop
  | nil : Reaches L G s [] .idle s
  | drift {tr m t t'} : Reaches L G s tr m t → L.drifts t t' → Reaches L G s tr m t'
  | take {tr t t'} (e : ε) : Reaches L G s tr .idle t → L.arrives e t t' → G.takes tr e t →
      Reaches L G s (.took e :: tr) (.busy e (L.body e)) t'
  | did {tr e c k x t t'} : Reaches L G s tr (.busy e (.call c k)) t → L.answers c t x t' →
      G.allows tr e c x t → Reaches L G s (.did c x :: tr) (.busy e (k x)) t'
  | back {tr e b t} : Reaches L G s tr (.busy e (.ret b)) t →
      Reaches L G s tr (if b then .idle else .ended) t

/-- No step is refused. -/
def unguarded : Guard ε C R σ := {}

variable {L : EventLoop ε C R σ} {G : Guard ε C R σ} {s t : σ} {tr : List (Label ε C R)}
  {m : Mode ε C R}

/-! ### What a program has done -/

/-- What was done since the last event, newest first. -/
def current : List (Label ε C R) → List (Prog.Done C R)
  | [] => []
  | .took _ :: _ => []
  | .did c x :: tr => ⟨c, x⟩ :: current tr

/-- The last event. -/
def event : List (Label ε C R) → Option ε
  | [] => none
  | .took e :: _ => some e
  | .did _ _ :: tr => event tr

/-- What runs is run on the last event. -/
theorem Reaches.event_eq {e : ε} {p : Prog C R Empty Bool} (h : L.Reaches G s tr m t)
    (hm : m = .busy e p) : event tr = some e := by
  induction h generalizing p with
  | nil => cases hm
  | drift _ _ ih => exact ih hm
  | take e _ _ _ _ => cases hm; rfl
  | did _ _ _ ih => cases hm; exact ih rfl
  | @back _ _ b _ _ _ => cases b <;> cases hm

/-- The program that runs is in `Φ` of its event and of what it has done. -/
def Mode.Along (Φ : ε → List (Prog.Done C R) → C → Prop) (tr : List (Label ε C R)) :
    Mode ε C R → Prop
  | .busy e p => p.Along (Φ e) (current tr)
  | .idle | .ended => True

/-- **What a program does after what it has done before**, it does in the loop too. -/
theorem Reaches.along {Φ : ε → List (Prog.Done C R) → C → Prop}
    (hΦ : ∀ e, (L.body e).Along (Φ e) []) (h : L.Reaches G s tr m t) : m.Along Φ tr := by
  induction h with
  | nil => trivial
  | drift _ _ ih => exact ih
  | take e _ _ _ _ => exact hΦ e
  | did _ _ _ ih => exact ih.2 _
  | @back _ _ b _ _ _ => cases b <;> trivial

/-! ### Between events -/

/-- The outside goes on by itself, and then answers in `A`. -/
def settle (L : EventLoop ε C R σ) (A : (c : C) → R c → σ → Prop) : Handler C R σ :=
  fun c s x s' => ∃ s₁, Relation.ReflTransGen L.drifts s s₁ ∧ L.answers c s₁ x s' ∧ A c x s₁

/-- What the outside keeps. -/
def Stable (L : EventLoop ε C R σ) (I : σ → Prop) : Prop := ∀ t t', L.drifts t t' → I t → I t'

variable {I : σ → Prop} {A : (c : C) → R c → σ → Prop} {S : List (Label ε C R) → Prop}

theorem Stable.star (hI : L.Stable I) {t t' : σ} (h : Relation.ReflTransGen L.drifts t t')
    (ht : I t) : I t' := by
  induction h with
  | refl => exact ht
  | tail _ hd ih => exact hI _ _ hd ih

/-- A command, and what follows it, when something is known that the outside keeps. -/
theorem post_settle {α : Type} (hI : L.Stable I) (hs : I s) {c : C} {f : R c → Prog C R Empty α}
    {Φ : α → σ → Prop}
    (h : ∀ t x t', I t → L.answers c t x t' → A c x t → (f x).Post (L.settle A) t' Φ) :
    (Prog.ask c >>= f).Post (L.settle A) s Φ := by
  refine Prog.post_ask_bind fun x t' hc => ?_
  obtain ⟨t, hd, ha, hA⟩ := hc
  exact h t x t' (hI.star hd hs) ha hA

theorem post_settle_ask (hI : L.Stable I) (hs : I s) {c : C} {Φ : R c → σ → Prop}
    (h : ∀ t x t', I t → L.answers c t x t' → A c x t → Φ x t') :
    (Prog.ask c : Prog C R Empty (R c)).Post (L.settle A) s Φ := by
  intro x t' hr
  obtain ⟨y, hy, t, hd, ha, hA⟩ := Prog.runs_ask.mp hr
  cases hy
  exact h t x t' (hI.star hd hs) ha hA

/-- A part whose commands keep `I`. -/
theorem post_within {α : Type} (hI : L.Stable I) (hs : I s) {P : C → Prop} {Q : Empty → Prop}
    {p : Prog C R Empty α} (hp : p.Within P Q)
    (h : ∀ c x t t', P c → L.answers c t x t' → I t → I t') :
    p.Post (L.settle A) s fun _ t => I t := by
  refine Prog.Within.post (fun c hc t x t' hH ht => ?_) hp hs
  obtain ⟨t₁, hd, ha, -⟩ := hH
  exact h c x t₁ t' hc ha (hI.star hd ht)

/-- `I` holds, or will when the program has come to its end. -/
def Mode.Settles (L : EventLoop ε C R σ) (A : ε → (c : C) → R c → σ → Prop) (I : σ → Prop)
    (t : σ) : Mode ε C R → Prop
  | .busy e p => p.Post (L.settle (A e)) t fun _ t' => I t'
  | .idle | .ended => I t

/-- **Between events.**  If the outside keeps `I`, and so does what is run on every event, then `I`
holds whenever no program runs. -/
theorem Reaches.settled {A : ε → (c : C) → R c → σ → Prop} (h0 : I s)
    (hA : ∀ tr e c x t, G.allows tr e c x t → A e c x t) (hdrift : L.Stable I)
    (hbody : ∀ tr e t t₁, I t → L.arrives e t t₁ → G.takes tr e t →
      (L.body e).Post (L.settle (A e)) t₁ fun _ t' => I t')
    (h : L.Reaches G s tr m t) : m.Settles L A I t := by
  induction h with
  | nil => exact h0
  | @drift tr m t t' _ hd ih =>
    cases m with
    | idle | ended => exact hdrift t t' hd ih
    | busy e p =>
      intro r t'' hr
      cases p with
      | ret b =>
        obtain ⟨-, rfl⟩ := hr
        exact hdrift t t'' hd (ih _ _ ⟨rfl, rfl⟩)
      | stop e => exact e.elim
      | call c k =>
        obtain ⟨x, t₁, ⟨t₂, hds, ha⟩, hk⟩ := hr
        exact ih _ _ ⟨x, t₁, ⟨t₂, hds.head hd, ha⟩, hk⟩
  | @take tr t t' e _ ha hg ih => exact hbody tr e t t' ih ha hg
  | did _ ha hg ih =>
    intro r t'' hr
    exact ih r t'' ⟨_, _, ⟨_, .refl, ha, hA _ _ _ _ _ hg⟩, hr⟩
  | @back _ _ b t _ ih =>
    have hI : I t := ih _ _ ⟨rfl, rfl⟩
    cases b <;> exact hI

/-! ### Once, and from then on -/

/-- The program that runs issues only commands in `P`, if it is answered in `A`. -/
def Mode.Ensures (A : (c : C) → R c → Prop) (P : C → Prop) : Mode ε C R → Prop
  | .busy _ p => p.Ensures A P fun _ => True
  | .idle | .ended => True

/-- Every command that was issued when the steps before it were in `S` is in `P`. -/
def After (S : List (Label ε C R) → Prop) (P : C → Prop) : List (Label ε C R) → Prop
  | [] => True
  | .took _ :: tr => After S P tr
  | .did c _ :: tr => (S tr → P c) ∧ After S P tr

theorem After.mono {P P' : C → Prop} (hP : ∀ c, P c → P' c) (h : After S P tr) : After S P' tr := by
  induction tr with
  | nil => trivial
  | cons l tr ih =>
    cases l with
    | took e => exact ih h
    | did c x => exact ⟨fun hS => hP c (h.1 hS), ih h.2⟩

/-- **Once and from then on.**  `S` is something that has happened.  If then `I` holds and the rest
of the program is as it should be, then no command outside `P` comes after it: as long as `I` holds
the answers are in `A`, and the commands in `P` keep it. -/
theorem Reaches.after {A : (c : C) → R c → Prop}
    {P : C → Prop} (hnil : ¬ S []) (htook : ∀ e tr, S (.took e :: tr) → S tr)
    (hnew : ∀ tr e c k x t t', L.Reaches G s tr (.busy e (.call c k)) t → L.answers c t x t' →
      S (.did c x :: tr) → ¬ S tr → I t' ∧ (k x).Ensures A P fun _ => True)
    (hbody : ∀ e, (L.body e).Ensures A P fun _ => True)
    (hA : ∀ tr e c x t t', S tr → I t → L.answers c t x t' → G.allows tr e c x t → A c x)
    (hI : ∀ c x t t', P c → I t → L.answers c t x t' → I t')
    (harrives : ∀ e t t', L.arrives e t t' → I t → I t')
    (hdrift : ∀ t t', L.drifts t t' → I t → I t') (h : L.Reaches G s tr m t) :
    After S P tr ∧ (S tr → I t ∧ m.Ensures A P) := by
  induction h with
  | nil => exact ⟨trivial, fun hS => absurd hS hnil⟩
  | drift _ hd ih => exact ⟨ih.1, fun hS => ⟨hdrift _ _ hd (ih.2 hS).1, (ih.2 hS).2⟩⟩
  | @take tr _ _ e _ ha _ ih =>
    refine ⟨ih.1, fun hS => ⟨harrives e _ _ ha (ih.2 (htook e tr hS)).1, hbody e⟩⟩
  | @did tr e c k x t t' h ha hg ih =>
    by_cases hS : S tr
    · obtain ⟨hIt, hP, hk⟩ := ih.2 hS
      exact ⟨⟨fun _ => hP, ih.1⟩,
        fun _ => ⟨hI c x t t' hP hIt ha, hk x (hA tr e c x t t' hS hIt ha hg)⟩⟩
    · exact ⟨⟨fun h' => absurd h' hS, ih.1⟩, fun hS' => hnew tr e c k x t t' h ha hS' hS⟩
  | @back _ _ b _ _ ih =>
    refine ⟨ih.1, fun hS => ⟨(ih.2 hS).1, ?_⟩⟩
    cases b <;> trivial

/-! ### Loops that keep their steps -/

/-- The loop with the steps so far in its state, and with the guard in what it may do. -/
def recorded (L : EventLoop ε C R σ) (G : Guard ε C R σ) :
    EventLoop ε C R (List (Label ε C R) × σ) where
  arrives e r r' := L.arrives e r.2 r'.2 ∧ G.takes r.1 e r.2 ∧ r'.1 = .took e :: r.1
  body := L.body
  answers c r x r' :=
    L.answers c r.2 x r'.2 ∧ (∃ e, G.allows r.1 e c x r.2) ∧ r'.1 = .did c x :: r.1
  drifts r r' := L.drifts r.2 r'.2 ∧ r'.1 = r.1

/-- **Every run can be recorded**, so that a rule for states is one for runs. -/
theorem Reaches.recorded (h : L.Reaches G s tr m t) :
    (L.recorded G).Reaches unguarded ([], s) tr m (tr, t) := by
  induction h with
  | nil => exact .nil
  | drift _ hd ih => exact .drift ih ⟨hd, rfl⟩
  | take e _ ha hg ih => exact .take e ih ⟨ha, hg, rfl⟩ trivial
  | did _ ha hg ih => exact .did ih ⟨ha, ⟨_, hg⟩, rfl⟩ trivial
  | back _ ih => exact .back ih

/-! ### Runs that are played -/

instance decidableAfter {S : List (Label ε C R) → Prop} {P : C → Prop} [DecidablePred S]
    [DecidablePred P] : (tr : List (Label ε C R)) → Decidable (After S P tr)
  | [] => inferInstanceAs (Decidable True)
  | .took _ :: tr => decidableAfter (S := S) (P := P) tr
  | .did _ _ :: tr =>
    have := decidableAfter (S := S) (P := P) tr
    inferInstanceAs (Decidable ((_ → _) ∧ _))

/-- A move: an event, a step of the outside, so many commands with one choice for their answers, or
the end of the program. -/
inductive Move (ε χ δ : Type) where
  | take (e : ε)
  | drift (d : δ)
  | answer (ch : χ) (n : Nat)
  | back

/-- A loop whose steps can be computed, given choices. -/
structure Resolver (L : EventLoop ε C R σ) (χ δ : Type) where
  arrive : ε → σ → Option σ
  answer : (c : C) → χ → σ → Option (R c × σ)
  drift : δ → σ → Option σ
  arrives : ∀ e s s', arrive e s = some s' → L.arrives e s s'
  answers : ∀ c ch s x s', answer c ch s = some (x, s') → L.answers c s x s'
  drifts : ∀ d s s', drift d s = some s' → L.drifts s s'

/-- Where a run has come to. -/
structure Reached (ε C : Type) (R : C → Type) (σ : Type) where
  trace : List (Label ε C R)
  mode : Mode ε C R
  state : σ

variable {χ δ : Type}

/-- Guards that can be checked. -/
class DecidableGuard (G : Guard ε C R σ) where
  takes : ∀ tr e t, Decidable (G.takes tr e t)
  allows : ∀ tr e c x t, Decidable (G.allows tr e c x t)

instance : DecidableGuard (unguarded : Guard ε C R σ) where
  takes _ _ _ := inferInstanceAs (Decidable True)
  allows _ _ _ _ _ := inferInstanceAs (Decidable True)

/-- Answers `n` commands. -/
def playAnswers (ρ : Resolver L χ δ) (G : Guard ε C R σ) [DecidableGuard G] (ch : χ) :
    Nat → Reached ε C R σ → Option (Reached ε C R σ)
  | 0, r => some r
  | n + 1, r =>
    match r.mode with
    | .busy e (.call c k) =>
      match ρ.answer c ch r.state with
      | none => none
      | some (x, t') =>
        have := DecidableGuard.allows (G := G) r.trace e c x r.state
        if G.allows r.trace e c x r.state then
          playAnswers ρ G ch n ⟨.did c x :: r.trace, .busy e (k x), t'⟩
        else none
    | _ => none

/-- Plays the moves.  There is no run if one of them is not possible. -/
def play (ρ : Resolver L χ δ) (G : Guard ε C R σ) [DecidableGuard G] :
    List (Move ε χ δ) → Reached ε C R σ → Option (Reached ε C R σ)
  | [], r => some r
  | .take e :: moves, r =>
    match r.mode, ρ.arrive e r.state with
    | .idle, some t' =>
      have := DecidableGuard.takes (G := G) r.trace e r.state
      if G.takes r.trace e r.state then
        play ρ G moves ⟨.took e :: r.trace, .busy e (L.body e), t'⟩
      else none
    | _, _ => none
  | .drift d :: moves, r =>
    match ρ.drift d r.state with
    | some t' => play ρ G moves { r with state := t' }
    | none => none
  | .answer ch n :: moves, r =>
    match playAnswers ρ G ch n r with
    | some r' => play ρ G moves r'
    | none => none
  | .back :: moves, r =>
    match r.mode with
    | .busy _ (.ret b) => play ρ G moves { r with mode := if b then .idle else .ended }
    | _ => none

/-- One step of a run. -/
inductive Step (L : EventLoop ε C R σ) (G : Guard ε C R σ) :
    Reached ε C R σ → Reached ε C R σ → Prop
  | drift {tr m t t'} : L.drifts t t' → Step L G ⟨tr, m, t⟩ ⟨tr, m, t'⟩
  | take {tr t t'} (e : ε) : L.arrives e t t' → G.takes tr e t →
      Step L G ⟨tr, .idle, t⟩ ⟨.took e :: tr, .busy e (L.body e), t'⟩
  | did {tr e c k x t t'} : L.answers c t x t' → G.allows tr e c x t →
      Step L G ⟨tr, .busy e (.call c k), t⟩ ⟨.did c x :: tr, .busy e (k x), t'⟩
  | back {tr e b t} : Step L G ⟨tr, .busy e (.ret b), t⟩ ⟨tr, if b then .idle else .ended, t⟩

/-- A run goes on step by step. -/
theorem Reaches.step {r r' : Reached ε C R σ} (h : L.Reaches G s r.trace r.mode r.state)
    (hs : L.Step G r r') : L.Reaches G s r'.trace r'.mode r'.state := by
  cases hs with
  | drift hd => exact .drift h hd
  | take e ha hg => exact .take e h ha hg
  | did ha hg => exact .did h ha hg
  | back => exact .back h

/-- What runs, if anything does, runs on an event in `Q`. -/
def Mode.On (Q : ε → Prop) : Mode ε C R → Prop
  | .busy e _ => Q e
  | .idle | .ended => True

instance (Q : ε → Prop) [DecidablePred Q] : DecidablePred (Mode.On (C := C) (R := R) Q)
  | .busy e _ => inferInstanceAs (Decidable (Q e))
  | .idle | .ended => inferInstanceAs (Decidable True)

/-- One step, on an event in `Q`. -/
def StepOn (L : EventLoop ε C R σ) (G : Guard ε C R σ) (Q : ε → Prop) (r r' : Reached ε C R σ) :
    Prop :=
  L.Step G r r' ∧ r.mode.On Q

variable {Q : ε → Prop} {ρ : Resolver L χ δ}

/-- A move on an event in `Q`. -/
def Move.On (Q : ε → Prop) : Move ε χ δ → Prop
  | .take e => Q e
  | .drift _ | .answer _ _ | .back => True

instance (Q : ε → Prop) [DecidablePred Q] : DecidablePred (Move.On (χ := χ) (δ := δ) Q)
  | .take e => inferInstanceAs (Decidable (Q e))
  | .drift _ | .answer _ _ | .back => inferInstanceAs (Decidable True)

theorem stepsOn_of_playAnswers [DecidableGuard G] {ch : χ} :
    ∀ {n : Nat} {r r' : Reached ε C R σ}, r.mode.On Q → playAnswers ρ G ch n r = some r' →
      r'.mode.On Q ∧ Relation.ReflTransGen (L.StepOn G Q) r r'
  | 0, _, _, h, hp => by cases hp; exact ⟨h, .refl⟩
  | n + 1, ⟨tr, m, t⟩, r', h, hp => by
    simp only [playAnswers] at hp
    split at hp
    · next e c k =>
      split at hp
      · cases hp
      · next x t' hx =>
        split at hp
        · next hG =>
          obtain ⟨hr', hs⟩ := stepsOn_of_playAnswers
            (r := ⟨.did c x :: tr, .busy e (k x), t'⟩) h hp
          exact ⟨hr', .head ⟨.did (ρ.answers _ _ _ _ _ hx) hG, h⟩ hs⟩
        · cases hp
    · cases hp

/-- What is played on events in `Q` is made of steps on them. -/
theorem stepsOn_of_play [DecidableGuard G] :
    ∀ {moves : List (Move ε χ δ)} {r r' : Reached ε C R σ}, (∀ m ∈ moves, m.On Q) →
      r.mode.On Q → play ρ G moves r = some r' → Relation.ReflTransGen (L.StepOn G Q) r r'
  | [], _, _, _, _, hp => by cases hp; exact .refl
  | .take e :: moves, ⟨tr, m, t⟩, r', hQ, h, hp => by
    simp only [play] at hp
    split at hp
    · next t' ht' =>
      split at hp
      · next hG =>
        exact .head ⟨.take e (ρ.arrives _ _ _ ht') hG, trivial⟩
          (stepsOn_of_play (fun m hm => hQ m (.tail _ hm)) (hQ _ (.head _)) hp)
      · cases hp
    · cases hp
  | .drift d :: moves, ⟨tr, m, t⟩, r', hQ, h, hp => by
    simp only [play] at hp
    split at hp
    · next t' ht' =>
      exact .head ⟨.drift (ρ.drifts _ _ _ ht'), h⟩
        (stepsOn_of_play (r := ⟨tr, m, t'⟩) (fun m hm => hQ m (.tail _ hm)) h hp)
    · cases hp
  | .answer ch n :: moves, r, r', hQ, h, hp => by
    simp only [play] at hp
    split at hp
    · next r₁ hr₁ =>
      obtain ⟨h₁, hs⟩ := stepsOn_of_playAnswers h hr₁
      exact hs.trans (stepsOn_of_play (fun m hm => hQ m (.tail _ hm)) h₁ hp)
    · cases hp
  | .back :: moves, ⟨tr, m, t⟩, r', hQ, h, hp => by
    simp only [play] at hp
    split at hp
    · next e b =>
      have hb : (if b then Mode.idle else Mode.ended : Mode ε C R).On Q := by cases b <;> trivial
      exact .head ⟨.back, h⟩ (stepsOn_of_play (r := ⟨tr, if b then .idle else .ended, t⟩)
        (fun m hm => hQ m (.tail _ hm)) hb hp)
    · cases hp

/-- **What is played is a run.** -/
theorem reaches_of_play [DecidableGuard G] {moves : List (Move ε χ δ)}
    {r r' : Reached ε C R σ} (h : L.Reaches G s r.trace r.mode r.state)
    (hp : play ρ G moves r = some r') : L.Reaches G s r'.trace r'.mode r'.state := by
  have hmode : r.mode.On fun _ => True := by cases r.mode <;> trivial
  have hs := stepsOn_of_play (fun m _ => by cases m <;> trivial) hmode hp
  clear hp
  induction hs with
  | refl => exact h
  | tail _ hs ih => exact ih.step hs.1

/-- A run that is found by playing it. -/
theorem exists_of_play (ρ : Resolver L χ δ) (G : Guard ε C R σ) [DecidableGuard G]
    (moves : List (Move ε χ δ)) {T : Reached ε C R σ → Prop} [DecidablePred T]
    (h : (play ρ G moves ⟨[], .idle, s⟩).any fun r => T r) :
    ∃ tr m t, L.Reaches G s tr m t ∧ T ⟨tr, m, t⟩ := by
  obtain ⟨r, hr, hT⟩ := (Option.any_eq_true _ _).mp h
  exact ⟨r.trace, r.mode, r.state, reaches_of_play .nil hr, of_decide_eq_true hT⟩

end EventLoop
