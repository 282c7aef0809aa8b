import NimbusCore.Support.Loops

/-!
# Support — Transitions

What every command of a program does to the state, when the outside goes on by itself in between.
`p.Follows D H Ψ Φ s`: from `s` every command that `p` issues, after whatever `D` allows, makes a
transition in `Ψ`, and what it ends with is in `Φ`.

* `Follows.bind`, `Follows.mono`, `Follows.attempt`: the rules along the program.
* `Within.follows`, `Ensures.follows`: from the commands that a program issues.
* `Reaches.follows`: **the rule of loops.**  If what is run on every event follows `Ψ`, then so does
  every step of the loop.
* `Reaches.everywhere`: what holds in every state that is reached.
* `EventLoop.Step`, `EventLoop.StepOn`: the steps of a run, one by one, for what holds from some
  point on, and on some of the events.

Nothing here is about a particular program.
-/

namespace Prog

variable {C : Type} {R : C → Type} {ξ ξ' α β σ : Type}

/-- Every transition of the program is in `Ψ`, and its end in `Φ`. -/
def Follows (D : σ → σ → Prop) (H : Handler C R σ) (Ψ : (c : C) → R c → σ → σ → Prop)
    (Φ : Except ξ α → σ → Prop) : Prog C R ξ α → σ → Prop
  | .ret a, s => Φ (.ok a) s
  | .stop e, s => Φ (.error e) s
  | .call c k, s => ∀ t x t', D s t → H c t x t' → Ψ c x t t' ∧ (k x).Follows D H Ψ Φ t'

/-- The program whose stops are results. -/
def reify : Prog C R ξ α → Prog C R ξ' (Except ξ α)
  | .ret a => .ret (.ok a)
  | .stop e => .ret (.error e)
  | .call c k => .call c fun x => (k x).reify

section

variable {D : σ → σ → Prop} {H : Handler C R σ} {Ψ : (c : C) → R c → σ → σ → Prop}
  {Φ : Except ξ α → σ → Prop} {s : σ}

theorem follows_pure {a : α} (h : Φ (.ok a) s) : (pure a : Prog C R ξ α).Follows D H Ψ Φ s := h

/-- A command, and what follows it. -/
theorem follows_ask_bind {c : C} {f : R c → Prog C R ξ α}
    (h : ∀ t x t', D s t → H c t x t' → Ψ c x t t' ∧ (f x).Follows D H Ψ Φ t') :
    (ask c >>= f).Follows D H Ψ Φ s := h

/-- **The rule of sequences.** -/
theorem Follows.bind {Θ : Except ξ β → σ → Prop} {f : α → Prog C R ξ β}
    (hok : ∀ a t, Φ (.ok a) t → (f a).Follows D H Ψ Θ t)
    (herr : ∀ e t, Φ (.error e) t → Θ (.error e) t) :
    ∀ {p : Prog C R ξ α} {s : σ}, p.Follows D H Ψ Φ s → (p >>= f).Follows D H Ψ Θ s
  | .ret a, s, hp => hok a s hp
  | .stop e, s, hp => herr e s hp
  | .call _ _, _, hp => fun t x t' hd hc =>
    ⟨(hp t x t' hd hc).1, Follows.bind hok herr (hp t x t' hd hc).2⟩

/-- **The rule of consequence.** -/
theorem Follows.mono {Φ' : Except ξ α → σ → Prop} (h : ∀ r t, Φ r t → Φ' r t) :
    ∀ {p : Prog C R ξ α} {s : σ}, p.Follows D H Ψ Φ s → p.Follows D H Ψ Φ' s
  | .ret _, s, hp => h _ s hp
  | .stop _, s, hp => h _ s hp
  | .call _ _, _, hp => fun t x t' hd hc => ⟨(hp t x t' hd hc).1, (hp t x t' hd hc).2.mono h⟩

theorem Follows.attempt {ε : Type} {f : ξ → Option ε} {Θ : Except ξ (Except ε α) → σ → Prop}
    (hok : ∀ a t, Φ (.ok a) t → Θ (.ok (.ok a)) t)
    (hcaught : ∀ e e' t, f e = some e' → Φ (.error e) t → Θ (.ok (.error e')) t)
    (hstop : ∀ e t, f e = none → Φ (.error e) t → Θ (.error e) t) :
    ∀ {p : Prog C R ξ α} {s : σ}, p.Follows D H Ψ Φ s → (p.attempt f).Follows D H Ψ Θ s
  | .ret a, s, hp => hok a s hp
  | .stop e, s, hp => by
    simp only [Prog.attempt]
    cases hf : f e with
    | none => exact hstop e s hf hp
    | some e' => exact hcaught e e' s hf hp
  | .call _ _, _, hp => fun t x t' hd hc =>
    ⟨(hp t x t' hd hc).1, Follows.attempt hok hcaught hstop (hp t x t' hd hc).2⟩

theorem Follows.reify {Θ : Except ξ' (Except ξ α) → σ → Prop} (h : ∀ r t, Φ r t → Θ (.ok r) t) :
    ∀ {p : Prog C R ξ α} {s : σ}, p.Follows D H Ψ Φ s → p.reify.Follows D H Ψ Θ s
  | .ret _, s, hp => h _ s hp
  | .stop _, s, hp => h _ s hp
  | .call _ _, _, hp => fun t x t' hd hc => ⟨(hp t x t' hd hc).1, (hp t x t' hd hc).2.reify h⟩

theorem follows_of_forall (hΨ : ∀ c x t t', Ψ c x t t') (hΦ : ∀ r t, Φ r t) :
    ∀ (p : Prog C R ξ α) (s : σ), p.Follows D H Ψ Φ s
  | .ret _, s => hΦ _ s
  | .stop _, s => hΦ _ s
  | .call _ k, _ => fun _ x t' _ _ => ⟨hΨ _ _ _ _, follows_of_forall hΨ hΦ (k x) t'⟩

/-- A program that keeps to `P`, and `I` with it. -/
theorem Within.follows {P : C → Prop} {Q : ξ → Prop} {I : σ → Prop}
    (hD : ∀ t t', D t t' → I t → I t')
    (hI : ∀ c x t t', P c → I t → H c t x t' → Ψ c x t t' ∧ I t') :
    ∀ {p : Prog C R ξ α} {s : σ}, p.Within P Q → I s → p.Follows D H Ψ (fun _ t => I t) s
  | .ret _, _, _, hs => hs
  | .stop _, _, _, hs => hs
  | .call c _, s, hp, hs => fun t x t' hd hc =>
    have h := hI c x t t' hp.1 (hD s t hd hs) hc
    ⟨h.1, (hp.2 x).follows hD hI h.2⟩

/-- A program that keeps to a contract, when the answers do. -/
theorem Ensures.follows {A : (c : C) → R c → Prop} {P : C → Prop} {Ξ : α → Prop} {I : σ → Prop}
    (hD : ∀ t t', D t t' → I t → I t')
    (hI : ∀ c x t t', P c → I t → H c t x t' → A c x ∧ Ψ c x t t' ∧ I t') :
    ∀ {p : Prog C R ξ α} {s : σ}, p.Ensures A P Ξ → I s →
      p.Follows D H Ψ (fun r t => I t ∧ ∀ a, r = .ok a → Ξ a) s
  | .ret a, _, hp, hs => ⟨hs, fun b hb => by cases hb; exact hp⟩
  | .stop e, _, _, hs => ⟨hs, fun b hb => by cases hb⟩
  | .call c _, s, hp, hs => fun t x t' hd hc =>
    have h := hI c x t t' hp.1 (hD s t hd hs) hc
    ⟨h.2.1, (hp.2 x h.1).follows hD hI h.2.2⟩

end

end Prog

namespace EventLoop

variable {ε C : Type} {R : C → Type} {σ : Type} {L : EventLoop ε C R σ} {G : Guard ε C R σ}
  {s t : σ}
  {tr : List (Label ε C R)} {m : Mode ε C R}

/-- A run: its steps, and where it has come to. -/
abbrev Run (ε C : Type) (R : C → Type) (σ : Type) := List (Label ε C R) × σ

/-- The outside goes on by itself. -/
def Drifting (L : EventLoop ε C R σ) (r r' : Run ε C R σ) : Prop :=
  Relation.ReflTransGen L.drifts r.2 r'.2 ∧ r'.1 = r.1

/-- What a command does on the event `e`, as the guard allows it. -/
def onEvent (L : EventLoop ε C R σ) (G : Guard ε C R σ) (e : ε) : Handler C R (Run ε C R σ) :=
  fun c r x r' => L.answers c r.2 x r'.2 ∧ G.allows r.1 e c x r.2 ∧ r'.1 = .did c x :: r.1

/-- What runs follows `Ψ` of its event, to `I`. -/
def Mode.Follows (L : EventLoop ε C R σ) (G : Guard ε C R σ)
    (Ψ : ε → (c : C) → R c → Run ε C R σ → Run ε C R σ → Prop) (I : Run ε C R σ → Prop)
    (r : Run ε C R σ) : Mode ε C R → Prop
  | .busy e p => p.Follows L.Drifting (L.onEvent G e) (Ψ e) (fun _ => I) r
  | .idle | .ended => I r

section

variable {Ψ : ε → (c : C) → R c → Run ε C R σ → Run ε C R σ → Prop} {I : Run ε C R σ → Prop}

/-- **The rule of loops.** -/
theorem Reaches.follows (h0 : I ([], s)) (hdrift : ∀ r r', L.Drifting r r' → I r → I r')
    (hbody : ∀ tr e t t₁, I (tr, t) → L.arrives e t t₁ → G.takes tr e t →
      (L.body e).Follows L.Drifting (L.onEvent G e) (Ψ e) (fun _ => I) (.took e :: tr, t₁))
    (h : L.Reaches G s tr m t) : m.Follows L G Ψ I (tr, t) := by
  induction h with
  | nil => exact h0
  | @drift tr m t t' _ hd ih =>
    have hds : L.Drifting (tr, t) (tr, t') := ⟨.single hd, rfl⟩
    cases m with
    | idle | ended => exact hdrift _ _ hds ih
    | busy e p =>
      cases p with
      | ret b => exact hdrift _ _ hds ih
      | stop e => exact e.elim
      | call c k => exact fun r x r' hds' hc => ih r x r' ⟨hds'.1.head hd, hds'.2⟩ hc
  | @take tr t t' e _ ha hg ih => exact hbody tr e t t' ih ha hg
  | @did tr e c k x t t' _ ha hg ih =>
    exact (ih (tr, t) x (.did c x :: tr, t') ⟨.refl, rfl⟩ ⟨ha, hg, rfl⟩).2
  | @back _ _ b t _ ih => cases b <;> exact ih

/-- A command of a loop whose programs follow `Ψ`. -/
theorem Mode.Follows.did {e : ε} {c : C} {k : R c → Prog C R Empty Bool} {x : R c} {t' : σ}
    (h : (Mode.busy e (.call c k)).Follows L G Ψ I (tr, t)) (ha : L.answers c t x t')
    (hg : G.allows tr e c x t) : Ψ e c x (tr, t) (.did c x :: tr, t') :=
  (h (tr, t) x (.did c x :: tr, t') ⟨.refl, rfl⟩ ⟨ha, hg, rfl⟩).1

end

/-- **The rule of invariants**, in the middle of programs too. -/
theorem Reaches.everywhere {P : σ → Prop} (h0 : P s) (hdrift : ∀ t t', L.drifts t t' → P t → P t')
    (harrive : ∀ e t t', L.arrives e t t' → P t → P t')
    (hbody : ∀ tr e t, P t → (∃ t₀, G.takes tr e t₀ ∧ L.arrives e t₀ t) →
      (L.body e).Follows L.Drifting (L.onEvent G e) (fun _ _ _ r => P r.2) (fun _ r => P r.2)
        (.took e :: tr, t)) (h : L.Reaches G s tr m t) : P t := by
  have hdrifts : ∀ r r' : Run ε C R σ, L.Drifting r r' → P r.2 → P r'.2 := by
    rintro ⟨_, t⟩ ⟨_, t'⟩ ⟨hd, -⟩ hr
    change Relation.ReflTransGen L.drifts t t' at hd
    induction hd with
    | refl => exact hr
    | tail _ hd ih => exact hdrift _ _ hd ih
  have hfollows : ∀ {tr m t}, L.Reaches G s tr m t →
      m.Follows L G (fun _ _ _ _ r => P r.2) (fun r => P r.2) (tr, t) := fun h =>
    Reaches.follows (I := fun r => P r.2) h0 hdrifts (fun tr e t t₁ ht ha hg =>
      hbody tr e t₁ (harrive e t t₁ ha ht) ⟨t, hg, ha⟩) h
  induction h with
  | nil => exact h0
  | drift _ hd ih => exact hdrift _ _ hd ih
  | take e _ ha _ ih => exact harrive e _ _ ha ih
  | did h ha hg _ => exact (hfollows h).did ha hg
  | back _ ih => exact ih

/-! ### Step by step -/

/-- **The rule of what stays**: what every step on an event in `Q` keeps. -/
theorem Reaches.stays {Q : ε → Prop} {P : σ → Prop} {r r' : Reached ε C R σ}
    (hstep : ∀ a b, L.Reaches G s a.trace a.mode a.state → L.StepOn G Q a b → P a.state → P b.state)
    (h : L.Reaches G s r.trace r.mode r.state) (hs : Relation.ReflTransGen (L.StepOn G Q) r r')
    (hr : P r.state) : P r'.state := by
  suffices L.Reaches G s r'.trace r'.mode r'.state ∧ P r'.state from this.2
  induction hs with
  | refl => exact ⟨h, hr⟩
  | tail _ hs ih => exact ⟨ih.1.step hs.1, hstep _ _ ih.1 hs ih.2⟩

/-- A run that is found by playing it, and how it goes on. -/
theorem exists_stepsOn_of_play {χ δ : Type} {Q : ε → Prop} (ρ : Resolver L χ δ) (G : Guard ε C R σ)
    [DecidableGuard G] (moves moves' : List (Move ε χ δ)) (hQ : ∀ m ∈ moves', m.On Q)
    {T : Reached ε C R σ → Reached ε C R σ → Prop} [∀ r, DecidablePred (T r)] [DecidablePred Q]
    (h : (play ρ G moves ⟨[], .idle, s⟩).any fun r => r.mode.On Q ∧
      (play ρ G moves' r).any fun r' => T r r') :
    ∃ r r', L.Reaches G s r.trace r.mode r.state ∧ Relation.ReflTransGen (L.StepOn G Q) r r' ∧
      T r r' := by
  obtain ⟨r, hr, h⟩ := (Option.any_eq_true _ _).mp h
  obtain ⟨hon, h⟩ := of_decide_eq_true h
  obtain ⟨r', hr', hT⟩ := (Option.any_eq_true _ _).mp h
  exact ⟨r, r', reaches_of_play .nil hr, stepsOn_of_play hQ hon hr', of_decide_eq_true hT⟩

end EventLoop
