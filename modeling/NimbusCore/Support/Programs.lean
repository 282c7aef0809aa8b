import Mathlib.Logic.Basic

/-!
# Support — Programs

Programs that issue commands to something outside: a store, a service.  A `Prog C R ξ α` returns a
value of `α`, stops with some `ξ`, or issues a command `c : C` and goes on with the answer, of type
`R c`.  What a command may answer, and what it does to the outside, is a relation (`Handler`), so a
program may have many runs; the same program can be run by a handler that never fails and by one
that may fail at every command.

`p.Runs H s r s'` : under the handler `H`, a run of `p` from `s` may end with the result `r` in the
state `s'`.

* `runs_bind`, `runs_ask`, `runs_attempt`: a run taken apart along the program.
* `exists_runs`: when every command has an answer, every program has a run.
* `Runs.simulate`: what one handler answers, another does, between related states.
* `Returns`: what a program may return, when every run of it does; `Yields`: it has one run.
* `Within`: which commands a program issues and how it stops, read off its text; `Within.keeps` is
  the frame rule.

Nothing here is about a particular program.
-/

/-- A program over the commands `C`, with answers `R`. -/
inductive Prog (C : Type) (R : C → Type) (ξ α : Type) where
  | ret (a : α)
  | stop (e : ξ)
  | call (c : C) (k : R c → Prog C R ξ α)

/-- What a command may answer, and the state it leaves. -/
abbrev Handler (C : Type) (R : C → Type) (σ : Type) := (c : C) → σ → R c → σ → Prop

namespace Prog

variable {C : Type} {R : C → Type} {ξ α β σ : Type}

/-- Sequencing. -/
protected def bind : Prog C R ξ α → (α → Prog C R ξ β) → Prog C R ξ β
  | .ret a, f => f a
  | .stop e, _ => .stop e
  | .call c k, f => .call c fun r => (k r).bind f

instance : Monad (Prog C R ξ) where
  pure := .ret
  bind := .bind

/-- One command. -/
def ask (c : C) : Prog C R ξ (R c) := .call c .ret

/-- The stops that `f` recognises become results. -/
def attempt {ε : Type} (f : ξ → Option ε) : Prog C R ξ α → Prog C R ξ (Except ε α)
  | .ret a => .ret (.ok a)
  | .stop e => match f e with
    | some e' => .ret (.error e')
    | none => .stop e
  | .call c k => .call c fun r => (k r).attempt f

/-- The program with its stops translated. -/
def mapStop {ξ' : Type} (f : ξ → ξ') : Prog C R ξ α → Prog C R ξ' α
  | .ret a => .ret a
  | .stop e => .stop (f e)
  | .call c k => .call c fun r => (k r).mapStop f

/-- What a program that is through has returned. -/
def result : Prog C R ξ α → Option α
  | .ret a => some a
  | .stop _ | .call _ _ => none

/-- The program has a command to issue. -/
def busy : Prog C R ξ α → Bool
  | .ret _ | .stop _ => false
  | .call _ _ => true

/-- A run of the program, from `s` to `s'`, ending with `r`. -/
def Runs (H : Handler C R σ) : Prog C R ξ α → σ → Except ξ α → σ → Prop
  | .ret a, s, r, s' => r = .ok a ∧ s' = s
  | .stop e, s, r, s' => r = .error e ∧ s' = s
  | .call c k, s, r, s' => ∃ x s₁, H c s x s₁ ∧ (k x).Runs H s₁ r s'

variable {H : Handler C R σ} {s s' : σ} {p : Prog C R ξ α} {f : α → Prog C R ξ β} {r : Except ξ α}
  {a : α} {ε : Type}

@[simp] theorem runs_ret :
    (Prog.ret (R := R) a).Runs H s r s' ↔ r = .ok a ∧ s' = s := Iff.rfl

@[simp] theorem runs_pure :
    (pure a : Prog C R ξ α).Runs H s r s' ↔ r = .ok a ∧ s' = s := Iff.rfl

@[simp] theorem runs_ask {c : C} {r : Except ξ (R c)} :
    (ask c).Runs H s r s' ↔ ∃ x, r = .ok x ∧ H c s x s' := by
  constructor
  · rintro ⟨x, s₁, h, rfl, rfl⟩; exact ⟨x, rfl, h⟩
  · rintro ⟨x, rfl, h⟩; exact ⟨x, s', h, rfl, rfl⟩

/-- **A run of a sequence** is a run of its first part that stops, or one that returns and a run of
the rest from there. -/
theorem runs_bind {r : Except ξ β} :
    ∀ {p : Prog C R ξ α} {s : σ}, (p >>= f).Runs H s r s' ↔
      (∃ a s₁, p.Runs H s (.ok a) s₁ ∧ (f a).Runs H s₁ r s') ∨
        ∃ e, r = .error e ∧ p.Runs H s (.error e) s'
  | .ret a, s => by
    constructor
    · intro h; exact .inl ⟨a, s, ⟨rfl, rfl⟩, h⟩
    · rintro (⟨a', s₁, ⟨h, rfl⟩, h'⟩ | ⟨e, -, h, -⟩)
      · cases h; exact h'
      · cases h
  | .stop e, s => by
    constructor
    · rintro ⟨rfl, rfl⟩; exact .inr ⟨e, rfl, rfl, rfl⟩
    · rintro (⟨a, s₁, ⟨h, -⟩, -⟩ | ⟨e', rfl, h, rfl⟩)
      · cases h
      · cases h; exact ⟨rfl, rfl⟩
  | .call c k, s => by
    constructor
    · rintro ⟨x, s₁, hc, h⟩
      rcases (runs_bind (p := k x)).mp h with ⟨a, s₂, h₁, h₂⟩ | ⟨e, hr, h₁⟩
      · exact .inl ⟨a, s₂, ⟨x, s₁, hc, h₁⟩, h₂⟩
      · exact .inr ⟨e, hr, x, s₁, hc, h₁⟩
    · rintro (⟨a, s₂, ⟨x, s₁, hc, h₁⟩, h₂⟩ | ⟨e, hr, x, s₁, hc, h₁⟩)
      · exact ⟨x, s₁, hc, (runs_bind (p := k x)).mpr (.inl ⟨a, s₂, h₁, h₂⟩)⟩
      · exact ⟨x, s₁, hc, (runs_bind (p := k x)).mpr (.inr ⟨e, hr, h₁⟩)⟩

theorem runs_mapStop {ξ' : Type} {f : ξ → ξ'} {r : Except ξ' α} :
    ∀ {p : Prog C R ξ α} {s : σ}, (p.mapStop f).Runs H s r s' ↔
      ∃ r₀, p.Runs H s r₀ s' ∧ r = r₀.mapError f
  | .ret a, s => by
    constructor
    · rintro ⟨rfl, rfl⟩; exact ⟨.ok a, ⟨rfl, rfl⟩, rfl⟩
    · rintro ⟨r₀, ⟨rfl, rfl⟩, rfl⟩; exact ⟨rfl, rfl⟩
  | .stop e, s => by
    constructor
    · rintro ⟨rfl, rfl⟩; exact ⟨.error e, ⟨rfl, rfl⟩, rfl⟩
    · rintro ⟨r₀, ⟨rfl, rfl⟩, rfl⟩; exact ⟨rfl, rfl⟩
  | .call c k, s => by
    constructor
    · rintro ⟨x, s₁, hc, h⟩
      obtain ⟨r₀, h₀, hr⟩ := (runs_mapStop (p := k x)).mp h
      exact ⟨r₀, ⟨x, s₁, hc, h₀⟩, hr⟩
    · rintro ⟨r₀, ⟨x, s₁, hc, h₀⟩, hr⟩
      exact ⟨x, s₁, hc, (runs_mapStop (p := k x)).mpr ⟨r₀, h₀, hr⟩⟩

/-- **A run of an attempt** is a run of the program, with the stops it recognises as results. -/
theorem runs_attempt {f : ξ → Option ε} {r : Except ξ (Except ε α)} :
    ∀ {p : Prog C R ξ α} {s : σ}, (p.attempt f).Runs H s r s' ↔
      (∃ a, r = .ok (.ok a) ∧ p.Runs H s (.ok a) s') ∨
      (∃ e e', f e = some e' ∧ r = .ok (.error e') ∧ p.Runs H s (.error e) s') ∨
      ∃ e, f e = none ∧ r = .error e ∧ p.Runs H s (.error e) s'
  | .ret a, s => by
    simp only [attempt, runs_ret]
    constructor
    · rintro ⟨rfl, rfl⟩; exact .inl ⟨a, rfl, rfl, rfl⟩
    · rintro (⟨a', rfl, h, rfl⟩ | ⟨_, _, -, -, h, -⟩ | ⟨_, -, -, h, -⟩)
      · cases h; exact ⟨rfl, rfl⟩
      · cases h
      · cases h
  | .stop e, s => by
    simp only [attempt]
    cases hf : f e with
    | none =>
      constructor
      · rintro ⟨rfl, rfl⟩; exact .inr (.inr ⟨e, hf, rfl, rfl, rfl⟩)
      · rintro (⟨_, -, h, -⟩ | ⟨e₁, _, h₁, -, h, -⟩ | ⟨e₁, -, rfl, h, rfl⟩)
        · cases h
        · cases h; rw [hf] at h₁; cases h₁
        · cases h; exact ⟨rfl, rfl⟩
    | some e' =>
      constructor
      · rintro ⟨rfl, rfl⟩; exact .inr (.inl ⟨e, e', hf, rfl, rfl, rfl⟩)
      · rintro (⟨_, -, h, -⟩ | ⟨e₁, _, h₁, rfl, h, rfl⟩ | ⟨e₁, h₁, -, h, -⟩)
        · cases h
        · cases h; rw [hf] at h₁; cases h₁; exact ⟨rfl, rfl⟩
        · cases h; rw [hf] at h₁; cases h₁
  | .call c k, s => by
    constructor
    · rintro ⟨x, s₁, hc, h⟩
      rcases (runs_attempt (p := k x)).mp h with
        ⟨a, hr, h⟩ | ⟨e, e', hf, hr, h⟩ | ⟨e, hf, hr, h⟩
      · exact .inl ⟨a, hr, x, s₁, hc, h⟩
      · exact .inr (.inl ⟨e, e', hf, hr, x, s₁, hc, h⟩)
      · exact .inr (.inr ⟨e, hf, hr, x, s₁, hc, h⟩)
    · rintro (⟨a, hr, x, s₁, hc, h⟩ | ⟨e, e', hf, hr, x, s₁, hc, h⟩ |
        ⟨e, hf, hr, x, s₁, hc, h⟩)
      · exact ⟨x, s₁, hc, (runs_attempt (p := k x)).mpr (.inl ⟨a, hr, h⟩)⟩
      · exact ⟨x, s₁, hc, (runs_attempt (p := k x)).mpr (.inr (.inl ⟨e, e', hf, hr, h⟩))⟩
      · exact ⟨x, s₁, hc, (runs_attempt (p := k x)).mpr (.inr (.inr ⟨e, hf, hr, h⟩))⟩

/-- A handler that allows more has every run that one that allows less has. -/
theorem Runs.mono {H' : Handler C R σ} (hH : ∀ c s x s', H c s x s' → H' c s x s') :
    ∀ {p : Prog C R ξ α} {s : σ}, p.Runs H s r s' → p.Runs H' s r s'
  | .ret _, _, h => h
  | .stop _, _, h => h
  | .call c _, s, ⟨x, s₁, hc, h⟩ => ⟨x, s₁, hH c s x s₁ hc, h.mono hH⟩

/-- **Simulation.**  If every answer of `H` is one of `H'`, between states that stay related, then
so is every run. -/
theorem Runs.simulate {τ : Type} {H' : Handler C R τ} {rel : σ → τ → Prop}
    (hH : ∀ c s x s₁ t, rel s t → H c s x s₁ → ∃ t₁, H' c t x t₁ ∧ rel s₁ t₁) :
    ∀ {p : Prog C R ξ α} {s : σ} {t : τ}, p.Runs H s r s' → rel s t →
      ∃ t', p.Runs H' t r t' ∧ rel s' t'
  | .ret _, _, t, ⟨hr, rfl⟩, h | .stop _, _, t, ⟨hr, rfl⟩, h => ⟨t, ⟨hr, rfl⟩, h⟩
  | .call c k, s, t, ⟨x, s₁, hc, hk⟩, h => by
    obtain ⟨t₁, hc', h₁⟩ := hH c s x s₁ t h hc
    obtain ⟨t', hk', h'⟩ := Runs.simulate hH hk h₁
    exact ⟨t', ⟨x, t₁, hc', hk'⟩, h'⟩

/-- **When every command has an answer, every program has a run.** -/
theorem exists_runs (hH : ∀ c s, ∃ x s', H c s x s') :
    ∀ (p : Prog C R ξ α) (s : σ), ∃ r s', p.Runs H s r s'
  | .ret a, s => ⟨.ok a, s, rfl, rfl⟩
  | .stop e, s => ⟨.error e, s, rfl, rfl⟩
  | .call c k, s => by
    obtain ⟨x, s₁, hc⟩ := hH c s
    obtain ⟨r, s', h⟩ := exists_runs hH (k x) s₁
    exact ⟨r, s', x, s₁, hc, h⟩

/-! ### Programs that return -/

/-- From `s` every run of the program returns, and `Φ` is what it may return, and where. -/
def Returns (H : Handler C R σ) (p : Prog C R ξ α) (s : σ) (Φ : α → σ → Prop) : Prop :=
  ∀ r s', p.Runs H s r s' ↔ ∃ a, r = .ok a ∧ Φ a s'

/-- From `s` the program has one run: it returns `a` in `s₁`. -/
abbrev Yields (H : Handler C R σ) (p : Prog C R ξ α) (s : σ) (a : α) (s₁ : σ) : Prop :=
  p.Returns H s fun b s' => b = a ∧ s' = s₁

theorem yields_pure : (pure a : Prog C R ξ α).Yields H s a s := by
  intro r s'
  rw [runs_pure]
  constructor
  · rintro ⟨rfl, rfl⟩; exact ⟨a, rfl, rfl, rfl⟩
  · rintro ⟨_, rfl, rfl, rfl⟩; exact ⟨rfl, rfl⟩

/-- A command that is answered in one way. -/
theorem yields_ask {c : C} {a : R c} {s₁ : σ} (h : ∀ x s', H c s x s' ↔ x = a ∧ s' = s₁) :
    (ask c : Prog C R ξ (R c)).Yields H s a s₁ := by
  intro r s'
  rw [runs_ask]
  simp only [h]

/-- What follows a program that returns. -/
theorem Returns.runs_bind {Φ : α → σ → Prop} (hp : p.Returns H s Φ) {r : Except ξ β} :
    (p >>= f).Runs H s r s' ↔ ∃ a s₁, Φ a s₁ ∧ (f a).Runs H s₁ r s' := by
  rw [Prog.runs_bind]
  constructor
  · rintro (⟨a, s₁, h, hf⟩ | ⟨e, -, h⟩)
    · obtain ⟨b, hb, hΦ⟩ := (hp _ _).mp h
      cases hb; exact ⟨a, s₁, hΦ, hf⟩
    · obtain ⟨b, hb, -⟩ := (hp _ _).mp h
      cases hb
  · rintro ⟨a, s₁, hΦ, hf⟩
    exact .inl ⟨a, s₁, (hp _ _).mpr ⟨a, rfl, hΦ⟩, hf⟩

theorem Yields.runs_bind {s₁ : σ} (hp : p.Yields H s a s₁) {r : Except ξ β} :
    (p >>= f).Runs H s r s' ↔ (f a).Runs H s₁ r s' := by
  rw [Returns.runs_bind hp]
  constructor
  · rintro ⟨_, _, ⟨rfl, rfl⟩, h⟩; exact h
  · intro h; exact ⟨a, s₁, ⟨rfl, rfl⟩, h⟩

theorem Yields.bind {s₁ s₂ : σ} {b : β} (hp : p.Yields H s a s₁) (hf : (f a).Yields H s₁ b s₂) :
    (p >>= f).Yields H s b s₂ := by
  intro r s'
  rw [Yields.runs_bind hp]
  exact hf r s'

theorem Returns.mapStop {ξ' : Type} {g : ξ → ξ'} {Φ : α → σ → Prop}
    (hp : p.Returns H s Φ) : (p.mapStop g).Returns H s Φ := by
  intro r s'
  rw [runs_mapStop]
  constructor
  · rintro ⟨r₀, h, rfl⟩
    obtain ⟨a, rfl, hΦ⟩ := (hp _ _).mp h
    exact ⟨a, rfl, hΦ⟩
  · rintro ⟨a, rfl, hΦ⟩
    exact ⟨.ok a, (hp _ _).mpr ⟨a, rfl, hΦ⟩, rfl⟩

theorem Yields.attempt {g : ξ → Option ε} {s₁ : σ} (hp : p.Yields H s a s₁) :
    (p.attempt g).Yields H s (.ok a) s₁ := by
  intro r s'
  rw [runs_attempt]
  constructor
  · rintro (⟨b, rfl, h⟩ | ⟨e, _, -, -, h⟩ | ⟨e, -, -, h⟩)
    · obtain ⟨c, hc, rfl, rfl⟩ := (hp _ _).mp h
      cases hc; exact ⟨_, rfl, rfl, rfl⟩
    · obtain ⟨_, hc, -⟩ := (hp _ _).mp h
      cases hc
    · obtain ⟨_, hc, -⟩ := (hp _ _).mp h
      cases hc
  · rintro ⟨_, rfl, rfl, rfl⟩
    exact .inl ⟨a, rfl, (hp _ _).mpr ⟨a, rfl, rfl, rfl⟩⟩

/-! ### What the text of a program shows -/

/-- Whatever it is answered, the program issues only commands in `P` and stops only with `Q`. -/
def Within (P : C → Prop) (Q : ξ → Prop) : Prog C R ξ α → Prop
  | .ret _ => True
  | .stop e => Q e
  | .call c k => P c ∧ ∀ r, (k r).Within P Q

section Within

variable {P : C → Prop} {Q : ξ → Prop}

@[simp] theorem within_ask {c : C} : (ask c : Prog C R ξ (R c)).Within P Q ↔ P c :=
  ⟨fun h => h.1, fun h => ⟨h, fun _ => trivial⟩⟩

/-- A command, and what follows it. -/
theorem within_ask_bind {c : C} {f : R c → Prog C R ξ α} :
    (ask c >>= f).Within P Q ↔ P c ∧ ∀ x, (f x).Within P Q := Iff.rfl

theorem Within.bind :
    ∀ {p : Prog C R ξ α}, p.Within P Q → (∀ a, (f a).Within P Q) → (p >>= f).Within P Q
  | .ret a, _, hf => hf a
  | .stop _, hp, _ => hp
  | .call _ _, hp, hf => ⟨hp.1, fun r => (hp.2 r).bind hf⟩

/-- What returns an error at once leaves only the other case to look at. -/
theorem Within.bind_ok {p : Prog C R ξ (Except ε α)} {f : Except ε α → Prog C R ξ β}
    (hp : p.Within P Q) (hf : ∀ a, (f (.ok a)).Within P Q)
    (herr : ∀ e, (f (.error e)).Within P Q := by exact fun _ => trivial) : (p >>= f).Within P Q :=
  hp.bind fun x => x.rec herr hf

theorem Within.mapStop {ξ' : Type} {f : ξ → ξ'} {Q' : ξ' → Prop} (hQ : ∀ e, Q e → Q' (f e)) :
    ∀ {p : Prog C R ξ α}, p.Within P Q → (p.mapStop f).Within P Q'
  | .ret _, _ => trivial
  | .stop _, hp => hQ _ hp
  | .call _ _, hp => ⟨hp.1, fun r => (hp.2 r).mapStop hQ⟩

theorem Within.attempt {f : ξ → Option ε} :
    ∀ {p : Prog C R ξ α}, p.Within P Q → (p.attempt f).Within P Q
  | .ret _, _ => trivial
  | .stop e, hp => by
    simp only [Prog.attempt]
    cases f e with
    | none => exact hp
    | some e' => trivial
  | .call _ _, hp => ⟨hp.1, fun r => (hp.2 r).attempt⟩

theorem Within.weaken {P' : C → Prop} {Q' : ξ → Prop} (hP : ∀ c, P c → P' c)
    (hQ : ∀ e, Q e → Q' e) : ∀ {p : Prog C R ξ α}, p.Within P Q → p.Within P' Q'
  | .ret _, _ => trivial
  | .stop _, hp => hQ _ hp
  | .call _ _, hp => ⟨hP _ hp.1, fun r => (hp.2 r).weaken hP hQ⟩

/-- A run stops only as the text allows. -/
theorem Within.stops {e : ξ} :
    ∀ {p : Prog C R ξ α} {s : σ}, p.Within P Q → p.Runs H s (.error e) s' → Q e
  | .ret _, _, _, h => by cases h.1
  | .stop _, _, hp, h => by cases h.1; exact hp
  | .call _ _, _, hp, ⟨x, _, _, h⟩ => (hp.2 x).stops h

/-- **The frame rule.**  What every command of the text keeps, every run keeps. -/
theorem Within.keeps {I : σ → Prop} (hI : ∀ c, P c → ∀ s x s₁, H c s x s₁ → I s → I s₁) :
    ∀ {p : Prog C R ξ α} {s : σ}, p.Within P Q → p.Runs H s r s' → I s → I s'
  | .ret _, _, _, h, hs | .stop _, _, _, h, hs => by cases h.2; exact hs
  | .call c _, s, hp, ⟨x, s₁, hc, h⟩, hs =>
    (hp.2 x).keeps hI h (hI c hp.1 s x s₁ hc hs)

end Within

end Prog
