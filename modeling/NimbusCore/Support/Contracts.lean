import NimbusCore.Support.Programs

/-!
# Support — Contracts

What a program does when its answers can be trusted to some extent, and what it does after what it
has done before.

* `Ensures A P Φ`: as long as every answer is in `A`, the program issues only commands in `P`, and
  what it returns is in `Φ`.  `Ensures.bind`, `Ensures.mono` and the rules for stops are those of a
  logic of pre- and postconditions; `Ensures.keeps` is the rule for a whole run.
* `Visits H s t`: a run from `s` comes through `t`; `Ensures.visits` is the rule for it.
* `Post H p s Φ`: what a run from `s` returns, and where.
* `Along Φ h`: every command is in `Φ` of the commands and answers that came before it; `h` is what
  came before the program itself.
* `Ends Φ h`: what has been done and what is returned is in `Φ`.

Nothing here is about a particular program.
-/

namespace Prog

variable {C : Type} {R : C → Type} {ξ α β σ : Type}

/-! ### Programs under assumptions on the answers -/

/-- Answered within `A`, the program issues only commands in `P` and returns only what is in
`Φ`. -/
def Ensures (A : (c : C) → R c → Prop) (P : C → Prop) (Φ : α → Prop) : Prog C R ξ α → Prop
  | .ret a => Φ a
  | .stop _ => True
  | .call c k => P c ∧ ∀ x, A c x → (k x).Ensures A P Φ

section Ensures

variable {A A' : (c : C) → R c → Prop} {P P' : C → Prop} {Φ Φ' : α → Prop} {Ψ : β → Prop}

theorem ensures_asked {c : C} (h : P c) : (ask c : Prog C R ξ (R c)).Ensures A P (A c) :=
  ⟨h, fun _ hx => hx⟩

/-- A command, and what follows it. -/
theorem ensures_ask_bind {c : C} {f : R c → Prog C R ξ α} :
    (ask c >>= f).Ensures A P Φ ↔ P c ∧ ∀ x, A c x → (f x).Ensures A P Φ := Iff.rfl

/-- **The rule of sequences.** -/
theorem Ensures.bind {f : α → Prog C R ξ β} :
    ∀ {p : Prog C R ξ α}, p.Ensures A P Φ → (∀ a, Φ a → (f a).Ensures A P Ψ) →
      (p >>= f).Ensures A P Ψ
  | .ret a, hp, hf => hf a hp
  | .stop _, _, _ => trivial
  | .call _ _, hp, hf => ⟨hp.1, fun x hx => (hp.2 x hx).bind hf⟩

/-- What follows an error, and what follows a result. -/
theorem Ensures.bind_of_ok {ε : Type} {p : Prog C R ξ (Except ε α)} {Φ : Except ε α → Prop}
    {f : Except ε α → Prog C R ξ β} (herr : ∀ e, (f (.error e)).Ensures A P Ψ)
    (hp : p.Ensures A P Φ) (hf : ∀ a, Φ (.ok a) → (f (.ok a)).Ensures A P Ψ) :
    (p >>= f).Ensures A P Ψ :=
  hp.bind fun x => x.rec (fun e _ => herr e) hf

/-- What returns an error at once leaves only the other case to look at. -/
theorem Ensures.bind_ok {ε : Type} {p : Prog C R ξ (Except ε α)} {Φ : Except ε α → Prop}
    {f : Except ε α → Prog C R ξ β} (hp : p.Ensures A P Φ)
    (hf : ∀ a, Φ (.ok a) → (f (.ok a)).Ensures A P Ψ)
    (herr : ∀ e, (f (.error e)).Ensures A P Ψ := by exact fun _ => trivial) :
    (p >>= f).Ensures A P Ψ :=
  .bind_of_ok herr hp hf

/-- **The rule of consequence.** -/
theorem Ensures.mono (hA : ∀ c x, A' c x → A c x) (hP : ∀ c, P c → P' c) (hΦ : ∀ a, Φ a → Φ' a) :
    ∀ {p : Prog C R ξ α}, p.Ensures A P Φ → p.Ensures A' P' Φ'
  | .ret a, hp => hΦ a hp
  | .stop _, _ => trivial
  | .call c _, hp => ⟨hP c hp.1, fun x hx => (hp.2 x (hA c x hx)).mono hA hP hΦ⟩

/-- **The rule of conjunction.** -/
theorem Ensures.and : ∀ {p : Prog C R ξ α}, p.Ensures A P Φ → p.Ensures A P' Φ' →
    p.Ensures A (fun c => P c ∧ P' c) fun a => Φ a ∧ Φ' a
  | .ret _, hp, hp' => ⟨hp, hp'⟩
  | .stop _, _, _ => trivial
  | .call _ _, hp, hp' => ⟨⟨hp.1, hp'.1⟩, fun x hx => (hp.2 x hx).and (hp'.2 x hx)⟩

theorem Ensures.mapStop {ξ' : Type} {f : ξ → ξ'} :
    ∀ {p : Prog C R ξ α}, p.Ensures A P Φ → (p.mapStop f).Ensures A P Φ
  | .ret _, hp => hp
  | .stop _, _ => trivial
  | .call _ _, hp => ⟨hp.1, fun x hx => (hp.2 x hx).mapStop⟩

/-- Of an attempt that has caught a stop nothing is known. -/
theorem Ensures.attempt {ε : Type} {f : ξ → Option ε} :
    ∀ {p : Prog C R ξ α}, p.Ensures A P Φ → (p.attempt f).Ensures A P fun r => ∀ a, r = .ok a → Φ a
  | .ret a, hp => fun b hb => by cases hb; exact hp
  | .stop e, _ => by
    simp only [Prog.attempt]
    cases f e with
    | none => trivial
    | some e' => intro b hb; cases hb
  | .call _ _, hp => ⟨hp.1, fun x hx => (hp.2 x hx).attempt⟩

/-- What holds whatever the answers are. -/
theorem Within.ensures {Q : ξ → Prop} :
    ∀ {p : Prog C R ξ α}, p.Within P Q → p.Ensures A P fun _ => True
  | .ret _, _ => trivial
  | .stop _, _ => trivial
  | .call _ _, hp => ⟨hp.1, fun x _ => (hp.2 x).ensures⟩

/-- A first part that keeps to `P` whatever the answers are. -/
theorem Within.ensures_bind {Q : ξ → Prop} {p : Prog C R ξ α} {f : α → Prog C R ξ β}
    (hp : p.Within P Q) (hf : ∀ a, (f a).Ensures A P Ψ) : (p >>= f).Ensures A P Ψ :=
  Ensures.bind (Within.ensures hp) fun a _ => hf a

/-- A program that is through has nothing more to keep to. -/
theorem ensures_of_not_busy {p : Prog C R ξ α} (h : p.busy = false) :
    p.Ensures A P fun _ => True := by
  cases p with
  | ret a => trivial
  | stop e => trivial
  | call c k => cases h

/-- **The rule of runs.**  If in a state of `I` the answers are in `A`, and the commands in `P` lead
back to `I`, then a run leads from `I` to `I`, and returns what is in `Φ`. -/
theorem Ensures.keeps {H : Handler C R σ} {I : σ → Prop} (hA : ∀ c s x s₁, I s → H c s x s₁ → A c x)
    (hI : ∀ c, P c → ∀ s x s₁, I s → H c s x s₁ → I s₁) {r : Except ξ α} {s' : σ} :
    ∀ {p : Prog C R ξ α} {s : σ}, p.Ensures A P Φ → p.Runs H s r s' → I s →
      I s' ∧ ∀ a, r = .ok a → Φ a
  | .ret a, _, hp, h, hs => by
    obtain ⟨rfl, rfl⟩ := h
    exact ⟨hs, fun b hb => by cases hb; exact hp⟩
  | .stop e, _, _, h, hs => by
    obtain ⟨rfl, rfl⟩ := h
    exact ⟨hs, fun b hb => by cases hb⟩
  | .call c _, s, hp, ⟨x, s₁, hc, h⟩, hs =>
    (hp.2 x (hA c s x s₁ hs hc)).keeps hA hI h (hI c hp.1 s x s₁ hs hc)

end Ensures

/-! ### States on the way -/

/-- From `s` a run of the program comes through `t`. -/
def Visits (H : Handler C R σ) : Prog C R ξ α → σ → σ → Prop
  | .ret _, s, t => t = s
  | .stop _, s, t => t = s
  | .call c k, s, t => t = s ∨ ∃ x s₁, H c s x s₁ ∧ (k x).Visits H s₁ t

section Visits

variable {H : Handler C R σ} {t : σ} {p : Prog C R ξ α}

theorem visits_self : ∀ (p : Prog C R ξ α) (s : σ), p.Visits H s s
  | .ret _, _ => rfl
  | .stop _, _ => rfl
  | .call _ _, _ => .inl rfl

/-- On the way through a sequence is on the way through its first part, or through the rest. -/
theorem visits_bind {f : α → Prog C R ξ β} :
    ∀ {p : Prog C R ξ α} {s : σ}, (p >>= f).Visits H s t →
      p.Visits H s t ∨ ∃ a s₁, p.Runs H s (.ok a) s₁ ∧ (f a).Visits H s₁ t
  | .ret a, s, h => .inr ⟨a, s, ⟨rfl, rfl⟩, h⟩
  | .stop _, _, h => .inl h
  | .call c k, s, h => by
    rcases h with rfl | ⟨x, s₁, hc, h⟩
    · exact .inl (.inl rfl)
    · rcases visits_bind (p := k x) h with h | ⟨a, s₂, hr, h⟩
      · exact .inl (.inr ⟨x, s₁, hc, h⟩)
      · exact .inr ⟨a, s₂, ⟨x, s₁, hc, hr⟩, h⟩

/-- A run ends in a state that it comes through. -/
theorem Runs.visits {r : Except ξ α} :
    ∀ {p : Prog C R ξ α} {s : σ}, p.Runs H s r t → p.Visits H s t
  | .ret _, _, h => h.2
  | .stop _, _, h => h.2
  | .call _ _, _, ⟨x, s₁, hc, h⟩ => .inr ⟨x, s₁, hc, h.visits⟩

/-- What is returned makes no difference. -/
theorem visits_of_discard {f : α → β} {s : σ}
    (h : (p >>= fun a => pure (f a)).Visits H s t) : p.Visits H s t := by
  rcases visits_bind h with h | ⟨a, s₁, hr, h⟩
  · exact h
  · cases h
    exact Runs.visits hr

/-- **The rule of runs**, on the way. -/
theorem Ensures.visits {A : (c : C) → R c → Prop} {P : C → Prop} {Φ : α → Prop} {I : σ → Prop}
    (hA : ∀ c s x s₁, I s → H c s x s₁ → A c x)
    (hI : ∀ c, P c → ∀ s x s₁, I s → H c s x s₁ → I s₁) :
    ∀ {p : Prog C R ξ α} {s : σ}, p.Ensures A P Φ → p.Visits H s t → I s → I t
  | .ret _, _, _, h, hs | .stop _, _, _, h, hs => by cases h; exact hs
  | .call c _, s, hp, h, hs => by
    rcases h with h | ⟨x, s₁, hc, h⟩
    · cases h; exact hs
    · exact (hp.2 x (hA c s x s₁ hs hc)).visits hA hI h (hI c hp.1 s x s₁ hs hc)

/-- The run in which `resolve` answers the commands, if it answers them all. -/
def perform (resolve : (c : C) → σ → Option (R c × σ)) : Prog C R ξ α → σ → Option (Except ξ α × σ)
  | .ret a, s => some (.ok a, s)
  | .stop e, s => some (.error e, s)
  | .call c k, s =>
    match resolve c s with
    | none => none
    | some (x, s') => perform resolve (k x) s'

variable {resolve : (c : C) → σ → Option (R c × σ)}

/-- **What is performed is a run.** -/
theorem runs_of_perform (hres : ∀ c s x s', resolve c s = some (x, s') → H c s x s')
    {r : Except ξ α} :
    ∀ {p : Prog C R ξ α} {s : σ}, perform resolve p s = some (r, t) → p.Runs H s r t
  | .ret _, _, h | .stop _, _, h => by cases h; exact ⟨rfl, rfl⟩
  | .call c k, s, h => by
    rw [perform] at h
    split at h
    · cases h
    · next x s' hx => exact ⟨x, s', hres c s x s' hx, runs_of_perform hres h⟩

theorem exists_of_perform (hres : ∀ c s x s', resolve c s = some (x, s') → H c s x s')
    {s : σ} {T : Except ξ α × σ → Bool} (h : (perform resolve p s).any T = true) :
    ∃ r t, p.Runs H s r t ∧ T (r, t) = true := by
  cases hp : perform resolve p s with
  | none => rw [hp] at h; cases h
  | some x =>
    rw [hp] at h
    exact ⟨x.1, x.2, runs_of_perform hres hp, h⟩

variable {χ : Type} {resolve : (c : C) → χ → σ → Option (R c × σ)}

/-- The state after the choices, by which `resolve` answers the commands. -/
def follow (resolve : (c : C) → χ → σ → Option (R c × σ)) : List χ → Prog C R ξ α → σ → Option σ
  | [], _, s => some s
  | _ :: _, .ret _, _ => none
  | _ :: _, .stop _, _ => none
  | ch :: chs, .call c k, s =>
    match resolve c ch s with
    | none => none
    | some (x, s') => follow resolve chs (k x) s'

/-- **What is followed is visited.** -/
theorem visits_of_follow (hres : ∀ c ch s x s', resolve c ch s = some (x, s') → H c s x s') :
    ∀ {chs : List χ} {p : Prog C R ξ α} {s : σ}, follow resolve chs p s = some t → p.Visits H s t
  | [], p, s, h => by obtain rfl : s = t := Option.some.inj h; exact visits_self p s
  | _ :: _, .ret _, _, h => by cases h
  | _ :: _, .stop _, _, h => by cases h
  | ch :: chs, .call c k, s, h => by
    rw [follow] at h
    split at h
    · cases h
    · next x s' hx => exact .inr ⟨x, s', hres c ch s x s' hx, visits_of_follow hres h⟩

theorem exists_of_follow (hres : ∀ c ch s x s', resolve c ch s = some (x, s') → H c s x s')
    {s : σ} {T : σ → Prop} [DecidablePred T] (chs : List χ)
    (h : (follow resolve chs p s).any (T ·) = true) :
    ∃ t, p.Visits H s t ∧ T t := by
  cases ht : follow resolve chs p s with
  | none => rw [ht] at h; cases h
  | some t =>
    rw [ht] at h
    exact ⟨t, visits_of_follow hres ht, of_decide_eq_true h⟩

end Visits

/-! ### What a program leaves -/

/-- From `s` the program returns only what is in `Φ`, and where. -/
def Post (H : Handler C R σ) (p : Prog C R ξ α) (s : σ) (Φ : α → σ → Prop) : Prop :=
  ∀ a s', p.Runs H s (.ok a) s' → Φ a s'

section Post

variable {H : Handler C R σ} {s : σ} {Φ Φ' : α → σ → Prop} {Ψ : β → σ → Prop} {p : Prog C R ξ α}

theorem post_pure {a : α} (h : Φ a s) : (pure a : Prog C R ξ α).Post H s Φ := by
  rintro b s' ⟨hb, rfl⟩
  cases hb
  exact h

theorem Post.bind {f : α → Prog C R ξ β} (hp : p.Post H s Φ)
    (hf : ∀ a s', Φ a s' → (f a).Post H s' Ψ) : (p >>= f).Post H s Ψ := by
  intro b s' hr
  rcases runs_bind.mp hr with ⟨a, s₁, hp', hf'⟩ | ⟨e, he, -⟩
  · exact hf a s₁ (hp a s₁ hp') b s' hf'
  · cases he

/-- What a program leaves does not depend on what is returned in its place. -/
theorem Post.const {Φ : σ → Prop} (hp : p.Post H s fun _ s' => Φ s') (b : β) :
    (p >>= fun _ => pure b).Post H s fun _ s' => Φ s' :=
  hp.bind fun _ _ h => post_pure h

theorem Post.mono (hp : p.Post H s Φ) (hΦ : ∀ a s', Φ a s' → Φ' a s') :
    p.Post H s Φ' := fun a s' hr => hΦ a s' (hp a s' hr)

/-- A command, and what follows it. -/
theorem post_ask_bind {c : C} {f : R c → Prog C R ξ α}
    (h : ∀ x s', H c s x s' → (f x).Post H s' Φ) : (ask c >>= f).Post H s Φ := by
  rintro a s' ⟨x, s₁, hc, hr⟩
  exact h x s₁ hc a s' hr

/-- The frame rule, once more. -/
theorem Within.post {P : C → Prop} {Q : ξ → Prop} {I : σ → Prop}
    (hI : ∀ c, P c → ∀ s x s₁, H c s x s₁ → I s → I s₁) (hp : p.Within P Q)
    (hs : I s) : p.Post H s fun _ s' => I s' := fun _ _ hr => hp.keeps hI hr hs

end Post

/-! ### Programs and what they have done -/

/-- A command and its answer. -/
abbrev Done (C : Type) (R : C → Type) := (c : C) × R c

/-- Whatever it is answered, every command the program issues is in `Φ` of what was done before,
newest first. -/
def Along (Φ : List (Done C R) → C → Prop) : List (Done C R) → Prog C R ξ α → Prop
  | _, .ret _ => True
  | _, .stop _ => True
  | h, .call c k => Φ h c ∧ ∀ x, (k x).Along Φ (⟨c, x⟩ :: h)

section Along

variable {Φ : List (Done C R) → C → Prop} {f : α → Prog C R ξ β} {P : C → Prop}

theorem along_ask_bind {c : C} {f : R c → Prog C R ξ α} {h : List (Done C R)} :
    (ask c >>= f).Along Φ h ↔ Φ h c ∧ ∀ x, (f x).Along Φ (⟨c, x⟩ :: h) := Iff.rfl

/-- A first part whose commands are in `Φ` after anything leaves only the rest to look at. -/
theorem Ensures.along_bind {Ψ : α → Prop} (hP : ∀ h c, P c → Φ h c)
    (hf : ∀ a h, Ψ a → (f a).Along Φ h) :
    ∀ {p : Prog C R ξ α} (h : List (Done C R)), p.Ensures (fun _ _ => True) P Ψ →
      (p >>= f).Along Φ h
  | .ret a, h, hp => hf a h hp
  | .stop _, _, _ => trivial
  | .call c _, h, hp => ⟨hP h c hp.1, fun x => (hp.2 x trivial).along_bind hP hf _⟩

/-- A first part that keeps to `P` keeps what is known of what was done. -/
theorem Within.along_bind {Q : ξ → Prop} {J : List (Done C R) → Prop}
    (hJ : ∀ h c x, P c → J h → J (⟨c, x⟩ :: h)) (hΦ : ∀ h c, P c → J h → Φ h c)
    (hf : ∀ a h, J h → (f a).Along Φ h) :
    ∀ {p : Prog C R ξ α} {h : List (Done C R)}, p.Within P Q → J h → (p >>= f).Along Φ h
  | .ret a, h, _, hj => hf a h hj
  | .stop _, _, _, _ => trivial
  | .call c _, h, hp, hj =>
    ⟨hΦ h c hp.1 hj, fun x => (hp.2 x).along_bind hJ hΦ hf (hJ h c x hp.1 hj)⟩

/-- A program that keeps to `P`, and to what is known of what was done. -/
theorem Within.along {Q : ξ → Prop} {J : List (Done C R) → Prop}
    (hJ : ∀ h c x, P c → J h → J (⟨c, x⟩ :: h)) (hΦ : ∀ h c, P c → J h → Φ h c) :
    ∀ {p : Prog C R ξ α} {h : List (Done C R)}, p.Within P Q → J h → p.Along Φ h
  | .ret _, _, _, _ => trivial
  | .stop _, _, _, _ => trivial
  | .call c _, h, hp, hj =>
    ⟨hΦ h c hp.1 hj, fun x => (hp.2 x).along hJ hΦ (hJ h c x hp.1 hj)⟩

/-- A rest that may stand after anything leaves only the first part to look at. -/
theorem Along.bind (hf : ∀ a h, (f a).Along Φ h) :
    ∀ {p : Prog C R ξ α} {h : List (Done C R)}, p.Along Φ h → (p >>= f).Along Φ h
  | .ret a, h, _ => hf a h
  | .stop _, _, _ => trivial
  | .call _ _, _, hp => ⟨hp.1, fun x => (hp.2 x).bind hf⟩

theorem Along.mono {Φ' : List (Done C R) → C → Prop} (hΦ : ∀ h c, Φ h c → Φ' h c) :
    ∀ {p : Prog C R ξ α} {h : List (Done C R)}, p.Along Φ h → p.Along Φ' h
  | .ret _, _, _ => trivial
  | .stop _, _, _ => trivial
  | .call c _, h, hp => ⟨hΦ h c hp.1, fun x => (hp.2 x).mono hΦ⟩

/-- **A contract over what was answered before**: if the program keeps to `P h` whenever it is
answered within `A h`, and what was done in `h` was answered so, it keeps to `P` along its way. -/
theorem along_of_ensures {A : List (Done C R) → (c : C) → R c → Prop}
    (hA : ∀ h, ∀ d ∈ h, A h d.1 d.2) :
    ∀ {p : Prog C R ξ α} {h : List (Done C R)},
      (∀ l, p.Ensures (A (l ++ h)) (Φ (l ++ h)) fun _ => True) → p.Along Φ h
  | .ret _, _, _ => trivial
  | .stop _, _, _ => trivial
  | .call c k, h, hp => by
    refine ⟨(hp []).1, fun x => along_of_ensures hA fun l => ?_⟩
    have hnext := hp (l ++ [⟨c, x⟩])
    rw [List.append_assoc, List.singleton_append] at hnext
    exact hnext.2 x (hA _ ⟨c, x⟩ (by simp))

theorem along_of_forall (hΦ : ∀ h c, Φ h c) :
    ∀ (p : Prog C R ξ α) (h : List (Done C R)), p.Along Φ h
  | .ret _, _ => trivial
  | .stop _, _ => trivial
  | .call c k, h => ⟨hΦ h c, fun x => along_of_forall hΦ (k x) _⟩

end Along

/-- Whatever it is answered, a program that returns has done, newest first, and returns what is in
`Φ`. -/
def Ends (Φ : List (Done C R) → α → Prop) : List (Done C R) → Prog C R ξ α → Prop
  | h, .ret a => Φ h a
  | _, .stop _ => True
  | h, .call c k => ∀ x, (k x).Ends Φ (⟨c, x⟩ :: h)

theorem Ends.of_result {Φ : List (Done C R) → α → Prop} {a : α} :
    ∀ {p : Prog C R ξ α} {h : List (Done C R)}, p.Ends Φ h → p.result = some a → Φ h a
  | .ret _, _, hp, hr => by cases hr; exact hp
  | .stop _, _, _, hr => by cases hr
  | .call _ _, _, _, hr => by cases hr

end Prog
