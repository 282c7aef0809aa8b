import NimbusCore.Support.Contracts

/-!
# Support — Expansion

Programs whose commands are carried out by programs over other commands (`expand`), and the run of a
program in which every command has a fixed answer (`outcome`).

* `Ensures.expand`: what holds of a program whose commands keep to their contracts holds of it when
  each of them is carried out by a program that does.
* `Ensures.after`, `Along.after`: what is sure to come after a first part keeps to the contract of
  the whole.  This takes a contract apart again, down to a command that cannot keep to it.

Nothing here is about a particular program.
-/

namespace Prog

variable {C C' : Type} {R : C → Type} {R' : C' → Type} {ξ α β : Type}

/-! ### Commands carried out by programs -/

/-- The program with each command carried out by a program. -/
def expand (h : (c : C) → Prog C' R' ξ (R c)) : Prog C R ξ α → Prog C' R' ξ α
  | .ret a => .ret a
  | .stop e => .stop e
  | .call c k => h c >>= fun x => (k x).expand h

theorem bind_assoc {γ : Type} (f : α → Prog C R ξ β) (g : β → Prog C R ξ γ) :
    ∀ p : Prog C R ξ α, (p >>= f) >>= g = p >>= fun a => f a >>= g
  | .ret _ => rfl
  | .stop _ => rfl
  | .call c k => congrArg (Prog.call c) (funext fun x => bind_assoc f g (k x))

theorem bind_ret : ∀ p : Prog C R ξ α, (p >>= fun a => .ret a) = p
  | .ret _ => rfl
  | .stop _ => rfl
  | .call c k => congrArg (Prog.call c) (funext fun x => bind_ret (k x))

section

variable {h : (c : C) → Prog C' R' ξ (R c)}

@[simp] theorem expand_ask (c : C) : (ask c : Prog C R ξ (R c)).expand h = h c := bind_ret _

theorem expand_bind (f : α → Prog C R ξ β) :
    ∀ p : Prog C R ξ α, (p >>= f).expand h = p.expand h >>= fun a => (f a).expand h
  | .ret _ => rfl
  | .stop _ => rfl
  | .call c k => by
    have hk : (fun x => ((k x).bind f).expand h) =
        fun x => (k x).expand h >>= fun a => (f a).expand h :=
      funext fun x => expand_bind f (k x)
    change (h c >>= fun x => ((k x).bind f).expand h) = _
    rw [hk, ← bind_assoc]
    rfl

/-- **The rule of expansion.** -/
theorem Ensures.expand {A : (c : C) → R c → Prop} {P : C → Prop} {A' : (c : C') → R' c → Prop}
    {P' : C' → Prop} {Φ : α → Prop} (hh : ∀ c, P c → (h c).Ensures A' P' (A c)) :
    ∀ {p : Prog C R ξ α}, p.Ensures A P Φ → (p.expand h).Ensures A' P' Φ
  | .ret _, hp => hp
  | .stop _, _ => trivial
  | .call c _, hp => Ensures.bind (hh c hp.1) fun x hx => (hp.2 x hx).expand hh

end

/-! ### Fixed answers -/

/-- What the program ends with when each command has the answer that `f` gives. -/
def outcome (f : (c : C) → R c) : Prog C R ξ α → Except ξ α
  | .ret a => .ok a
  | .stop e => .error e
  | .call c k => (k (f c)).outcome f

section

variable {f : (c : C) → R c} {A : (c : C) → R c → Prop} {P : C → Prop} {Φ : β → Prop}
  {g : α → Prog C R ξ β}

theorem outcome_bind {a : α} :
    ∀ {p : Prog C R ξ α}, p.outcome f = .ok a → (p >>= g).outcome f = (g a).outcome f
  | .ret _, h => by cases h; rfl
  | .stop _, h => by cases h
  | .call c k, h => outcome_bind (p := k (f c)) h

/-- What is sure to come after a first part keeps to the contract of the whole. -/
theorem Ensures.after {a : α} (hA : ∀ c, A c (f c)) :
    ∀ {p : Prog C R ξ α}, (p >>= g).Ensures A P Φ → p.outcome f = .ok a → (g a).Ensures A P Φ
  | .ret _, hp, h => by cases h; exact hp
  | .stop _, _, h => by cases h
  | .call c k, hp, h => Ensures.after (p := k (f c)) hA (hp.2 _ (hA c)) h

/-- What is sure to come after a first part, after what that has done. -/
theorem Along.after {Φ : List (Done C R) → C → Prop} {J : List (Done C R) → Prop} {Q : ξ → Prop}
    {a : α} (hJ : ∀ h c, P c → J h → J (⟨c, f c⟩ :: h)) :
    ∀ {p : Prog C R ξ α} {h : List (Done C R)}, (p >>= g).Along Φ h → p.Within P Q →
      p.outcome f = .ok a → J h → ∃ h', J h' ∧ (g a).Along Φ h'
  | .ret _, h, hp, _, ha, hh => by cases ha; exact ⟨h, hh, hp⟩
  | .stop _, _, _, _, ha, _ => by cases ha
  | .call c k, h, hp, hw, ha, hh =>
    Along.after (p := k (f c)) hJ (hp.2 (f c)) (hw.2 (f c)) ha (hJ h c hw.1 hh)

/-- The first part keeps to the contract of the whole. -/
theorem Ensures.before :
    ∀ {p : Prog C R ξ α}, (p >>= g).Ensures A P Φ → p.Ensures A P fun _ => True
  | .ret _, _ => trivial
  | .stop _, _ => trivial
  | .call _ _, hp => ⟨hp.1, fun x hx => (hp.2 x hx).before⟩

end

end Prog
