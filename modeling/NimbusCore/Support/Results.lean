import Mathlib.Logic.Basic

/-!
# Support — Results

`Except` as the result of a call that may fail: how to take a successful sequence of calls apart.
Nothing here is about a particular program.
-/

variable {ε ε' α β : Type}

/-- **A sequence succeeds exactly when its first call does and the rest does after it.** -/
theorem Except.bind_eq_ok {x : Except ε α} {f : α → Except ε β} {b : β} :
    (x >>= f) = .ok b ↔ ∃ a, x = .ok a ∧ f a = .ok b := by
  rcases x with e | a
  · exact ⟨nofun, nofun⟩
  constructor
  · exact fun h => ⟨a, rfl, h⟩
  · rintro ⟨a', h, h'⟩; cases h; exact h'

@[simp] theorem Except.ok_bind (a : α) (f : α → Except ε β) : (Except.ok a >>= f) = f a := rfl

theorem Except.mapError_eq_ok {x : Except ε α} {f : ε → ε'} {a : α} :
    x.mapError f = .ok a ↔ x = .ok a := by
  cases x with
  | error e => exact ⟨nofun, nofun⟩
  | ok b => exact ⟨fun h => by cases h; rfl, fun h => by cases h; rfl⟩

/-- The value of an option, or the failure `e`. -/
def Option.orError (o : Option α) (e : ε) : Except ε α :=
  match o with
  | some a => .ok a
  | none => .error e

theorem Option.orError_eq_ok {o : Option α} {e : ε} {a : α} : o.orError e = .ok a ↔ o = some a := by
  cases o with
  | none => exact ⟨nofun, nofun⟩
  | some b => exact ⟨fun h => by cases h; rfl, fun h => by cases h; rfl⟩

/-- A check that must pass. -/
def require (b : Bool) (e : ε) : Except ε Unit := if b then .ok () else .error e
