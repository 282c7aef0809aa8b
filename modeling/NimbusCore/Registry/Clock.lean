import NimbusCore.Registry.Registry

/-!
# Registry — programs that read the clock

A program over the registry that also calls `time.Now`.  Time is in nanoseconds since 1970.  Before
any call some time may pass, and none is ever taken back (`clocked`).
-/

namespace NimbusCore.Registry

open Int64

/-- `time.Time`. -/
abbrev Time := Int

namespace Time

/-- `Time.Add`, of a `time.Duration`. -/
def add (t : Int) (d : Int64) : Time := t + d.toInt

/-- `Time.Sub`, which stops at the bounds of a `time.Duration`. -/
def sub (t u : Int) : Int64 := Int64.ofInt (max (-2 ^ 63) (min (t - u) (2 ^ 63 - 1)))

/-- The bounds do not matter for a comparison with a duration. -/
theorem sub_lt_iff {t u : Int} (h : u ≤ t) (d : Int64) : sub t u < d ↔ t - u < d.toInt := by
  have hd := toInt_lt d
  rw [lt_iff_toInt_lt, sub, toInt_ofInt_of_le (by omega) (by omega)]
  omega

theorem zero_lt_sub_iff {t u : Int} : 0 < sub t u ↔ u < t := by
  rw [lt_iff_toInt_lt, sub, toInt_ofInt_of_le (by omega) (by omega),
    show (0 : Int64).toInt = 0 from rfl]
  omega

/-- `time.Unix`, of whole seconds.  They are kept from the year 1, in an `int64` that wraps. -/
def ofUnix (sec : Int64) : Time := ((sec + 62135596800).toInt - 62135596800) * 1000000000

/-- `Time.Unix`: whole seconds, rounded down. -/
def unix (t : Int) : Int64 := Int64.ofInt (t / 1000000000)

theorem toInt_unix {t : Int} (h₀ : -2 ^ 63 ≤ t) (h₁ : t / 1000000000 < 2 ^ 63) :
    (unix t).toInt = t / 1000000000 :=
  toInt_ofInt_of_le (by omega) h₁

/-- A later time has as many seconds or more. -/
theorem unix_mono {t t' : Int} (h : t ≤ t') (h₀ : -2 ^ 63 ≤ t) (h₁ : t' / 1000000000 < 2 ^ 63) :
    unix t ≤ unix t' := by
  have hdiv : t / 1000000000 ≤ t' / 1000000000 := Int.ediv_le_ediv (by decide) h
  rw [le_iff_toInt_le, toInt_unix h₀ (by omega), toInt_unix (by omega) h₁]
  exact hdiv

end Time

/-- The store and the clock, which shows a time since 1970 whose seconds are an `int64`. -/
structure Timed where
  store : State
  now : Int
  since : 0 ≤ now
  fits : now / 1000000000 < 2 ^ 63

/-- A call of a registry, or of `time.Now`. -/
inductive ClockCmd where
  | reg (c : Cmd)
  | now

/-- What a call returns. -/
abbrev ClockCmd.Answer : ClockCmd → Type
  | .reg c => c.Answer
  | .now => Time

/-- A store that may fail at any call, beside a clock that does not go backwards. -/
def clocked : Handler ClockCmd ClockCmd.Answer Timed
  | .reg c, s, x, s' => s.now ≤ s'.now ∧ serveOrFail c s.store x s'.store
  | .now, s, x, s' => s.now ≤ s'.now ∧ s'.store = s.store ∧ x = s'.now

theorem now_le_of_clocked {c : ClockCmd} {s s' : Timed} {x : c.Answer} (h : clocked c s x s') :
    s.now ≤ s'.now := by
  cases c with
  | reg c => exact h.1
  | now => exact h.1

/-- A program over the registry and the clock. -/
abbrev Clocked := Prog ClockCmd ClockCmd.Answer Stop

/-- A call of a registry, in such a program. -/
def call (c : Cmd) : Clocked c.Answer := Prog.ask (ClockCmd.reg c)

/-- `time.Now`. -/
def now : Clocked Time := Prog.ask ClockCmd.now

/-- What a store that never fails answers, a listing in the order `order`, while the clock stands
still. -/
def resolveStill : (c : ClockCmd) → (order : List String) → Timed → Option (c.Answer × Timed)
  | .reg c, order, s =>
    (resolve c order s.store).map fun (x, store) => (x, { s with store := store })
  | .now, _, s => some (s.now, s)

theorem clocked_of_resolveStill (c : ClockCmd) (order : List String) (s : Timed) (x : c.Answer)
    (s' : Timed) (h : resolveStill c order s = some (x, s')) : clocked c s x s' := by
  cases c with
  | now => cases h; exact ⟨le_refl _, rfl, rfl⟩
  | reg c =>
    obtain ⟨⟨y, store⟩, hy, hxs⟩ := Option.map_eq_some_iff.mp h
    cases hxs
    exact ⟨le_refl _, serveOrFail_of_resolve c order s.store _ _ hy⟩

end NimbusCore.Registry
