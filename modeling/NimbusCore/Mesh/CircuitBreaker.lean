import NimbusCore.Registry.Clock
import NimbusCore.Support.Interleaving

/-!
# Mesh — the circuit breaker

`internal/mesh/circuitbreaker.go`.  The breaker counts the failures since the last success and opens
when they reach a threshold; after a timeout it lets a trial through.  Its mutex makes each of the
three operations one step, in which the clock is read; the callers are any programs over them
(`BreakerCmd`), interleaved, while the clock does not go backwards.  A failure is recorded and a
call is let through without regard to each other: a caller may record what it was let through for
long after the breaker has changed.

* `closed_iff_few_failures`: the breaker is closed exactly when fewer failures than the threshold
  have been recorded since the last success.  As long as the counter does not wrap, a call is
  refused exactly when the breaker is open and the last failure was less than the timeout ago.
* `refusal_forgotten`: when the counter wraps, a failure no longer counts for the timeout.
-/

namespace NimbusCore.Mesh

open Registry Int64

/-! ### The breaker -/

/-- `State`. -/
inductive BreakerState where
  | closed
  | opened
  | halfOpen
  deriving DecidableEq

/-- `CircuitBreaker`, without its mutex. -/
structure CircuitBreaker where
  state : BreakerState
  failures : Int64
  threshold : Int64
  resetTimeout : Int64
  openedAt : Time
  threshold_pos : 0 < threshold
  resetTimeout_pos : 0 < resetTimeout

/-- The zero `time.Time`: the first of January of the year 1. -/
def zeroTime : Time := -62135596800 * 1000000000

/-- The threshold, with its default. -/
def thresholdOf (threshold : Int64) : Int64 := if threshold ≤ 0 then 5 else threshold

/-- The timeout, with its default of 30 seconds. -/
def resetTimeoutOf (resetTimeout : Int64) : Int64 :=
  if resetTimeout ≤ 0 then 30 * 1000000000 else resetTimeout

theorem orDefault_pos {x d : Int64} (hd : 0 < d) : 0 < if x ≤ 0 then d else x := by
  split
  · exact hd
  · next h => exact Int64.not_le.mp h

/-- `NewCircuitBreaker`. -/
def newCircuitBreaker (threshold resetTimeout : Int64) : CircuitBreaker where
  state := .closed
  failures := 0
  threshold := thresholdOf threshold
  resetTimeout := resetTimeoutOf resetTimeout
  openedAt := zeroTime
  threshold_pos := orDefault_pos (by decide)
  resetTimeout_pos := orDefault_pos (by decide)

namespace CircuitBreaker

/-- `Allow`, at `now`. -/
def allow (cb : CircuitBreaker) (now : Time) : Bool × CircuitBreaker :=
  if cb.state ≠ .opened then (true, cb)
  else if Time.sub now cb.openedAt < cb.resetTimeout then (false, cb)
  else (true, { cb with state := .halfOpen })

/-- `RecordSuccess`. -/
def recordSuccess (cb : CircuitBreaker) : CircuitBreaker :=
  { cb with failures := 0, state := .closed }

/-- `RecordFailure`, at `now`. -/
def recordFailure (cb : CircuitBreaker) (now : Time) : CircuitBreaker :=
  let cb := { cb with failures := cb.failures + 1 }
  if cb.state = .halfOpen ∨ cb.threshold ≤ cb.failures then
    { cb with state := .opened, openedAt := now }
  else cb

/-- A call is refused exactly if the breaker is open and it is too early for a trial. -/
theorem allow_eq_false_iff {cb : CircuitBreaker} {now : Time} (h : cb.openedAt ≤ now) :
    (cb.allow now).1 = false ↔
      cb.state = .opened ∧ now - cb.openedAt < cb.resetTimeout.toInt := by
  rw [← Time.sub_lt_iff h, allow]
  split
  · next hs => simp [hs]
  · next hs =>
    split
    · next ht => simp [not_not.mp hs, ht]
    · next ht => simp [ht]

end CircuitBreaker

/-! ### The callers -/

/-- A call of the breaker. -/
inductive BreakerCmd where
  | allow
  | recordSuccess
  | recordFailure
  deriving DecidableEq

/-- What a call returns. -/
abbrev BreakerCmd.Answer : BreakerCmd → Type
  | .allow => Bool
  | .recordSuccess | .recordFailure => Unit

/-- The breaker, and the clock. -/
structure Shared where
  breaker : CircuitBreaker
  now : Time

/-- One operation under the mutex, at some time that is not before the last one. -/
def locked : Handler BreakerCmd BreakerCmd.Answer Shared
  | .allow, s, x, s' => s.now ≤ s'.now ∧ (x, s'.breaker) = s.breaker.allow s'.now
  | .recordSuccess, s, _, s' => s.now ≤ s'.now ∧ s'.breaker = s.breaker.recordSuccess
  | .recordFailure, s, _, s' => s.now ≤ s'.now ∧ s'.breaker = s.breaker.recordFailure s'.now

/-- A step of the callers. -/
abbrev BreakerStep (ι : Type) := Prog.Event ι BreakerCmd BreakerCmd.Answer Shared

section

variable {ι : Type}

/-- The failures since the last success. -/
def failuresSince : List (BreakerStep ι) → Nat
  | [] => 0
  | e :: tr => match e.cmd with
    | .allow => failuresSince tr
    | .recordSuccess => 0
    | .recordFailure => failuresSince tr + 1

/-- The time of the last failure. -/
def lastFailure : List (BreakerStep ι) → Option Time
  | [] => none
  | e :: tr => match e.cmd with
    | .allow | .recordSuccess => lastFailure tr
    | .recordFailure => some e.post.now

/-- **The counter never wraps**: there are never `2 ^ 63` failures in a row. -/
def InRange : List (BreakerStep ι) → Prop
  | [] => True
  | e :: tr => failuresSince (e :: tr) < 2 ^ 63 ∧ InRange tr

instance decidableInRange : (tr : List (BreakerStep ι)) → Decidable (InRange tr)
  | [] => inferInstanceAs (Decidable True)
  | _ :: tr =>
    have := decidableInRange tr
    inferInstanceAs (Decidable (_ ∧ _))

theorem InRange.lt {tr : List (BreakerStep ι)} (h : InRange tr) : failuresSince tr < 2 ^ 63 := by
  cases tr with
  | nil => exact Nat.two_pow_pos 63
  | cons e tr => exact h.1

/-! ### What the breaker keeps -/

/-- What the breaker knows of what was recorded.  It has been opened at the last failure, unless the
counter has wrapped. -/
structure Tracks (tr : List (BreakerStep ι)) (cb : CircuitBreaker) (now : Time) : Prop where
  failures : cb.failures = Int64.ofNat (failuresSince tr)
  closed : cb.state = .closed ↔ (failuresSince tr : Int) < cb.threshold.toInt
  opened : InRange tr → cb.state = .opened → lastFailure tr = some cb.openedAt
  past : cb.state = .opened → cb.openedAt ≤ now

theorem tracks_new (threshold resetTimeout : Int64) (now : Time) :
    Tracks ([] : List (BreakerStep ι)) (newCircuitBreaker threshold resetTimeout) now where
  failures := rfl
  closed := iff_of_true rfl (lt_iff_toInt_lt.mp (CircuitBreaker.threshold_pos _))
  opened _ h := by cases h
  past h := by cases h

variable {tr : List (BreakerStep ι)} {cb : CircuitBreaker} {now : Time} {e : BreakerStep ι}

theorem Tracks.later (h : Tracks tr cb now) {now' : Time} (hle : now ≤ now') : Tracks tr cb now' :=
  ⟨h.failures, h.closed, h.opened, fun ho => le_trans (h.past ho) hle⟩

/-- A call that is let through, or refused. -/
theorem Tracks.allow (h : Tracks tr cb now) (he : e.cmd = .allow) :
    Tracks (e :: tr) (cb.allow now).2 now := by
  have hn : failuresSince (e :: tr) = failuresSince tr := by simp [failuresSince, he]
  have hl : lastFailure (e :: tr) = lastFailure tr := by simp [lastFailure, he]
  have hr : InRange (e :: tr) → InRange tr := fun hr => hr.2
  rw [CircuitBreaker.allow]
  split
  · exact ⟨hn ▸ h.failures, hn ▸ h.closed, fun h₁ h₂ => hl ▸ h.opened (hr h₁) h₂, h.past⟩
  · next hs =>
    split
    · exact ⟨hn ▸ h.failures, hn ▸ h.closed, fun h₁ h₂ => hl ▸ h.opened (hr h₁) h₂, h.past⟩
    · -- the breaker was not closed, and it is not now
      refine ⟨hn ▸ h.failures, ?_, fun _ h₂ => (by cases h₂), fun h₂ => by cases h₂⟩
      rw [hn]
      refine iff_of_false (by simp) fun hlt => ?_
      rw [← h.closed, not_not.mp hs] at hlt
      cases hlt

theorem Tracks.recordSuccess (_h : Tracks tr cb now) (he : e.cmd = .recordSuccess) :
    Tracks (e :: tr) cb.recordSuccess now := by
  have hn : failuresSince (e :: tr) = 0 := by simp [failuresSince, he]
  refine ⟨by rw [hn]; rfl, ?_, fun _ h₂ => (by cases h₂), fun h₂ => by cases h₂⟩
  rw [hn]
  exact iff_of_true rfl (lt_iff_toInt_lt.mp cb.threshold_pos)

/-- **A failure.**  When it is recorded while the breaker is open, the threshold has been reached
already, so the breaker is opened once more: unless the counter has wrapped. -/
theorem Tracks.recordFailure (h : Tracks tr cb now) (he : e.cmd = .recordFailure)
    (hnow : e.post.now = now) : Tracks (e :: tr) (cb.recordFailure now) now := by
  have hn : failuresSince (e :: tr) = failuresSince tr + 1 := by simp [failuresSince, he]
  have hl : lastFailure (e :: tr) = some now := by simp [lastFailure, he, hnow]
  have hf : cb.failures + 1 = Int64.ofNat (failuresSince tr + 1) := by
    rw [h.failures, ofNat_add]
    rfl
  have hthr := toInt_lt cb.threshold
  -- up to the threshold the counter is the number of failures
  have hreach : failuresSince tr + 1 < 2 ^ 63 →
      (cb.threshold ≤ cb.failures + 1 ↔ cb.threshold.toInt ≤ (failuresSince tr : Int) + 1) := by
    intro hlt
    rw [hf, le_iff_toInt_le, toInt_ofNat_of_lt hlt]
    push_cast
    rfl
  rw [CircuitBreaker.recordFailure]
  dsimp only
  split
  · next hc =>
    refine ⟨by rw [hn]; exact hf, ?_, fun _ _ => hl, fun _ => le_refl _⟩
    refine iff_of_false (by simp) ?_
    rw [hn, not_lt]
    push_cast
    by_cases hcl : cb.state = .closed
    · have hlt := h.closed.mp hcl
      rcases hc with hc | hc
      · rw [hcl] at hc; cases hc
      · exact (hreach (by omega)).mp hc
    · have hge := mt h.closed.mpr hcl
      omega
  · next hc =>
    obtain ⟨hhalf, hlow⟩ := not_or.mp hc
    refine ⟨by rw [hn]; exact hf, ?_, fun hr ho => ?_, h.past⟩
    · rw [hn]
      push_cast
      by_cases hcl : cb.state = .closed
      · have hlt := h.closed.mp hcl
        have := mt (hreach (by omega)).mpr hlow
        exact iff_of_true hcl (by omega)
      · have hge := mt h.closed.mpr hcl
        exact iff_of_false hcl (by omega)
    · have hlt := hr.lt
      rw [hn] at hlt
      have := mt (hreach hlt).mpr hlow
      have hge := mt h.closed.mpr (by rw [show cb.state = .opened from ho]; simp)
      omega

/-- **One step.** -/
theorem Tracks.step (h : Tracks tr e.pre.breaker e.pre.now)
    (hs : locked e.cmd e.pre e.answer e.post) :
    Tracks (e :: tr) e.post.breaker e.post.now ∧
      e.post.breaker.threshold = e.pre.breaker.threshold ∧
      e.post.breaker.resetTimeout = e.pre.breaker.resetTimeout := by
  obtain ⟨who, cmd, answer, pre, post⟩ := e
  cases cmd with
  | allow =>
    obtain ⟨hle, hx⟩ := hs
    obtain ⟨-, hb⟩ := Prod.mk.inj hx
    rw [show post.breaker = (pre.breaker.allow post.now).2 from hb]
    refine ⟨(h.later hle).allow rfl, ?_⟩
    rw [CircuitBreaker.allow]
    split
    · exact ⟨rfl, rfl⟩
    · split <;> exact ⟨rfl, rfl⟩
  | recordSuccess =>
    obtain ⟨hle, hb⟩ := hs
    rw [show post.breaker = pre.breaker.recordSuccess from hb]
    exact ⟨(h.later hle).recordSuccess rfl, rfl, rfl⟩
  | recordFailure =>
    obtain ⟨hle, hb⟩ := hs
    rw [show post.breaker = pre.breaker.recordFailure post.now from hb]
    refine ⟨(h.later hle).recordFailure rfl rfl, ?_⟩
    rw [CircuitBreaker.recordFailure]
    dsimp only
    split <;> exact ⟨rfl, rfl⟩

/-! ### What is refused -/

/-- **A trial is overdue**: it is let through when the last failure is at least the timeout ago,
unless the counter has wrapped. -/
def Overdue (tr : List (BreakerStep ι)) (cb : CircuitBreaker) (now : Time) : Prop :=
  InRange tr → cb.state = .halfOpen →
    ∃ failed ∈ lastFailure tr, cb.resetTimeout.toInt ≤ now - failed

/-- One step. -/
theorem Overdue.step (ho : Overdue tr e.pre.breaker e.pre.now)
    (h : Tracks tr e.pre.breaker e.pre.now) (hs : locked e.cmd e.pre e.answer e.post) :
    Overdue (e :: tr) e.post.breaker e.post.now := by
  obtain ⟨who, cmd, answer, pre, post⟩ := e
  intro hr hhalf
  cases cmd with
  | allow =>
    obtain ⟨hle, hx⟩ := hs
    have hle : pre.now ≤ post.now := hle
    have hb : post.breaker = (pre.breaker.allow post.now).2 := (Prod.mk.inj hx).2
    change ∃ failed ∈ lastFailure tr, _
    rw [CircuitBreaker.allow] at hb
    split at hb
    · rw [show post.breaker = pre.breaker from hb] at hhalf ⊢
      obtain ⟨failed, hf, hlate⟩ := ho hr.2 hhalf
      exact ⟨failed, hf, le_trans hlate (Int.sub_le_sub_right hle failed)⟩
    · next hopen =>
      have hopen : pre.breaker.state = .opened := not_not.mp hopen
      split at hb
      · rw [show post.breaker = pre.breaker from hb, hopen] at hhalf
        cases hhalf
      · next hlate =>
        rw [Time.sub_lt_iff (le_trans (h.past hopen) hle), not_lt] at hlate
        exact ⟨pre.breaker.openedAt, h.opened hr.2 hopen, by rw [hb]; exact hlate⟩
  | recordSuccess =>
    rw [show post.breaker = _ from hs.2] at hhalf
    cases hhalf
  | recordFailure =>
    rw [show post.breaker = _ from hs.2, CircuitBreaker.recordFailure] at hhalf
    dsimp only at hhalf
    split at hhalf
    · cases hhalf
    · next hc => exact absurd (.inl hhalf) hc

/-- **A call is refused exactly when the threshold is reached and the last failure was less than the
timeout ago.** -/
theorem Tracks.refused_iff (h : Tracks tr cb now) (ho : Overdue tr cb now) (hr : InRange tr)
    {later : Time} (hle : now ≤ later) :
    (cb.allow later).1 = false ↔ cb.threshold.toInt ≤ failuresSince tr ∧
      ∃ failed ∈ lastFailure tr, later - failed < cb.resetTimeout.toInt := by
  rw [← not_lt, ← h.closed]
  cases hs : cb.state with
  | closed =>
    rw [CircuitBreaker.allow, if_pos (by rw [hs]; decide)]
    simp
  | opened =>
    rw [CircuitBreaker.allow_eq_false_iff (le_trans (h.past hs) hle), h.opened hr hs, hs]
    simp
  | halfOpen =>
    obtain ⟨failed, hf, hlate⟩ := ho hr hs
    rw [CircuitBreaker.allow, if_pos (by rw [hs]; decide), Option.mem_def.mp hf]
    simp only [Bool.true_eq_false, false_iff, not_and]
    rintro - ⟨failed', hf', hlt⟩
    cases hf'
    exact not_lt.mpr (le_trans hlate (Int.sub_le_sub_right hle failed)) hlt

/-! ### Every interleaving -/

/-- **The breaker is closed exactly when fewer failures than the threshold have been recorded since
the last success**, whoever calls.  As long as the counter does not wrap, a call is refused exactly
when the breaker is open and the last failure was less than the timeout ago. -/
theorem closed_iff_few_failures [DecidableEq ι] {ξ α : Type}
    {P Q : ι → Prog BreakerCmd BreakerCmd.Answer ξ α} {threshold resetTimeout : Int64}
    {start : Time} {t : Shared} (h : Prog.Interleaves Prog.unguarded locked P
      ⟨newCircuitBreaker threshold resetTimeout, start⟩ tr Q t) :
    (t.breaker.state = .closed ↔ (failuresSince tr : Int) < (thresholdOf threshold).toInt) ∧
      (InRange tr → ∀ now, t.now ≤ now → ((t.breaker.allow now).1 = false ↔
        t.breaker.state = .opened ∧
          ∃ failed ∈ lastFailure tr, now - failed < (resetTimeoutOf resetTimeout).toInt)) := by
  have hinv : Tracks tr t.breaker t.now ∧ t.breaker.threshold = thresholdOf threshold ∧
      t.breaker.resetTimeout = resetTimeoutOf resetTimeout := by
    refine h.invariant (I := fun tr _ t => Tracks tr t.breaker t.now ∧
      t.breaker.threshold = thresholdOf threshold ∧
      t.breaker.resetTimeout = resetTimeoutOf resetTimeout) ⟨tracks_new .., rfl, rfl⟩ ?_
    rintro tr Q t i c k x t' - ⟨ht, hthr, hreset⟩ - hc -
    obtain ⟨ht', hthr', hreset'⟩ := ht.step (e := ⟨i, c, x, t, t'⟩) hc
    exact ⟨ht', hthr'.trans hthr, hreset'.trans hreset⟩
  obtain ⟨ht, hthr, hreset⟩ := hinv
  refine ⟨hthr ▸ ht.closed, fun hr now hnow => ?_⟩
  by_cases ho : t.breaker.state = .opened
  · rw [CircuitBreaker.allow_eq_false_iff (le_trans (ht.past ho) hnow), hreset,
      ht.opened hr ho]
    simp
  · rw [CircuitBreaker.allow, if_pos ho]
    simp [ho]

end

/-! ### Two callers -/

/-- What an operation at the time `now` does, if that is not over. -/
def resolveAt : (c : BreakerCmd) → (now : Time) → Shared → Option (c.Answer × Shared)
  | .allow, now, s =>
    if s.now ≤ now then some ((s.breaker.allow now).1, ⟨(s.breaker.allow now).2, now⟩) else none
  | .recordSuccess, now, s =>
    if s.now ≤ now then some ((), ⟨s.breaker.recordSuccess, now⟩) else none
  | .recordFailure, now, s =>
    if s.now ≤ now then some ((), ⟨s.breaker.recordFailure now, now⟩) else none

theorem locked_of_resolveAt (c : BreakerCmd) (now : Time) (s : Shared) (x : c.Answer) (s' : Shared)
    (h : resolveAt c now s = some (x, s')) : locked c s x s' := by
  cases c with
  | allow | recordSuccess | recordFailure =>
    simp only [resolveAt, Option.ite_none_right_eq_some] at h
    obtain ⟨hle, h⟩ := h
    cases h
    exact ⟨hle, rfl⟩

/-- A caller that records so many failures, one after the other. -/
def failing : Nat → Prog BreakerCmd BreakerCmd.Answer Empty Unit
  | 0 => .ret ()
  | n + 1 => .call .recordFailure fun _ => failing n

/-- A caller whose call goes through: it fails twice, the other once. -/
def callers : Bool → Prog BreakerCmd BreakerCmd.Answer Empty Unit
  | true => failing 2
  | false => failing 1

/-- The third failure opens the breaker, at 20. -/
theorem closed_iff_few_failures_sample :
    ∃ tr Q t, Prog.Interleaves Prog.unguarded locked callers ⟨newCircuitBreaker 3 50, 0⟩ tr Q t ∧
      (failuresSince tr = 3 ∧ t.breaker.state = .opened ∧ (t.breaker.allow 60).1 = false) ∧
      ((t.breaker.state = .closed ↔ (failuresSince tr : Int) < (thresholdOf 3).toInt) ∧
        (InRange tr → ∀ now, t.now ≤ now → ((t.breaker.allow now).1 = false ↔
          t.breaker.state = .opened ∧
            ∃ failed ∈ lastFailure tr, now - failed < (resetTimeoutOf 50).toInt))) := by
  obtain ⟨tr, Q, t, h, hT⟩ := Prog.exists_of_play (G := Prog.unguarded) (P := callers)
    (s := ⟨newCircuitBreaker 3 50, 0⟩)
    (T := fun r => failuresSince r.trace = 3 ∧ r.state.breaker.state = .opened ∧
      (r.state.breaker.allow 60).1 = false)
    locked_of_resolveAt [(true, 0), (false, 10), (true, 20)] (by decide)
  exact ⟨tr, Q, t, h, hT, closed_iff_few_failures h⟩

/-! ### When the counter wraps -/

/-- A caller records one more failure. -/
theorem interleaves_failing {n m : Nat} {tr : List (BreakerStep Unit)} {s t : Shared} {now : Time}
    (h : Prog.Interleaves Prog.unguarded locked (fun _ : Unit => failing n) s tr
      (fun _ => failing (m + 1)) t) (hnow : t.now ≤ now) :
    Prog.Interleaves Prog.unguarded locked (fun _ : Unit => failing n) s
      (⟨(), .recordFailure, (), t, ⟨t.breaker.recordFailure now, now⟩⟩ :: tr)
      (fun _ => failing m) ⟨t.breaker.recordFailure now, now⟩ := by
  have hfail : locked .recordFailure t () ⟨t.breaker.recordFailure now, now⟩ := ⟨hnow, rfl⟩
  have hstep := Prog.Interleaves.cons () h rfl hfail trivial
  have hrest : Function.update (fun _ : Unit => failing (m + 1)) () (failing m) =
      fun _ => failing m := funext fun _ => Function.update_self ..
  rwa [hrest] at hstep

/-- The breaker has counted `n` failures, all at the time 0, and is open at the first. -/
structure Struck (n : Nat) (t : Shared) : Prop where
  now : t.now = 0
  failures : t.breaker.failures = Int64.ofNat n
  threshold : t.breaker.threshold = 1
  resetTimeout : t.breaker.resetTimeout = 1
  opened : 0 < n → t.breaker.state = .opened ∧ t.breaker.openedAt = 0

theorem Struck.again {n : Nat} {t : Shared} (h : Struck n t) (hn : n + 1 < 2 ^ 63) :
    Struck (n + 1) ⟨t.breaker.recordFailure 0, 0⟩ := by
  have hf : t.breaker.failures + 1 = Int64.ofNat (n + 1) := by
    rw [h.failures, ofNat_add]
    rfl
  have hreach : t.breaker.threshold ≤ t.breaker.failures + 1 := by
    rw [hf, h.threshold, le_iff_toInt_le, toInt_ofNat_of_lt hn]
    change (1 : Int) ≤ _
    omega
  rw [CircuitBreaker.recordFailure]
  dsimp only
  rw [if_pos (.inr hreach)]
  exact ⟨rfl, hf, h.threshold, h.resetTimeout, fun _ => ⟨rfl, rfl⟩⟩

theorem exists_struck (m : Nat) : ∀ n : Nat, n < 2 ^ 63 →
    ∃ tr t, Prog.Interleaves Prog.unguarded locked (fun _ : Unit => failing (n + m))
        ⟨newCircuitBreaker 1 1, 0⟩ tr (fun _ => failing m) t ∧ Struck n t := by
  intro n
  induction n generalizing m with
  | zero =>
    intro _
    rw [Nat.zero_add]
    exact ⟨[], _, .nil, rfl, rfl, rfl, rfl, fun h => absurd h (lt_irrefl 0)⟩
  | succ n ih =>
    intro hn
    obtain ⟨tr, t, h, ht⟩ := ih (m + 1) (Nat.lt_of_succ_lt hn)
    rw [← Nat.add_assoc, Nat.add_right_comm] at h
    exact ⟨_, _, interleaves_failing h (le_of_eq ht.now), ht.again hn⟩

/-- The failure that wraps the counter does not open the breaker once more. -/
theorem Struck.wrap {n : Nat} {t : Shared} (h : Struck n t) (hn : n + 1 = 2 ^ 63) (now : Time) :
    (t.breaker.recordFailure now).state = .opened ∧ (t.breaker.recordFailure now).openedAt = 0 ∧
      (t.breaker.recordFailure now).resetTimeout = 1 := by
  obtain ⟨hs, ho⟩ := h.opened (by omega)
  have hf : t.breaker.failures + 1 = Int64.minValue := by
    rw [h.failures, show (1 : Int64) = Int64.ofNat 1 from rfl, ← ofNat_add, hn]
    rfl
  have hlow : ¬ t.breaker.threshold ≤ t.breaker.failures + 1 := by
    rw [hf, h.threshold]
    decide
  rw [CircuitBreaker.recordFailure]
  dsimp only
  rw [if_neg (not_or.mpr ⟨by rw [hs]; decide, hlow⟩)]
  exact ⟨hs, ho, h.resetTimeout⟩

/-- **When the counter wraps, a failure no longer counts for the timeout**: after `2 ^ 63` failures
in a row the breaker is open, the last failure is of this moment, and a call is let through. -/
theorem refusal_forgotten :
    ∃ (tr : List (BreakerStep Unit)) (Q : Unit → Prog BreakerCmd BreakerCmd.Answer Empty Unit)
      (t : Shared), Prog.Interleaves Prog.unguarded locked (fun _ => failing (2 ^ 63))
        ⟨newCircuitBreaker 1 1, 0⟩ tr Q t ∧
      t.breaker.state = .opened ∧ lastFailure tr = some t.now ∧
      (t.breaker.allow t.now).1 = true := by
  obtain ⟨tr, t, h, ht⟩ := exists_struck 1 (2 ^ 63 - 1) (by omega)
  rw [Nat.sub_add_cancel (Nat.two_pow_pos 63)] at h
  obtain ⟨hs, ho, hreset⟩ := ht.wrap (Nat.sub_add_cancel (Nat.two_pow_pos 63)) 1
  refine ⟨_, _, _, interleaves_failing h (le_of_eq_of_le ht.now (by decide)), hs, rfl, ?_⟩
  have hlate : ¬ ((1 : Time) - 0 < (1 : Int64).toInt) := by decide
  rw [← Bool.not_eq_false, CircuitBreaker.allow_eq_false_iff (le_of_eq_of_le ho zero_le_one), ho,
    hreset]
  exact fun h => hlate h.2

end NimbusCore.Mesh
