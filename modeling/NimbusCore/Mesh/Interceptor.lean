import NimbusCore.Mesh.CircuitBreaker

/-!
# Mesh — the calls of an interceptor

`internal/mesh/interceptor.go` and `retry.go`.  A unary call asks the breaker, calls the server up
to so many times, and records how it ended; it runs among any number of others that share the
breaker (`serveMesh`).  The server may answer anything, and a wait may end with the context.

* `one_trial_iff`: a call is let through while a trial is in progress, unless a failure was recorded
  within the timeout.  In the half-open state the breaker lets every call through.
* `never_refused_iff`: a server that answers every call has calls refused if it answers as many in a
  row with an application status as the threshold says, and another call comes within the timeout.
  A status that is not worth a retry is recorded as a failure like any other error.
-/

namespace NimbusCore.Mesh

open Registry Prog

/-! ### Retries -/

/-- `codes.Code`. -/
inductive RpcCode where
  | ok
  | canceled
  | unknown
  | invalidArgument
  | deadlineExceeded
  | notFound
  | alreadyExists
  | permissionDenied
  | resourceExhausted
  | failedPrecondition
  | aborted
  | outOfRange
  | unimplemented
  | internal
  | unavailable
  | dataLoss
  | unauthenticated
  /-- A number that has no name. -/
  | unnamed (n : UInt32)
  deriving DecidableEq

/-- `context.Canceled` and `context.DeadlineExceeded`. -/
inductive ContextError where
  | canceled
  | deadlineExceeded
  deriving DecidableEq

/-- An error of a call: a gRPC status, that of the context, or another. -/
inductive CallError where
  | status (code : RpcCode) (text : String)
  | context (err : ContextError)
  | other (text : String)
  deriving DecidableEq

/-- `RetryPolicy`.  `scale` multiplies by `BackoffMultiplier`, in floating point. -/
structure RetryPolicy where
  maxAttempts : Int64
  initialBackoff : Int64
  maxBackoff : Int64
  scale : Int64 → Int64
  retryableCodes : List RpcCode

/-- `DefaultRetryPolicy`.  Up to its two seconds doubling is exact. -/
def defaultRetryPolicy : RetryPolicy where
  maxAttempts := 3
  initialBackoff := 100 * 1000000
  maxBackoff := 2 * 1000000000
  scale backoff := backoff * 2
  retryableCodes := [.unavailable, .deadlineExceeded, .resourceExhausted]

namespace RetryPolicy

/-- `retryable`. -/
def retryable (p : RetryPolicy) : CallError → Bool
  | .status code _ => p.retryableCodes.contains code
  | .context _ | .other _ => false

/-- `attempts`. -/
def attempts (p : RetryPolicy) : Nat := if p.maxAttempts ≤ 0 then 1 else p.maxAttempts.toInt.toNat

/-- The backoff after the next wait. -/
def nextBackoff (p : RetryPolicy) (backoff : Int64) : Int64 :=
  if 0 < p.maxBackoff ∧ p.maxBackoff < p.scale backoff then p.maxBackoff else p.scale backoff

/-- An application status: one that is not worth a retry. -/
def application (p : RetryPolicy) : CallError → Bool
  | .status code _ => !p.retryableCodes.contains code
  | .context _ | .other _ => false

end RetryPolicy

/-! ### The interceptor -/

/-- What a call asks for. -/
inductive MeshCmd where
  /-- An operation of the breaker. -/
  | breaker (c : BreakerCmd)
  /-- `invoker`. -/
  | invoke (method : String)
  /-- The `select` between the context and the timer. -/
  | wait (backoff : Int64)
  deriving DecidableEq

abbrev MeshCmd.Answer : MeshCmd → Type
  | .breaker c => c.Answer
  | .invoke _ => Option CallError
  | .wait _ => Option ContextError

abbrev Call := Prog MeshCmd MeshCmd.Answer Empty (Option CallError)

/-- `RecordFailure`, and the error is returned. -/
def failed (err : Option CallError) : Call := .call (.breaker .recordFailure) fun _ => .ret err

/-- The loop over the attempts, of which so many are left. -/
def attemptLoop (p : RetryPolicy) (method : String) : Nat → Int64 → Option CallError → Call
  | 0, _, lastErr => failed lastErr
  | left + 1, backoff, _ =>
    .call (.invoke method) fun
      | none => .call (.breaker .recordSuccess) fun _ => .ret none
      | some err =>
        if left = 0 ∨ p.retryable err = false then failed (some err)
        else
          .call (.wait backoff) fun
            | some done => failed (some (.context done))
            | none => attemptLoop p method left (p.nextBackoff backoff) (some err)

/-- `NewClientInterceptor`, a call of `method`. -/
def intercept (p : RetryPolicy) (method : String) : Call :=
  .call (.breaker .allow) fun
    | false => .ret (some (.status .unavailable ("mesh: circuit breaker open for " ++ method)))
    | true => attemptLoop p method p.attempts p.initialBackoff none

/-- What a call was answered by the server. -/
def answered : (c : MeshCmd) → c.Answer → Option (Option CallError)
  | .invoke _, x => some x
  | .breaker _, _ | .wait _, _ => none

/-- **What is recorded is the last answer**: a success, or that it was an error. -/
def Reports (h : List (Prog.Done MeshCmd MeshCmd.Answer)) : MeshCmd → Prop
  | .breaker .recordSuccess => Prog.lastSeen answered h = some none
  | .breaker .recordFailure => ∃ err, Prog.lastSeen answered h = some (some err)
  | _ => True

theorem along_attemptLoop (p : RetryPolicy) (method : String) :
    ∀ (left : Nat) (backoff : Int64) (lastErr : Option CallError)
      (h : List (Prog.Done MeshCmd MeshCmd.Answer)),
      (left = 0 → ∃ err, Prog.lastSeen answered h = some (some err)) →
        (attemptLoop p method left backoff lastErr).Along Reports h := by
  intro left
  induction left with
  | zero =>
    intro backoff lastErr h hlast
    exact ⟨hlast rfl, fun _ => trivial⟩
  | succ left ih =>
    intro backoff lastErr h _
    refine ⟨trivial, fun x => ?_⟩
    rcases x with _ | err
    · exact ⟨rfl, fun _ => trivial⟩
    have hlast : Prog.lastSeen answered (⟨.invoke method, some err⟩ :: h) = some (some err) :=
      rfl
    dsimp only
    split
    · exact ⟨⟨err, hlast⟩, fun _ => trivial⟩
    · next hmore =>
      refine ⟨trivial, fun ended => ?_⟩
      cases ended with
      | some ended => exact ⟨⟨err, hlast⟩, fun _ => trivial⟩
      | none => exact ih _ _ _ fun h0 => absurd (.inl h0) hmore

theorem attempts_ne_zero (p : RetryPolicy) : p.attempts ≠ 0 := by
  rw [RetryPolicy.attempts]
  split
  · exact Nat.one_ne_zero
  · next hpos =>
    have hpos := Int64.lt_iff_toInt_lt.mp (Int64.not_le.mp hpos)
    have : (0 : Int64).toInt = 0 := rfl
    omega

theorem along_intercept (p : RetryPolicy) (method : String) :
    (intercept p method).Along Reports [] := by
  refine ⟨trivial, fun x => ?_⟩
  cases x with
  | false => trivial
  | true => exact along_attemptLoop p method _ _ _ _ fun h0 => absurd h0 (attempts_ne_zero p)

/-! ### Many calls and one breaker -/

/-- What the calls meet.  The server answers anything, and a wait ends as it likes. -/
def serveMesh : Handler MeshCmd MeshCmd.Answer Shared
  | .breaker c, s, x, s' => locked c s x s'
  | .invoke _, s, _, s' | .wait _, s, _, s' => s' = s

/-- A step of the calls. -/
abbrev MeshStep (ι : Type) := Prog.Event ι MeshCmd MeshCmd.Answer Shared

section

variable {ι : Type}

/-- What a step is to the breaker. -/
def breakerStep : MeshStep ι → Option (BreakerStep ι)
  | ⟨who, .breaker c, x, pre, post⟩ => some ⟨who, c, x, pre, post⟩
  | ⟨_, .invoke _, _, _, _⟩ | ⟨_, .wait _, _, _, _⟩ => none

/-- The steps of the breaker. -/
def breakerSteps (tr : List (MeshStep ι)) : List (BreakerStep ι) := tr.filterMap breakerStep

/-- **What every run keeps**, for the breaker that was made. -/
structure Tracked (threshold resetTimeout : Int64) (tr : List (MeshStep ι)) (t : Shared) :
    Prop where
  tracks : Tracks (breakerSteps tr) t.breaker t.now
  overdue : Overdue (breakerSteps tr) t.breaker t.now
  threshold : t.breaker.threshold = thresholdOf threshold
  resetTimeout : t.breaker.resetTimeout = resetTimeoutOf resetTimeout

variable {threshold resetTimeout : Int64} {start : Time} {tr : List (MeshStep ι)} {e : MeshStep ι}

theorem Tracked.step (h : Tracked threshold resetTimeout tr e.pre)
    (hs : serveMesh e.cmd e.pre e.answer e.post) :
    Tracked threshold resetTimeout (e :: tr) e.post := by
  obtain ⟨who, cmd, answer, pre, post⟩ := e
  cases cmd with
  | breaker c =>
    obtain ⟨ht, hthr, hreset⟩ := h.tracks.step (e := ⟨who, c, answer, pre, post⟩) hs
    exact ⟨ht, h.overdue.step (e := ⟨who, c, answer, pre, post⟩) h.tracks hs,
      hthr.trans h.threshold, hreset.trans h.resetTimeout⟩
  | invoke method | wait backoff =>
    cases hs; exact ⟨h.tracks, h.overdue, h.threshold, h.resetTimeout⟩

/-- The threshold is reached, and the last failure was less than the timeout ago. -/
def Tripped (threshold resetTimeout : Int64) (tr : List (MeshStep ι)) (now : Time) : Prop :=
  (thresholdOf threshold).toInt ≤ failuresSince (breakerSteps tr) ∧
    ∃ failed ∈ lastFailure (breakerSteps tr), now - failed < (resetTimeoutOf resetTimeout).toInt

theorem Tracked.refused_iff {t : Shared} (h : Tracked threshold resetTimeout tr t)
    (hr : InRange (breakerSteps tr)) {x : Bool} {t' : Shared}
    (hs : serveMesh (.breaker .allow) t x t') :
    x = false ↔ Tripped threshold resetTimeout tr t'.now := by
  obtain ⟨hle, hx⟩ := hs
  have hx : x = (t.breaker.allow t'.now).1 := congrArg Prod.fst hx
  rw [hx, h.tracks.refused_iff h.overdue hr hle, h.threshold, h.resetTimeout]
  exact Iff.rfl

theorem inRange_tail (e : MeshStep ι) (tr : List (MeshStep ι))
    (h : InRange (breakerSteps (e :: tr))) : InRange (breakerSteps tr) := by
  obtain ⟨who, cmd, answer, pre, post⟩ := e
  cases cmd with
  | breaker c => exact h.2
  | invoke method => exact h
  | wait backoff => exact h

variable [DecidableEq ι] {P Q : ι → Call} {t : Shared}

theorem tracked_of_interleaves
    (h : Prog.Interleaves Prog.unguarded serveMesh P
      ⟨newCircuitBreaker threshold resetTimeout, start⟩
      tr Q t) : Tracked threshold resetTimeout tr t := by
  refine h.invariant (I := fun tr _ t => Tracked threshold resetTimeout tr t) ?_ ?_
  · exact ⟨tracks_new .., fun _ hh => (by cases hh), rfl, rfl⟩
  · rintro tr Q t i c k x t' - hk - hc -
    exact hk.step (e := ⟨i, c, x, t, t'⟩) hc

/-! ### One trial -/

/-- The calls on trial: each has moved the breaker to half-open, and has not recorded since. -/
def trials : List (MeshStep ι) → List ι
  | [] => []
  | e :: tr => match e.cmd with
    | .breaker .allow =>
      if e.pre.breaker.state = .opened ∧ e.post.breaker.state = .halfOpen then e.who :: trials tr
      else trials tr
    | .breaker .recordSuccess | .breaker .recordFailure => (trials tr).filter (· ≠ e.who)
    | .invoke _ | .wait _ => trials tr

/-- What `Allow` answered. -/
def allowed : Prog.Done MeshCmd MeshCmd.Answer → Option Bool
  | ⟨.breaker .allow, x⟩ => some x
  | _ => none

theorem eq_allow_of_allowed {d : Prog.Done MeshCmd MeshCmd.Answer} {b : Bool}
    (h : allowed d = some b) : d.1 = .breaker .allow := by
  obtain ⟨c, x⟩ := d
  rcases c with (_ | _ | _) | _ | _
  · rfl
  all_goals cases h

/-- **One trial at a time**: while one is in progress, no call is let through. -/
def OneTrial (tr : List (MeshStep ι)) : Prop :=
  EachStep (fun tr e => allowed ⟨e.cmd, e.answer⟩ = some true → trials tr = []) tr

instance : DecidablePred (OneTrial (ι := ι)) := fun _ => inferInstanceAs (Decidable (EachStep _ _))

/-- Whenever a call comes while a trial is in progress, the breaker has been tripped again. -/
def Retripped (threshold resetTimeout : Int64) (tr : List (MeshStep ι)) : Prop :=
  EachStep (fun tr e => e.cmd = .breaker .allow → trials tr ≠ [] →
    Tripped threshold resetTimeout tr e.post.now) tr

/-- **One trial at a time exactly if no call comes during a trial**, or only calls that come within
the timeout after a failure. -/
theorem one_trial_iff {policies : ι → RetryPolicy} {methods : ι → String}
    (h : Prog.Interleaves Prog.unguarded serveMesh (fun i => intercept (policies i) (methods i))
      ⟨newCircuitBreaker threshold resetTimeout, start⟩ tr Q t) (hr : InRange (breakerSteps tr)) :
    OneTrial tr ↔ Retripped threshold resetTimeout tr := by
  refine h.each_iff (K := fun tr => InRange (breakerSteps tr)) inRange_tail ?_ hr
  intro tr Q t i c x t' hrun hr hs
  by_cases hc : c = .breaker .allow
  · subst hc
    have hrefused := (tracked_of_interleaves hrun).refused_iff hr hs
    constructor
    · intro hone _ hne
      rw [← hrefused, ← Bool.not_eq_true]
      exact fun hx => hne (hone (congrArg some hx))
    · intro htrip hx
      by_contra hne
      exact Bool.false_ne_true ((hrefused.mpr (htrip rfl hne)).symm.trans (Option.some.inj hx))
  · exact iff_of_true (fun hx => absurd (eq_allow_of_allowed hx) hc) (fun hx => absurd hx hc)

/-! ### A server that answers -/

/-- The server has answered every call, with success or an application status. -/
def Responsive (p : RetryPolicy) (tr : List (MeshStep ι)) : Prop :=
  ∀ e ∈ tr, ∀ x ∈ answered e.cmd e.answer, ∀ err ∈ x, p.application err = true

instance {p : RetryPolicy} : DecidablePred (Responsive (ι := ι) p) :=
  fun _ => inferInstanceAs (Decidable (∀ e ∈ _, _))

/-- What the server answered to the call of a step, if the step records it. -/
def reported (tr : List (MeshStep ι)) (e : MeshStep ι) : Option (Option CallError) :=
  match e.cmd with
  | .breaker .recordSuccess | .breaker .recordFailure =>
    Prog.lastSeen answered (Prog.history e.who tr)
  | _ => none

/-- The calls in a row, as they are recorded, that were answered with an application status. -/
def rejectedInRow (p : RetryPolicy) : List (MeshStep ι) → Nat
  | [] => 0
  | e :: tr => match reported tr e with
    | none => rejectedInRow p tr
    | some none => 0
    | some (some err) => if p.application err then rejectedInRow p tr + 1 else rejectedInRow p tr

/-- When the last of them was recorded. -/
def lastRejected (p : RetryPolicy) : List (MeshStep ι) → Option Time
  | [] => none
  | e :: tr => match reported tr e with
    | some (some err) => if p.application err then some e.post.now else lastRejected p tr
    | _ => lastRejected p tr

/-- **In a run of a server that answers, the failures are the application statuses.** -/
theorem rejected_eq {p : RetryPolicy} (hreports : EachStep (fun tr e =>
      Reports (Prog.history e.who tr) e.cmd) tr) (hresp : Responsive p tr) :
    rejectedInRow p tr = failuresSince (breakerSteps tr) ∧
      lastRejected p tr = lastFailure (breakerSteps tr) := by
  induction tr with
  | nil => exact ⟨rfl, rfl⟩
  | cons e tr ih =>
    obtain ⟨hrow, hlast⟩ := ih hreports.2 fun e' he' => hresp e' (List.mem_cons_of_mem e he')
    have hrep := hreports.1
    obtain ⟨who, cmd, answer, pre, post⟩ := e
    cases cmd with
    | invoke method | wait backoff => exact ⟨hrow, hlast⟩
    | breaker c =>
      cases c with
      | allow => exact ⟨hrow, hlast⟩
      | recordSuccess =>
        have hseen : Prog.lastSeen answered (Prog.history who tr) = some none := hrep
        simp only [rejectedInRow, lastRejected, reported, hseen]
        exact ⟨rfl, hlast⟩
      | recordFailure =>
        obtain ⟨err, hseen⟩ : ∃ err, Prog.lastSeen answered (Prog.history who tr) =
          some (some err) := hrep
        obtain ⟨e', he', hx⟩ := exists_of_lastSeen hseen
        have happ := hresp e' (List.mem_cons_of_mem _ he') _ hx err rfl
        simp only [rejectedInRow, lastRejected, reported, hseen, happ, if_true, hrow]
        exact ⟨rfl, rfl⟩

/-- **No call is refused.** -/
def NeverRefused (tr : List (MeshStep ι)) : Prop :=
  EachStep (fun _ e => allowed ⟨e.cmd, e.answer⟩ ≠ some false) tr

instance : DecidablePred (NeverRefused (ι := ι)) :=
  fun _ => inferInstanceAs (Decidable (EachStep _ _))

/-- No call comes within the timeout after as many calls in a row as the threshold says were
answered with an application status. -/
def Spared (p : RetryPolicy) (threshold resetTimeout : Int64) (tr : List (MeshStep ι)) : Prop :=
  EachStep (fun tr e => e.cmd = .breaker .allow →
    ¬ ((thresholdOf threshold).toInt ≤ rejectedInRow p tr ∧
      ∃ rejected ∈ lastRejected p tr,
        e.post.now - rejected < (resetTimeoutOf resetTimeout).toInt)) tr

/-- **A server that answers has no call refused exactly if it does not answer too many in a row with
an application status**, or no call comes within the timeout after them. -/
theorem never_refused_iff {methods : ι → String}
    (h : Prog.Interleaves Prog.unguarded serveMesh
      (fun i => intercept defaultRetryPolicy (methods i))
      ⟨newCircuitBreaker threshold resetTimeout, start⟩ tr Q t)
    (hresp : Responsive defaultRetryPolicy tr) (hr : InRange (breakerSteps tr)) :
    NeverRefused tr ↔ Spared defaultRetryPolicy threshold resetTimeout tr := by
  refine h.each_iff
    (K := fun tr => InRange (breakerSteps tr) ∧ Responsive defaultRetryPolicy tr) ?_ ?_ ⟨hr, hresp⟩
  · rintro e tr ⟨hr, hresp⟩
    exact ⟨inRange_tail e tr hr, fun e' he' => hresp e' (List.mem_cons_of_mem e he')⟩
  · rintro tr Q t i c x t' hrun ⟨hr, hresp⟩ hs
    by_cases hc : c = .breaker .allow
    · subst hc
      obtain ⟨hrow, hlast⟩ := rejected_eq
        (hrun.each_along fun i => along_intercept _ (methods i)) hresp
      have hrefused := (tracked_of_interleaves hrun).refused_iff hr hs
      rw [Tripped, ← hrow, ← hlast] at hrefused
      constructor
      · intro hx _ htrip
        exact hx (congrArg some (hrefused.mpr htrip))
      · intro hspared hx
        exact hspared rfl (hrefused.mp (Option.some.inj hx))
    · exact iff_of_true (fun hx => hc (eq_allow_of_allowed hx)) (fun hx => absurd hx hc)

end

/-! ### The agent's breaker -/

/-- What a step does, at a time and with what the server answers; waits end with the timer. -/
def resolveMesh : (c : MeshCmd) → Time × Option CallError → Shared → Option (c.Answer × Shared)
  | .breaker c, ch, s => resolveAt c ch.1 s
  | .invoke _, ch, s => some (ch.2, s)
  | .wait _, _, s => some (none, s)

theorem serveMesh_of_resolve (c : MeshCmd) (ch : Time × Option CallError) (s : Shared)
    (x : c.Answer) (s' : Shared) (h : resolveMesh c ch s = some (x, s')) : serveMesh c s x s' := by
  cases c with
  | breaker c => exact locked_of_resolveAt c ch.1 s x s' h
  | invoke method => cases h; rfl
  | wait backoff => cases h; rfl

/-- The calls 0 to 4 report on pods, the others are heartbeats. -/
def agentMethods (i : Fin 7) : String :=
  if i.val < 5 then "/nimbuscore.v1.PodService/UpdatePodStatus"
  else "/nimbuscore.v1.NodeService/Heartbeat"

/-- The breaker of the agent: five failures, 30 seconds. -/
def agentShared : Shared := ⟨newCircuitBreaker 5 (30 * 1000000000), 0⟩

/-- A call that comes, is answered at once and records it. -/
def completes {n : Nat} (i : Fin n) (now : Time) (x : Option CallError) :
    List (Fin n × Time × Option CallError) := [(i, now, none), (i, now, x), (i, now, none)]

/-- The pod was deleted meanwhile. -/
def podGone : CallError := .status .notFound "pod not found"

/-- Five reports on deleted pods, at the time 0. -/
def fiveReports : List (Fin 7 × Time × Option CallError) :=
  [0, 1, 2, 3, 4].flatMap fun i => completes i 0 (some podGone)

/-- A report that was let through before fails during the trial of call 1, and call 2 is refused. -/
theorem one_trial_iff_sample :
    ∃ tr Q t, Prog.Interleaves Prog.unguarded serveMesh
        (fun i => intercept defaultRetryPolicy (agentMethods i))
          ⟨newCircuitBreaker 1 10, 0⟩ tr Q t ∧
      InRange (breakerSteps tr) ∧ (OneTrial tr ∧ trials tr = [1]) ∧
      (OneTrial tr ↔ Retripped 1 10 tr) := by
  obtain ⟨tr, Q, t, h, hr, hT⟩ := exists_of_play (G := Prog.unguarded)
    (P := fun i => intercept defaultRetryPolicy (agentMethods i)) (s := ⟨newCircuitBreaker 1 10, 0⟩)
    (T := fun r => InRange (breakerSteps r.trace) ∧ OneTrial r.trace ∧ trials r.trace = [1])
    serveMesh_of_resolve
    ((3, 0, none) :: completes 0 0 (some podGone) ++
      [(1, 10, none), (3, 11, some podGone), (3, 11, none), (2, 12, none)]) (by decide +kernel)
  exact ⟨tr, Q, t, h, hr, hT, one_trial_iff h hr⟩

/-- **Two trials at once**: both heartbeats are let through after the 30 seconds. -/
theorem two_trials :
    ∃ tr Q t, Prog.Interleaves Prog.unguarded serveMesh
        (fun i => intercept defaultRetryPolicy (agentMethods i)) agentShared tr Q t ∧
      InRange (breakerSteps tr) ∧ ¬ OneTrial tr :=
  exists_of_play (G := Prog.unguarded)
    (P := fun i => intercept defaultRetryPolicy (agentMethods i)) (s := agentShared)
    (T := fun r => InRange (breakerSteps r.trace) ∧ ¬ OneTrial r.trace)
    serveMesh_of_resolve
    (fiveReports ++ [(5, 30 * 1000000000, none), (6, 30 * 1000000000, none)]) (by decide +kernel)

/-- A heartbeat between the reports. -/
theorem never_refused_iff_sample :
    ∃ tr Q t, Prog.Interleaves Prog.unguarded serveMesh
        (fun i => intercept defaultRetryPolicy (agentMethods i))
          ⟨newCircuitBreaker 2 10, 0⟩ tr Q t ∧
      (Responsive defaultRetryPolicy tr ∧ InRange (breakerSteps tr) ∧ NeverRefused tr) ∧
      (NeverRefused tr ↔ Spared defaultRetryPolicy 2 10 tr) := by
  obtain ⟨tr, Q, t, h, hT⟩ := exists_of_play (G := Prog.unguarded)
    (P := fun i => intercept defaultRetryPolicy (agentMethods i)) (s := ⟨newCircuitBreaker 2 10, 0⟩)
    (T := fun r => Responsive defaultRetryPolicy r.trace ∧ InRange (breakerSteps r.trace) ∧
      NeverRefused r.trace)
    serveMesh_of_resolve
    (completes 0 0 (some podGone) ++ completes 5 1 none ++ completes 1 2 (some podGone) ++
      [(6, 3, none)]) (by decide +kernel)
  exact ⟨tr, Q, t, h, hT, never_refused_iff h hT.1 hT.2.1⟩

/-- **A heartbeat is refused** a second after five reports on deleted pods: the server has answered
every call. -/
theorem heartbeat_refused :
    ∃ tr Q t, Prog.Interleaves Prog.unguarded serveMesh
        (fun i => intercept defaultRetryPolicy (agentMethods i)) agentShared tr Q t ∧
      Responsive defaultRetryPolicy tr ∧ InRange (breakerSteps tr) ∧ ¬ NeverRefused tr ∧
      (Q 5).result = some (some (.status .unavailable
        "mesh: circuit breaker open for /nimbuscore.v1.NodeService/Heartbeat")) :=
  exists_of_play (G := Prog.unguarded)
    (P := fun i => intercept defaultRetryPolicy (agentMethods i)) (s := agentShared)
    (T := fun r => Responsive defaultRetryPolicy r.trace ∧ InRange (breakerSteps r.trace) ∧
      ¬ NeverRefused r.trace ∧ (r.progs 5).result = some (some (.status .unavailable
        "mesh: circuit breaker open for /nimbuscore.v1.NodeService/Heartbeat")))
    serveMesh_of_resolve (fiveReports ++ [(5, 1000000000, none)]) (by decide +kernel)

end NimbusCore.Mesh
