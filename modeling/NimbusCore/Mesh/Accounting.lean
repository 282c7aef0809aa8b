import NimbusCore.Mesh.Interceptor

/-!
# Mesh — the books of a call

What a call of the interceptor has done when it returns, whatever the breaker, the server and the
context answer (`Accounted`).  A call that is refused does nothing.  Any other calls the server once
or more, up to the number of attempts, and again only after an error that is worth a retry; it
records one result, and returns the last error or that of the context.

* `ends_intercept`: the books of a call, whatever it is answered.
* `call_accounts`: the books of every call that is through, among any others.
-/

namespace NimbusCore.Mesh

/-- What a call has done, newest first. -/
abbrev CallHistory := List (Prog.Done MeshCmd MeshCmd.Answer)

/-- What the server answered, newest first. -/
def invocations (h : CallHistory) : List (Option CallError) := h.filterMap fun d => answered d.1 d.2

/-- What was recorded, newest first: a success, or a failure. -/
def records (h : CallHistory) : List Bool :=
  h.filterMap fun d => match d.1 with
    | .breaker .recordSuccess => some true
    | .breaker .recordFailure => some false
    | .breaker .allow | .invoke _ | .wait _ => none

/-- The breaker has refused the call. -/
def Refused (h : CallHistory) : Prop := ∃ d ∈ h, allowed d = some false

/-- The context has ended with the error during a wait. -/
def EndedWith (h : CallHistory) (err : CallError) : Prop :=
  ∃ backoff done, ⟨.wait backoff, some done⟩ ∈ h ∧ err = .context done

/-- **The books of a call that was let through**, when it returns `r`. -/
structure Served (p : RetryPolicy) (h : CallHistory) (r : Option CallError) : Prop where
  called : ∃ last before, invocations h = last :: before ∧
    (before.length : Int) + 1 ≤ max 1 p.maxAttempts.toInt ∧
    (∀ x ∈ before, ∃ err ∈ x, p.retryable err = true) ∧
    ∀ err ∈ r, last = some err ∨ EndedWith h err
  recorded : records h = [decide (r = none)]

/-- **The books of a call**, when it returns `r`. -/
structure Accounted (p : RetryPolicy) (h : CallHistory) (r : Option CallError) : Prop where
  refused : Refused h → invocations h = [] ∧ records h = []
  served : ¬ Refused h → Served p h r

/-- **What is known in the loop**: the server was called, nothing is recorded yet, and so many
attempts are left. -/
structure Attempting (p : RetryPolicy) (left : Nat) (h : CallHistory) : Prop where
  letThrough : ¬ Refused h
  retried : ∀ x ∈ invocations h, ∃ err ∈ x, p.retryable err = true
  unrecorded : records h = []
  budget : ((invocations h).length : Int) + left ≤ max 1 p.maxAttempts.toInt

section

variable {p : RetryPolicy} {h : CallHistory} {left : Nat}

/-- What is done after the breaker was asked is no refusal. -/
theorem not_refused_cons {d : Prog.Done MeshCmd MeshCmd.Answer} (hd : allowed d = none)
    (hlet : ¬ Refused h) : ¬ Refused (d :: h) := by
  rintro ⟨d', hmem, hfalse⟩
  rcases List.mem_cons.mp hmem with rfl | hmem
  · cases hd.symm.trans hfalse
  · exact hlet ⟨d', hmem, hfalse⟩

/-- The attempt was the last: the server has answered `x`, and this was recorded. -/
theorem Attempting.accounted (ha : Attempting p (left + 1) h) {x r : Option CallError}
    {h' : CallHistory} (hcalled : invocations h' = x :: invocations h)
    (hrecorded : records h' = decide (r = none) :: records h) (hlet : ¬ Refused h')
    (hr : ∀ err ∈ r, x = some err ∨ EndedWith h' err) : Accounted p h' r := by
  refine ⟨fun href => absurd href hlet,
    fun _ => ⟨⟨x, invocations h, hcalled, ?_, ha.retried, hr⟩, ?_⟩⟩
  · have hbudget := ha.budget
    omega
  · rw [hrecorded, ha.unrecorded]

/-- The loop goes on after an error that is worth a retry. -/
theorem Attempting.retry {err : CallError} {method : String} {backoff : Int64}
    (ha : Attempting p (left + 1) h) (herr : p.retryable err = true) :
    Attempting p left (⟨.wait backoff, none⟩ :: ⟨.invoke method, some err⟩ :: h) where
  letThrough := not_refused_cons rfl (not_refused_cons rfl ha.letThrough)
  retried := List.forall_mem_cons.mpr ⟨⟨err, rfl, herr⟩, ha.retried⟩
  unrecorded := ha.unrecorded
  budget := by
    have hbudget := ha.budget
    change ((some err :: invocations h).length : Int) + left ≤ _
    rw [List.length_cons]
    omega

theorem ends_attemptLoop (method : String) :
    ∀ (left : Nat) (backoff : Int64) (lastErr : Option CallError) (h : CallHistory), left ≠ 0 →
      Attempting p left h → (attemptLoop p method left backoff lastErr).Ends (Accounted p) h := by
  intro left
  induction left with
  | zero => exact fun _ _ _ h0 => absurd rfl h0
  | succ left ih =>
    intro backoff lastErr h _ ha x
    have hcalled : ¬ Refused (⟨.invoke method, x⟩ :: h) := not_refused_cons rfl ha.letThrough
    cases x with
    | none =>
      intro u
      exact ha.accounted rfl rfl (not_refused_cons rfl hcalled) fun err he => by cases he
    | some err =>
      dsimp only
      split
      · intro u
        refine ha.accounted rfl rfl (not_refused_cons rfl hcalled) fun err' he => ?_
        exact .inl he
      · next hmore =>
        rw [not_or, Bool.not_eq_false] at hmore
        intro ended
        rcases ended with _ | done
        · exact ih _ _ _ hmore.1 (ha.retry hmore.2)
        intro u
        have hwaited : ¬ Refused (⟨.wait backoff, some done⟩ :: ⟨.invoke method, some err⟩ :: h) :=
          not_refused_cons rfl hcalled
        refine ha.accounted rfl rfl (not_refused_cons rfl hwaited) fun err' he => ?_
        cases he
        refine .inr ⟨backoff, done, ?_, rfl⟩
        exact List.mem_cons_of_mem _ List.mem_cons_self

theorem attempts_le (p : RetryPolicy) : (p.attempts : Int) ≤ max 1 p.maxAttempts.toInt := by
  rw [RetryPolicy.attempts]
  split <;> omega

/-- Every call balances its books, whatever it is answered. -/
theorem ends_intercept (p : RetryPolicy) (method : String) :
    (intercept p method).Ends (Accounted p) [] := by
  intro x
  cases x with
  | false => exact ⟨fun _ => ⟨rfl, rfl⟩, fun hlet => absurd ⟨_, List.mem_cons_self, rfl⟩ hlet⟩
  | true =>
    refine ends_attemptLoop method _ _ _ _ (attempts_ne_zero p) ⟨?_, ?_, rfl, ?_⟩
    · rintro ⟨d, hmem, hfalse⟩
      cases List.mem_singleton.mp hmem
      cases hfalse
    · exact fun x hx => absurd hx List.not_mem_nil
    · rw [Int.add_comm]
      exact attempts_le p

/-- **Every call that is through has balanced its books**, among any others that share the
breaker. -/
theorem call_accounts {ι : Type} [DecidableEq ι] {policies : ι → RetryPolicy}
    {methods : ι → String} {s t : Shared} {tr : List (MeshStep ι)} {Q : ι → Call}
    (hrun : Prog.Interleaves Prog.unguarded serveMesh
      (fun i => intercept (policies i) (methods i)) s
      tr Q t) {i : ι} {r : Option CallError} (hr : (Q i).result = some r) :
    Accounted (policies i) (Prog.history i tr) r := by
  have hends := hrun.ends (Φ := fun i => Accounted (policies i))
    (fun i => ends_intercept (policies i) (methods i)) i
  exact hends.of_result hr

end

/-- A heartbeat is answered `Unavailable` and tried again. -/
theorem call_accounts_retried :
    ∃ tr Q t, Prog.Interleaves Prog.unguarded serveMesh
        (fun i => intercept defaultRetryPolicy (agentMethods i)) agentShared tr Q t ∧
      invocations (Prog.history 5 tr) = [none, some (.status .unavailable "")] ∧
      Accounted defaultRetryPolicy (Prog.history 5 tr) none := by
  obtain ⟨tr, Q, t, h, hr, hcalls⟩ := Prog.exists_of_play (G := Prog.unguarded)
    (P := fun i => intercept defaultRetryPolicy (agentMethods i)) (s := agentShared)
    (T := fun r => (r.progs 5).result = some none ∧
      invocations (Prog.history 5 r.trace) = [none, some (.status .unavailable "")])
    serveMesh_of_resolve
    [(5, 0, none), (5, 0, some (.status .unavailable "")), (5, 0, none), (5, 0, none), (5, 0, none)]
    (by decide +kernel)
  exact ⟨tr, Q, t, h, hcalls, call_accounts h hr⟩

end NimbusCore.Mesh
