import NimbusCore.Agent.World

/-!
# Agent — exit codes

A workload that exits with a code is a process, a WASM module or a containerd task, and `handleExit`
learns of it by an event that one of three producers sends (`SentFor`).  What it then does is one of
three things (`Decision`).

* `onExit_eq_act`: `handleExit` carries out the decision that it reads off the code in the event.
* `waitResult_exitCode`: the goroutines of a process and of a WASM module send the code.
* `exitCode_of_mem_confirmLoop`: `checkContainerdExits` sends `-1`, whatever the task exited with.
* `exits_agree_iff`: so the decision is the one that the policy asks for, under all three, exactly
  when a failure is decided like this exit.
-/

namespace NimbusCore.Agent

open Api

/-! ### What the agent decides -/

/-- What becomes of a pod that has exited. -/
inductive Decision where
  | restart
  | succeeded
  | failed
  deriving DecidableEq

/-- What the restart policy asks for, when the workload exited with the code. -/
def asked (policy : RestartPolicy) (code : UInt32) : Decision :=
  if policy = .unspecified ∨ policy = .always ∨ (policy = .onFailure ∧ code ≠ 0) then .restart
  else if code = 0 then .succeeded
  else .failed

/-- The decision carried out. -/
def Decision.act (cfg : Config) (key : String) (pod : Pod) : Decision → Act Unit
  | .restart => restartExited cfg ⟨key, 0⟩ pod
  | .succeeded => do
    stop key
    reportStatus pod .succeeded "" 0 0
  | .failed => do
    stop key
    reportStatus pod .failed "" 0 0

/-- The decision that `handleExit` reads off an event. -/
def decision (policy : RestartPolicy) (exitCode : Int) : Decision :=
  if shouldRestart policy exitCode then .restart
  else if exitCode ≠ 0 then .failed
  else .succeeded

/-- It carries out its decision. -/
theorem onExit_eq_act (cfg : Config) (ev : ExitEvent) (pod : Pod) :
    onExit cfg ev pod = (decision pod.getSpec.restartPolicy ev.exitCode).act cfg ev.key pod := by
  rw [onExit, decision]
  split
  · rfl
  · rw [finishExited, exitPhase]
    split <;> rfl

/-- Decisions that are carried out alike are one. -/
theorem act_injective (cfg : Config) (key : String) (pod : Pod) :
    Function.Injective (Decision.act cfg key pod) := by
  -- a restart counts first; the others stop first, and differ in what they report
  have hrep : reportStatus pod .succeeded "" 0 0 ≠ reportStatus pod .failed "" 0 0 := by
    intro h
    injection h with h
    simp at h
  have hstop : Decision.succeeded.act cfg key pod ≠ Decision.failed.act cfg key pod := by
    intro h
    injection h with _ h
    exact hrep (congrFun h none)
  have hcount : ∀ d : Decision, d ≠ .restart →
      Decision.restart.act cfg key pod ≠ d.act cfg key pod := by
    intro d hd h
    cases d with
    | restart => exact hd rfl
    | succeeded | failed => injection h with h; cases h
  intro d d' h
  cases d <;> cases d' <;> first
    | rfl
    | exact absurd h (hcount _ (by decide))
    | exact absurd h.symm (hcount _ (by decide))
    | exact absurd h hstop
    | exact absurd h.symm hstop

/-! ### What is sent -/

/-- What the first container of a pod runs as. -/
inductive RuntimeKind where
  | process
  | wasm
  | containerd

/-- What `cmd.Wait` returns of a process that exits with the code. -/
def waitResult (code : UInt32) : WaitResult :=
  if code = 0 then .success else .exitError code.toNat

/-- The event may be sent for a workload that is tracked under the key and exits with the code.  A
task that has exited is one that is not listed as running. -/
def SentFor (key : String) (code : UInt32) (ev : ExitEvent) : RuntimeKind → Prop
  | .process => ev = ⟨key, (waitResult code).exitCode⟩
  | .wasm => ev = ⟨key, (RunResult.exited code).exitCode⟩
  | .containerd => ∃ (r : ProcessRuntime) (tp : TrackedProcess) (statuses : Dict String Bool)
      (order : List String), Finmap.IsOrder order r.procs ∧ r.procs.lookup key = some tp ∧
        running statuses tp.containerID = false ∧ ev ∈ (r.confirm statuses order).2 ∧ ev.key = key

theorem waitResult_exitCode (code : UInt32) : (waitResult code).exitCode = code.toNat := by
  rw [waitResult]
  split
  · next h => rw [h]; rfl
  · rfl

/-- **What `checkContainerdExits` sends** is a failure. -/
theorem exitCode_of_mem_confirmLoop (statuses : Dict String Bool) {ev : ExitEvent} :
    ∀ {entries : List (String × TrackedProcess)} {streaks : Dict String Nat},
      ev ∈ (confirmLoop statuses entries streaks).2 → ev.exitCode = -1
  | [], _, h => by cases h
  | (key, tp) :: entries, streaks, h => by
    rw [confirmLoop] at h
    split at h
    · exact exitCode_of_mem_confirmLoop statuses h
    · split at h
      · exact exitCode_of_mem_confirmLoop statuses h
      · split at h
        · exact exitCode_of_mem_confirmLoop statuses h
        · rcases List.mem_cons.mp h with rfl | h
          · rfl
          · exact exitCode_of_mem_confirmLoop statuses h

/-- A runtime that has missed the container of a pod twice. -/
def missedTwice (pod : Pod) : ProcessRuntime :=
  { ProcessRuntime.new.assign { pod := pod, containerID := containerName pod } with
    missingStreaks := (∅ : Dict String Nat).insert (podKey pod) 2 }

/-- A container that is missed once more is sent as failed. -/
theorem sentFor_containerd (pod : Pod) (code : UInt32) :
    SentFor (podKey pod) code ⟨podKey pod, -1⟩ .containerd := by
  refine ⟨missedTwice pod, { pod := pod, containerID := containerName pod }, ∅, [podKey pod],
    Finmap.isOrder_singleton _ _, Finmap.lookup_insert _, rfl, ?_, rfl⟩
  simp [missedTwice, ProcessRuntime.confirm, ProcessRuntime.assign, Finmap.range, confirmLoop,
    Finmap.getD, containerName_ne, running, containerdMissingConfirmations]

/-! ### When the runtimes agree -/

/-- The code itself is decided as the policy asks. -/
theorem decision_toNat (policy : RestartPolicy) (code : UInt32) :
    decision policy code.toNat = asked policy code := by
  have h0 : ((code.toNat : Int) ≠ 0) ↔ code ≠ 0 := by
    rw [Ne, Int.natCast_eq_zero, ← UInt32.toNat_zero, UInt32.toNat_inj]
  simp only [decision, asked, shouldRestart, h0, decide_eq_true_eq, ite_not]

/-- A failure is decided as the policy asks unless the workload exited with zero and the policy
looks at that. -/
theorem decision_neg_one (policy : RestartPolicy) (code : UInt32) :
    decision policy (-1) = asked policy code ↔
      code ≠ 0 ∨ policy = .unspecified ∨ policy = .always := by
  by_cases hc : code = 0
  · subst hc; cases policy <;> simp [decision, asked, shouldRestart]
  · cases policy <;> simp [decision, asked, shouldRestart, hc]

/-- **The three runtimes agree on an exit**, and do what the policy asks for, when the code is not
zero or the policy restarts after every exit; and in no other case. -/
theorem exits_agree_iff (cfg : Config) (pod : Pod) (code : UInt32) :
    (∀ kind ev, SentFor (podKey pod) code ev kind →
      onExit cfg ev pod = (asked pod.getSpec.restartPolicy code).act cfg (podKey pod) pod) ↔
    code ≠ 0 ∨ pod.getSpec.restartPolicy = .unspecified ∨
      pod.getSpec.restartPolicy = .always := by
  rw [← decision_neg_one]
  constructor
  · intro h
    have hact := h .containerd _ (sentFor_containerd pod code)
    rw [onExit_eq_act] at hact
    exact act_injective cfg (podKey pod) pod hact
  · intro h kind ev hev
    rw [onExit_eq_act]
    cases kind with
    | process =>
      obtain rfl := hev
      rw [waitResult_exitCode, decision_toNat]
    | wasm =>
      obtain rfl := hev
      exact congrArg (Decision.act cfg (podKey pod) pod) (decision_toNat _ _)
    | containerd =>
      obtain ⟨r, tp, statuses, order, -, -, -, hmem, hkey⟩ := hev
      rw [exitCode_of_mem_confirmLoop statuses hmem, hkey, h]

/-- A pod that runs an image to its end. -/
def jobPod : Pod :=
  { metadata := some { ns := "default", name := "job" }
    spec := some
      { containers := [{ image := "job:1" }]
        nodeName := "node-1"
        restartPolicy := .onFailure } }

/-- The node it is on. -/
def jobNode : Config := { nodeName := "node-1" }

/-- **A task that has succeeded is run again**: as a process the job is reported as succeeded, as a
containerd task it is restarted. -/
theorem succeeded_job_restarted :
    (∃ ev, SentFor (podKey jobPod) 0 ev .process ∧
      onExit jobNode ev jobPod = Decision.succeeded.act jobNode (podKey jobPod) jobPod) ∧
    ∃ ev, SentFor (podKey jobPod) 0 ev .containerd ∧
      onExit jobNode ev jobPod = Decision.restart.act jobNode (podKey jobPod) jobPod := by
  refine ⟨⟨_, rfl, ?_⟩, _, sentFor_containerd jobPod 0, ?_⟩
  · rw [onExit_eq_act]
    rfl
  · rw [onExit_eq_act]
    rfl

end NimbusCore.Agent
