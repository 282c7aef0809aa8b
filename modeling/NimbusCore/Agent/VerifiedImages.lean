import NimbusCore.Admission.Validators
import NimbusCore.Agent.Runtime
import NimbusCore.Support.Expansion

/-!
# Agent — what is run of an admitted pod

Admission asks the verifier about the image of every container (`imageSignaturePolicy`).  The agent
runs the first container, as one of four things: a WASM module, an image that is built from source,
an image that is pulled, or a process of the node.

* `verified_images_run`: of a pod that was admitted the agent runs only a verified image, exactly if
  its first container names no WASM module and no source to build from, and has an image or else no
  command.
* `unverified_module_runs`: a container with a verified image and a WASM module beside it.
-/

namespace NimbusCore.Agent

open Api Registry Admission Apiserver Prog

/-! ### What is executed -/

/-- A container is run from an image that was pulled under the resolved reference of a container of
the pod that the verifier accepts.  Nothing else is executed. -/
def RunsVerified (verify : ImageVerifier) (pod : Pod)
    (h : List (Prog.Done AgentCmd AgentCmd.Answer)) : AgentCmd → Prop
  | .containerd (.runContainer _ spec) => ∃ c ∈ pod.getSpec.containers, verify c.image = none ∧
      ⟨.containerd (.pullImage (resolveImageRef c.image)), .ok spec.image⟩ ∈ h
  | .os (.startCommand _ _) | .os (.runWasm _ _ _) => False
  | _ => True

/-- **Only a verified image runs**, whatever containerd, the operating system and the runtime
answer. -/
def OnlyVerifiedRuns (verify : ImageVerifier) (cfg : Config) (pod : Pod) : Prop :=
  (start cfg pod).Along (RunsVerified verify pod) []

/-- The container is run from its image, or not at all. -/
def RunsItsImage (c : Container) : Prop :=
  c.wasmModulePath = "" ∧ c.buildSource = none ∧ (c.image ≠ "" ∨ c.command = [])

instance (c : Container) : Decidable (RunsItsImage c) :=
  inferInstanceAs (Decidable (_ ∧ _ ∧ _))

/-! ### An image that is pulled -/

section

variable {verify : ImageVerifier} {cfg : Config} {pod : Pod}

/-- A command that executes nothing. -/
theorem runsVerified_of_looks {h : List (Prog.Done AgentCmd AgentCmd.Answer)} {c : AgentCmd}
    (hc : Looks c) : RunsVerified verify pod h c := by
  rcases c with c | c | c | c | c | c | c | c <;> try trivial
  all_goals cases c <;> trivial

/-- What follows the pull keeps the pulled image in sight. -/
theorem along_startContainerd (hb : (firstContainer pod).buildSource = none)
    (hmem : firstContainer pod ∈ pod.getSpec.containers)
    (hv : verify (firstContainer pod).image = none) :
    (startContainerd cfg pod).Along (RunsVerified verify pod) [] := by
  refine along_ask_bind.mpr ⟨trivial, fun _ => ?_⟩
  rw [image, hb]
  refine along_ask_bind.mpr ⟨trivial, fun x => ?_⟩
  rcases x with err | image
  · trivial
  let J : List (Prog.Done AgentCmd AgentCmd.Answer) → Prop := fun h =>
    ⟨.containerd (.pullImage (resolveImageRef (firstContainer pod).image)), .ok image⟩ ∈ h
  have hJ : ∀ h c x, Looks c → J h → J (⟨c, x⟩ :: h) := fun _ _ _ _ hj =>
    List.mem_cons_of_mem _ hj
  have hΦ : ∀ h c, Looks c → J h → RunsVerified verify pod h c := fun _ _ hc _ =>
    runsVerified_of_looks hc
  have hlog : (logPath cfg (containerName pod)).Within Looks fun _ => True :=
    within_logPath trivial
  refine Within.along_bind hJ hΦ (fun x h hj => ?_) hlog List.mem_cons_self
  rcases x with err | logPath
  · trivial
  have hmounts : (podMounts cfg pod).Within Looks fun _ => True :=
    within_podMounts fun _ => trivial
  refine Within.along_bind hJ hΦ (fun x h hj => ?_) hmounts hj
  rcases x with err | mounts
  · trivial
  refine along_ask_bind.mpr ⟨⟨firstContainer pod, hmem, hv, hj⟩, fun x => ?_⟩
  cases x with
  | error err => trivial
  | ok _ => exact along_ask_bind.mpr ⟨trivial, fun _ => trivial⟩

/-! ### Something else -/

/-- Everything goes well. -/
def obligingNode : (c : AgentCmd) → c.Answer
  | .api .listPods => .ok []
  | .api (.updatePodStatus _) => .ok ()
  | .containerd .listTasks => .ok ∅
  | .containerd (.taskPid _) => .ok 0
  | .containerd (.removeContainer _) => ()
  | .containerd (.buildImage ..) | .containerd (.localImage _) | .containerd (.pullImage _) =>
    .ok ""
  | .containerd (.runContainer ..) => .ok ()
  | .os (.openLog ..) | .os (.ensureVolumeDir ..) => .ok ""
  | .os (.startCommand ..) | .os .newWasm => .ok 0
  | .os (.readFile _) => .ok []
  | .os (.wait ..) | .os (.runWasm ..) | .os (.kill _) | .os (.closeWasm _) => ()
  | .os (.residentSet _) => none
  | .runtime (.tracked _) | .runtime (.untrack _) => none
  | .runtime .keys => []
  | .runtime (.replace _) | .runtime (.assign _) | .runtime (.countRestart _) => ()
  | .runtime (.confirm _) => []
  | .order _ => []
  | .send _ | .reconcileServices | .stopNodePorts => ()

/-- It pulls no image. -/
def NoPull : AgentCmd → Prop
  | .containerd (.pullImage _) => False
  | _ => True

theorem outcome_mountLoop_node (ns : String) :
    ∀ volumes, ∃ mounts, (mountLoop cfg ns volumes).outcome obligingNode = .ok (.ok mounts)
  | [] => ⟨[], rfl⟩
  | m :: volumes => by
    obtain ⟨mounts, hm⟩ := outcome_mountLoop_node ns volumes
    exact ⟨_, (outcome_bind hm).trans rfl⟩

/-- An image that is built runs, and no image has been pulled. -/
theorem not_along_built {src : BuildSource} (hb : (firstContainer pod).buildSource = some src) :
    ¬ (startContainerd cfg pod).Along (RunsVerified verify pod) [] := by
  intro hall
  let J : List (Prog.Done AgentCmd AgentCmd.Answer) → Prop := fun h => ∀ d ∈ h, NoPull d.1
  have hJ : ∀ h c, NoPull c → J h → J (⟨c, obligingNode c⟩ :: h) := fun _ _ hc hj =>
    List.forall_mem_cons.mpr ⟨hc, hj⟩
  have h₀ := (along_ask_bind.mp hall).2 ()
  -- the build
  have himage :
      (image cfg (containerName pod) (firstContainer pod)).Within NoPull fun _ => True := by
    rw [image, hb]
    refine Within.bind_ok (within_ask.mpr trivial) fun built => ?_
    exact within_ask.mpr trivial
  have himage' : (image cfg (containerName pod) (firstContainer pod)).outcome obligingNode =
      .ok (.ok "") := by
    rw [image, hb]
    rfl
  obtain ⟨h₁, hj₁, ha₁⟩ := h₀.after hJ himage himage' (by simp [J, NoPull])
  -- the log file
  have hlog : (logPath cfg (containerName pod)).Within NoPull fun _ => True :=
    within_logPath trivial
  have hlog' : (logPath cfg (containerName pod)).outcome obligingNode = .ok (.ok "") := by
    rw [logPath]
    split <;> rfl
  obtain ⟨h₂, hj₂, ha₂⟩ := ha₁.after hJ hlog hlog' hj₁
  -- the volumes
  have hmounts : (podMounts cfg pod).Within NoPull fun _ => True :=
    within_podMounts fun _ => trivial
  have hmounts' : ∃ mounts, (podMounts cfg pod).outcome obligingNode = .ok (.ok mounts) := by
    rw [podMounts]
    split
    · exact ⟨[], rfl⟩
    · exact outcome_mountLoop_node _ _
  obtain ⟨mounts, hmounts'⟩ := hmounts'
  obtain ⟨h₃, hj₃, ha₃⟩ := ha₂.after hJ hmounts hmounts' hj₂
  obtain ⟨c, -, -, hpulled⟩ := (along_ask_bind.mp ha₃).1
  exact hj₃ _ hpulled

theorem not_along_startWASM {path : String} :
    ¬ (startWASM pod path).Along (RunsVerified verify pod) [] := by
  intro hall
  have h₁ := (along_ask_bind.mp hall).2 (.ok [])
  have h₂ := (along_ask_bind.mp h₁).2 (.ok 0)
  have h₃ := (along_ask_bind.mp h₂).2 ()
  exact (along_ask_bind.mp h₃).1

theorem along_startProcess_iff :
    (startProcess pod).Along (RunsVerified verify pod) [] ↔ (firstContainer pod).command = [] := by
  rw [startProcess]
  split
  · next h => exact iff_of_true trivial h
  · next h => exact iff_of_false (fun hall => (along_ask_bind.mp hall).1) h

/-! ### Admission and the agent -/

/-- **Of a pod that was admitted only a verified image runs, exactly if its first container is run
from its image, or not at all.** -/
theorem verified_images_run {t : Texts} {vs : List PackageValidator}
    (hvs : .imageSignature verify ∈ vs) {req req' : Request} {s s' : State}
    (hadmitted : (chainAdmit (packageChain t vs) req).Runs serveOrFail s (.ok (req', none)) s')
    (hspec : pod.spec = req'.spec) (cfg : Config) :
    OnlyVerifiedRuns verify cfg pod ↔ RunsItsImage (firstContainer pod) := by
  have hverified : Verified verify pod.getSpec.containers := by
    have hchain : (chainAdmit (packageChain t vs) req).Ensures (fun _ _ => True) Cmd.Reads
        fun r => r.2 = none → Verified verify r.1.containers :=
      establishes_packageChain (fun _ _ h => h.verified) hvs
        (establishes_imageSignature t verify) req
    have hkeeps := (hchain.keeps (I := fun _ => True) (fun _ _ _ _ _ _ => trivial)
      (fun _ _ _ _ _ _ _ => trivial) hadmitted trivial).2 _ rfl rfl
    rw [Pod.getSpec, hspec]
    exact hkeeps
  rw [OnlyVerifiedRuns, start, RunsItsImage]
  by_cases hw : (firstContainer pod).wasmModulePath = ""
  · rw [if_neg (not_not.mpr hw)]
    cases hb : (firstContainer pod).buildSource with
    | some src =>
      rw [if_pos (.inr (by simp))]
      exact iff_of_false (not_along_built hb) fun h => by cases h.2.1
    | none =>
      by_cases hi : (firstContainer pod).image = ""
      · rw [if_neg (by simp [hi]), along_startProcess_iff]
        simp [hw, hi]
      · rw [if_pos (.inl hi)]
        -- a container with an image is one of the pod's
        have hmem : firstContainer pod ∈ pod.getSpec.containers := by
          unfold firstContainer at hi ⊢
          cases hcs : pod.getSpec.containers with
          | nil => rw [hcs] at hi; exact absurd rfl hi
          | cons c cs => exact List.mem_cons_self
        exact iff_of_true (along_startContainerd hb hmem (hverified _ hmem)) ⟨hw, rfl, .inl hi⟩
  · rw [if_pos hw]
    exact iff_of_false not_along_startWASM fun h => hw h.1

end

/-! ### Two pods -/

/-- A verifier that knows one image. -/
def knowsOne (image : String) : ImageVerifier := fun ref =>
  if ref = image then none else some "no signature"

def samplePod (c : Container) : Pod := { spec := some { containers := [c] } }

/-- The request for the pod, as `CreatePod` makes it. -/
def sampleRequest (c : Container) : Request :=
  { ns := "", name := "", labels := ∅, spec := (samplePod c).spec, replicas := 1 }

/-- It passes the verifier, if that knows its image. -/
theorem sampleRequest_admitted {image : String} {c : Container} (hc : c.image = image) {s : State} :
    (chainAdmit (packageChain ⟨id, fun _ => ""⟩ [.imageSignature (knowsOne image)])
      (sampleRequest c)).Runs serveOrFail s (.ok (sampleRequest c, none)) s := by
  have hverify : verifyLoop id (knowsOne image) [c] = none := by
    rw [verifyLoop_eq_none_iff]
    simp [Verified, knowsOne, hc]
  have hadmitted : chainAdmit (packageChain ⟨id, fun _ => ""⟩ [.imageSignature (knowsOne image)])
      (sampleRequest c) = pure (sampleRequest c, none) := by
    refine admitLoop_pass fun v hv => ?_
    obtain rfl := List.mem_singleton.mp hv
    exact congrArg (fun err => (pure (sampleRequest c, err) : Reg _)) hverify
  rw [hadmitted]
  exact ⟨rfl, rfl⟩

theorem verified_images_run_sample :
    OnlyVerifiedRuns (knowsOne "web:1") { nodeName := "a" }
        (samplePod { image := "web:1" }) ∧
      ¬ OnlyVerifiedRuns (knowsOne "web:1") { nodeName := "a" }
        (samplePod { image := "web:1", wasmModulePath := "/tmp/m.wasm" }) :=
  ⟨(verified_images_run List.mem_cons_self
      (sampleRequest_admitted (c := { image := "web:1" }) (s := fun _ => ∅) rfl) rfl
      _).mpr (by decide),
    fun h => absurd ((verified_images_run List.mem_cons_self
      (sampleRequest_admitted (c := { image := "web:1", wasmModulePath := "/tmp/m.wasm" })
        (s := fun _ => ∅) rfl) rfl _).mp h) (by decide)⟩

/-- **A module runs that nobody was asked about.**  The container has an image, which the verifier
knows, and names a WASM module beside it. -/
theorem unverified_module_runs :
    ∃ (c : Container) (cfg : Config),
      (chainAdmit (packageChain ⟨id, fun _ => ""⟩ [.imageSignature (knowsOne "web:1")])
        (sampleRequest c)).Runs serveOrFail (fun _ => ∅) (.ok (sampleRequest c, none))
          (fun _ => ∅) ∧
      ¬ OnlyVerifiedRuns (knowsOne "web:1") cfg (samplePod c) :=
  ⟨{ image := "web:1", wasmModulePath := "/tmp/m.wasm" }, { nodeName := "a" },
    sampleRequest_admitted rfl, not_along_startWASM⟩

end NimbusCore.Agent
