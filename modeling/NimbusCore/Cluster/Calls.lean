import NimbusCore.Admission.Validators
import NimbusCore.Apiserver.Pods
import NimbusCore.Controller.PodController
import NimbusCore.Dashboard.Dashboard
import NimbusCore.Support.Transitions

/-!
# Cluster — calls and passes

The calls of the API server and of the dashboard, and the passes of the two controllers, one after
the other in any order (`clusterLoop`), over a store that may fail at every operation.  What else
writes to the store in the meantime (agents, nodes, other calls) is a parameter, `drifts`, of which
each result asks what it needs.

* `Judges`: what is asked of the validators of the chain: they only read, and leave the volumes of
  the request as they are.  Those of the package do (`judges_packageChain`).
* `ensures_createDeployment`, `ensures_createPod`: what is stored is what was given, as far as its
  name and its volumes go.
* `ensures_deleteDeployment`, `ensures_restartOwnedPods`: what is only deleted (`Retires`).
* `clusterResolver`: runs that can be computed.
-/

namespace NimbusCore.Cluster

open Api Registry Admission Apiserver Prog
open Controller Dashboard EventLoop

/-- A call, or a pass of a controller. -/
inductive ClusterCall where
  | createVolume (csi : CsiController) (vol : Volume)
  | deleteVolume (csi : CsiController) (ns name : String)
  | createDeployment (d : Deployment)
  | deleteDeployment (ns name : String)
  | createPod (pod : Pod)
  | dashboardCreate (csi : CsiController) (body : Except String CreateDeploymentRequest)
  | deploymentPass
  | podPass

/-- What is run, whatever it ends with. -/
def runAll {α : Type} (p : Reg α) : Prog Cmd Cmd.Answer Empty Bool := do
  let _ ← p.reify
  return true

/-- What is run on a call. -/
def body (validators : List Validator) : ClusterCall → Prog Cmd Cmd.Answer Empty Bool
  | .createVolume csi vol => runAll (Apiserver.createVolume csi vol)
  | .deleteVolume csi ns name => runAll (Apiserver.deleteVolume csi ns name)
  | .createDeployment d => runAll (Apiserver.createDeployment validators d)
  | .deleteDeployment ns name => runAll (Apiserver.deleteDeployment ns name)
  | .createPod pod => runAll (Apiserver.createPod validators pod)
  | .dashboardCreate csi b => runAll (handleCreateDeployment validators csi b)
  | .deploymentPass => runAll Controller.reconcileAll
  | .podPass => runAll PodReconciler.reconcileAll

/-- The calls in any order. -/
def clusterLoop (validators : List Validator) (drifts : State → State → Prop) :
    EventLoop ClusterCall Cmd Cmd.Answer State where
  arrives _ s s' := s' = s
  body := body validators
  answers := serveOrFail
  drifts := drifts

/-- A step of the cluster. -/
abbrev ClusterStep := Label ClusterCall Cmd Cmd.Answer

/-- The steps of a run, and where it has come to. -/
abbrev ClusterRun := List ClusterStep × State

section

variable {α σ : Type} {D : σ → σ → Prop} {H : Handler Cmd Cmd.Answer σ}
  {Ψ : (c : Cmd) → c.Answer → σ → σ → Prop} {I : σ → Prop} {s : σ}

/-- A call follows what its program follows. -/
theorem follows_runAll {p : Reg α} (hp : p.Follows D H Ψ (fun _ => I) s) :
    (runAll p).Follows D H Ψ (fun _ => I) s :=
  Follows.bind (Φ := fun _ => I) (fun _ _ h => follows_pure h) (fun _ _ h => h)
    (hp.reify fun _ _ h => h)

/-- The loop over the deployments follows what is followed for each, from `I` to `I`. -/
theorem follows_reconcileEach : ∀ {deployments : List Deployment} {s : σ},
    (∀ d ∈ deployments, ∀ t, I t → (reconcileOne d).Follows D H Ψ (fun _ => I) t) → I s →
      (reconcileEach deployments).Follows D H Ψ (fun _ => I) s
  | [], _, _, hs => hs
  | d :: _, s, h, hs => by
    obtain ⟨hd, hrest⟩ := List.forall_mem_cons.mp h
    refine Follows.bind (Φ := fun _ => I) (fun _ _ ht => follows_reconcileEach hrest ht)
      (fun _ _ ht => ht) ?_
    exact Follows.attempt (fun _ _ ht => ht) (fun _ _ _ _ ht => ht) (fun _ _ _ ht => ht)
      (hd s hs)

end

/-! ### The chain -/

/-- The request asks for the same volumes in the same name. -/
def SameVolumes (req req' : Request) : Prop :=
  req'.ns = req.ns ∧ req'.name = req.name ∧ req'.volumes = req.volumes

/-- **What is asked of a validator**: it only reads, and leaves the volumes of the request. -/
def Judges (v : Validator) : Prop :=
  ∀ req, (v req).Ensures (fun _ _ => True) Cmd.Reads fun r => SameVolumes req r.1

/-- **The validators of the package do so**: they leave the request, or harden its containers. -/
theorem judges_packageChain (t : Texts) (vs : List PackageValidator) :
    ∀ v ∈ packageChain t vs, Judges v := by
  intro v hv req
  obtain ⟨v, -, rfl⟩ := List.mem_map.mp hv
  refine (hardens_validator t v req).mono (fun _ _ h => h) (fun _ h => h) fun r h => ?_
  obtain ⟨req', _⟩ := r
  cases h with
  | refl => exact ⟨rfl, rfl, rfl⟩
  | secured quote allowed =>
    refine ⟨rfl, rfl, ?_⟩
    rcases req with ⟨_, _, _, _ | spec⟩ <;> rfl

theorem SameVolumes.trans {a b c : Request} (h : SameVolumes a b) (h' : SameVolumes b c) :
    SameVolumes a c :=
  ⟨h'.1.trans h.1, h'.2.1.trans h.2.1, h'.2.2.trans h.2.2⟩

variable {validators : List Validator}

/-- A chain of such validators is one. -/
theorem judges_admitLoop (hv : ∀ v ∈ validators, Judges v) (req : Request) :
    (admitLoop validators req).Ensures (fun _ _ => True) Cmd.Reads
      fun r => SameVolumes req r.1 := by
  induction validators generalizing req with
  | nil => exact ⟨rfl, rfl, rfl⟩
  | cons v vs ih =>
    obtain ⟨hone, hrest⟩ := List.forall_mem_cons.mp hv
    refine Ensures.bind (hone req) fun r hr => ?_
    obtain ⟨req', err⟩ := r
    cases err with
    | some err => exact hr
    | none => exact (ih hrest req').mono (fun _ _ h => h) (fun _ h => h) fun _ h => hr.trans h

theorem sameVolumes_normalise (req : Request) : SameVolumes req (normalise req) := by
  rw [normalise]
  split <;> exact ⟨rfl, rfl, rfl⟩

theorem judges_chainAdmit (hv : ∀ v ∈ validators, Judges v) (req : Request) :
    (chainAdmit validators req).Ensures (fun _ _ => True) Cmd.Reads
      fun r => SameVolumes req r.1 :=
  (judges_admitLoop hv _).mono (fun _ _ h => h) (fun _ h => h)
    fun _ h => (sameVolumes_normalise req).trans h

/-- The template as the validators have left it has the volumes of the request. -/
theorem volumes_withTemplate {d : Deployment} {req : Request} (h : SameVolumes (admitReq d) req) :
    (withTemplate d req).getTemplate.volumes = d.getTemplate.volumes := by
  rcases d with ⟨md, _ | spec, status⟩
  · rfl
  · exact h.2.2

/-- `CreateDeployment` puts what it was given, with the same volumes, or nothing. -/
theorem ensures_createDeployment (hv : ∀ v ∈ validators, Judges v) (d : Deployment) :
    (createDeployment validators d).Ensures (fun _ _ => True) (fun c => c.Reads ∨
      ∃ d' : Deployment, d'.getMetadata = d.getMetadata ∧
        d'.getTemplate.volumes = d.getTemplate.volumes ∧
        c = .put .deployments d'.getMetadata.ns d'.getMetadata.name d') fun _ => True := by
  rw [createDeployment]
  split
  · trivial
  · refine Ensures.bind ((judges_chainAdmit hv _).mono (fun _ _ h => h) (fun _ h => .inl h)
      fun _ h => h) fun r hr => ?_
    obtain ⟨req, err⟩ := r
    cases err with
    | some err => trivial
    | none =>
      refine ensures_ask_bind.mpr
        ⟨.inr ⟨withTemplate d req, rfl, volumes_withTemplate hr, rfl⟩, fun x _ => ?_⟩
      cases x <;> trivial

/-! ### What the other calls write -/

/-- `CreatePod` puts what it was given, or nothing. -/
theorem ensures_createPod (hv : ∀ v ∈ validators, Judges v) (pod : Pod) :
    (createPod validators pod).Ensures (fun _ _ => True) (fun c => c.Reads ∨
      ∃ pod' : Pod, pod'.getMetadata = pod.getMetadata ∧
        c = .put .pods pod'.getMetadata.ns pod'.getMetadata.name pod') fun _ => True := by
  rw [createPod]
  split
  · trivial
  · refine Ensures.bind ((judges_chainAdmit hv _).mono (fun _ _ h => h) (fun _ h => .inl h)
      fun _ h => h) fun r _ => ?_
    obtain ⟨req, err⟩ := r
    cases err with
    | some err => trivial
    | none =>
      refine ensures_ask_bind.mpr ⟨.inr ⟨withSpec pod req, rfl, rfl⟩, fun x _ => ?_⟩
      cases x <;> trivial

/-- A command that reads, or deletes a pod or a deployment. -/
def Retires (c : Cmd) : Prop :=
  c.Reads ∨ ∃ ns name, c = .delete .pods ns name ∨ c = .delete .deployments ns name

theorem ensures_deleteOwned (name : String) : ∀ pods : List Pod,
    (deleteOwned name pods).Ensures (fun _ _ => True) Retires fun _ => True
  | [] => trivial
  | p :: pods => by
    rw [deleteOwned]
    split
    · exact ensures_deleteOwned name pods
    · refine ensures_ask_bind.mpr ⟨.inr ⟨_, _, .inl rfl⟩, fun x _ => ?_⟩
      cases x with
      | error err => trivial
      | ok _ => exact ensures_deleteOwned name pods

theorem ensures_deleteDeployment (ns name : String) :
    (deleteDeployment ns name).Ensures (fun _ _ => True) Retires fun _ => True := by
  refine ensures_ask_bind.mpr ⟨.inr ⟨_, _, .inr rfl⟩, fun x _ => ?_⟩
  rcases x with err | _
  · trivial
  refine ensures_ask_bind.mpr ⟨.inl rfl, fun x _ => ?_⟩
  cases x with
  | error err => trivial
  | ok pods => exact ensures_deleteOwned name pods

theorem ensures_restartLoop (name : String) : ∀ pods : List Pod,
    (restartLoop name pods).Ensures (fun _ _ => True) Retires fun _ => True
  | [] => trivial
  | p :: pods => by
    rw [restartLoop]
    split
    · exact ensures_restartLoop name pods
    · exact ensures_ask_bind.mpr ⟨.inr ⟨_, _, .inl rfl⟩, fun _ _ => ensures_restartLoop name pods⟩

theorem ensures_restartOwnedPods (ns name : String) :
    (restartOwnedPods ns name).Ensures (fun _ _ => True) Retires fun _ => True := by
  refine ensures_ask_bind.mpr ⟨.inl rfl, fun x _ => ?_⟩
  cases x with
  | error err => trivial
  | ok pods => exact ensures_restartLoop name pods

theorem ensures_getDeployment (ns name : String) :
    (getDeployment ns name).Ensures (fun _ _ => True) Cmd.Reads fun _ => True := by
  refine ensures_ask_bind.mpr ⟨rfl, fun x _ => ?_⟩
  cases x <;> trivial

theorem ensures_createVolume (csi : CsiController) (vol : Volume) :
    (createVolume csi vol).Ensures (fun _ _ => True) (Cmd.OnlyWrites .volumes) fun _ => True := by
  rw [createVolume]
  split
  · trivial
  · split
    · trivial
    · refine ensures_ask_bind.mpr ⟨onlyWrites_put _ _ _ _, fun x _ => ?_⟩
      cases x <;> trivial

theorem ensures_deleteVolume (csi : CsiController) (ns name : String) :
    (deleteVolume csi ns name).Ensures (fun _ _ => True) (Cmd.OnlyWrites .volumes)
      fun _ => True := by
  rw [deleteVolume]
  split
  · trivial
  · split
    · trivial
    · refine ensures_ask_bind.mpr ⟨onlyWrites_delete _ _ _, fun x _ => ?_⟩
      cases x <;> trivial

theorem ensures_storage (csi : CsiController) (req : CreateDeploymentRequest)
    (existing : Except Status Deployment) :
    (storage csi req existing).Ensures (fun _ _ => True) (Cmd.OnlyWrites .volumes)
      fun _ => True := by
  have hget : (getVolume req.ns req.name).Ensures (fun _ _ => True) (Cmd.OnlyWrites .volumes)
      fun _ => True := by
    refine ensures_ask_bind.mpr ⟨Cmd.Reads.onlyWrites (c := .get ..) rfl _, fun x _ => ?_⟩
    cases x <;> trivial
  unfold storage
  split
  · refine Ensures.bind hget fun x _ => ?_
    cases x with
    | ok vol => trivial
    | error err =>
      refine Ensures.bind (ensures_createVolume csi req.volume) fun x _ => ?_
      cases x <;> trivial
  · split <;> trivial

/-! ### Runs that can be computed -/

/-- Over a store that does not fail, given the orders of the listings. -/
def clusterResolver (validators : List Validator) (drifts : State → State → Prop) :
    Resolver (clusterLoop validators drifts) (List String) Empty where
  arrive _ s := some s
  answer := resolve
  drift := nofun
  arrives _ _ _ h := (Option.some.inj h).symm
  answers := serveOrFail_of_resolve
  drifts := nofun

/-- A driver that makes every volume in the size that is asked for. -/
def willing : CsiController where
  createVolume _ requiredBytes := .ok requiredBytes
  deleteVolume _ := .ok ()

/-- The volume policies. -/
def volumePolicies : List Validator := [volumeReplicasPolicy, volumeOwnershipPolicy id]

theorem judges_volumePolicies : ∀ v ∈ volumePolicies, Judges v :=
  judges_packageChain ⟨id, fun _ => ""⟩ [.volumeReplicas, .volumeOwnership]

end NimbusCore.Cluster
