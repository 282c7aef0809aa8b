import NimbusCore.Admission.Validators
import NimbusCore.Apiserver.Pods
import NimbusCore.Controller.Contract
import NimbusCore.Gitops.Reconciler
import NimbusCore.Support.Interleaving

/-!
# Cluster — workloads and admission

A pod comes into the store by `CreatePod`, or from the template of a deployment, which comes there
by `CreateDeployment` or from a manifest that a GitOps sync puts.  The chain is asked by the two
calls only.

* `workloads_are_secure`: in every interleaving of calls, syncs and passes of the deployment
  controller, every pod meets the security policy and has verified images, if the manifests do.
* `manifest_bypasses_admission`: otherwise they need not.
* `deployment_predicts_pods_iff`: what the stored policies admit of a deployment, they admit of its
  pods, exactly if the deployment carries the labels that its pods will carry.
* `labels_of_the_deployment`: a policy that a deployment meets, and its pods do not.
-/

namespace NimbusCore.Cluster

open Api Registry Admission Apiserver Prog
open Controller Gitops

/-! ### What is asked of a workload -/

/-- The containers meet the security policy, and the verifier accepts their images. -/
def Secure (allowed : List String) (verify : ImageVerifier) (cs : List Container) : Prop :=
  (∀ c ∈ cs, Confined allowed c) ∧ Verified verify cs

/-- The containers of a pod, or of a template. -/
def SecureObj (allowed : List String) (verify : ImageVerifier) : (k : Kind) → k.Obj → Prop
  | .pods, p => Secure allowed verify p.getSpec.containers
  | .deployments, d => Secure allowed verify d.getTemplate.containers
  | _, _ => True

/-! ### The operations -/

/-- An operation by which workloads come into the store. -/
inductive WorkloadOp where
  | createPod (pod : Pod)
  | createDeployment (d : Deployment)
  | sync (cfg : Gitops.Config) (now : Int64) (status : Gitops.Status) (checkout : Checkout)
  | deploymentPass

section

variable (unmarshal : Store.Bytes → Except String Deployment)

/-- What it runs. -/
def WorkloadOp.prog (validators : List Validator) : WorkloadOp → Reg Unit
  | .createPod pod => do
    let _ ← Apiserver.createPod validators pod
    return ()
  | .createDeployment d => do
    let _ ← Apiserver.createDeployment validators d
    return ()
  | .sync cfg now status checkout => do
    let _ ← Gitops.sync unmarshal cfg now status checkout
    return ()
  | .deploymentPass => Controller.reconcileAll

/-- **The manifests of a sync meet the policy as they are.** -/
def WorkloadOp.SyncsSecure (allowed : List String) (verify : ImageVerifier) : WorkloadOp → Prop
  | .sync _ _ _ checkout => ∀ d ∈ manifests unmarshal checkout,
      Secure allowed verify d.getTemplate.containers
  | .createPod _ | .createDeployment _ | .deploymentPass => True

end

/-! ### The calls -/

section

variable {t : Texts} {vs : List PackageValidator} {allowed : List String} {verify : ImageVerifier}

/-- A chain with both validators. -/
theorem establishes_secure (hsec : .securityContext allowed ∈ vs)
    (himg : .imageSignature verify ∈ vs) (req : Request) :
    (chainAdmit (packageChain t vs) req).Ensures (Cmd.Tells (SecureObj allowed verify))
      (Cmd.Puts (SecureObj allowed verify)) fun r => r.2 = none →
        Secure allowed verify r.1.containers := by
  have hconfined := establishes_packageChain (A := Cmd.Tells (SecureObj allowed verify))
    (fun _ _ h => h.confined) hsec (establishes_securityContext t allowed) req
  have hverified := establishes_packageChain (A := Cmd.Tells (SecureObj allowed verify))
    (fun _ _ h => h.verified) himg (establishes_imageSignature t verify) req
  exact (hconfined.and hverified).mono (fun _ _ h => h) (fun _ h => h.1.puts)
    fun _ h hr => ⟨h.1 hr, h.2 hr⟩

theorem containers_withSpec (pod : Pod) (req : Request) :
    (withSpec pod req).getSpec.containers = if pod.spec = none then [] else req.containers := by
  rcases pod with ⟨md, _ | spec, status⟩
  · rfl
  · rfl

theorem containers_withTemplate (d : Deployment) (req : Request) :
    (withTemplate d req).getTemplate.containers = if d.spec = none then [] else req.containers := by
  rcases d with ⟨md, _ | spec, status⟩
  · rfl
  · rfl

theorem secure_ite {cs : List Container} (h : Secure allowed verify cs) (p : Prop) [Decidable p] :
    Secure allowed verify (if p then [] else cs) := by
  split
  · exact ⟨List.forall_mem_nil _, List.forall_mem_nil _⟩
  · exact h

theorem ensures_createPod_secure (hsec : .securityContext allowed ∈ vs)
    (himg : .imageSignature verify ∈ vs) (pod : Pod) :
    (createPod (packageChain t vs) pod).Ensures (Cmd.Tells (SecureObj allowed verify))
      (Cmd.Puts (SecureObj allowed verify)) fun _ => True := by
  rw [createPod]
  split
  · trivial
  · refine Ensures.bind (establishes_secure hsec himg _) fun r hr => ?_
    obtain ⟨req, _ | err⟩ := r
    · have hput : SecureObj allowed verify .pods (withSpec pod req) := by
        rw [SecureObj, containers_withSpec]
        exact secure_ite (hr rfl) _
      refine ensures_ask_bind.mpr ⟨hput, fun x _ => ?_⟩
      cases x <;> trivial
    · trivial

theorem ensures_createDeployment_secure (hsec : .securityContext allowed ∈ vs)
    (himg : .imageSignature verify ∈ vs) (d : Deployment) :
    (createDeployment (packageChain t vs) d).Ensures (Cmd.Tells (SecureObj allowed verify))
      (Cmd.Puts (SecureObj allowed verify)) fun _ => True := by
  rw [createDeployment]
  split
  · trivial
  · refine Ensures.bind (establishes_secure hsec himg _) fun r hr => ?_
    obtain ⟨req, _ | err⟩ := r
    · have hput : SecureObj allowed verify .deployments (withTemplate d req) := by
        rw [SecureObj, containers_withTemplate]
        exact secure_ite (hr rfl) _
      refine ensures_ask_bind.mpr ⟨hput, fun x _ => ?_⟩
      cases x <;> trivial
    · trivial

/-! ### The controller -/

/-- The pods of a deployment have the containers of its template. -/
theorem replicates_secure {d : Deployment} (hd : Secure allowed verify d.getTemplate.containers) :
    Replicates d (Cmd.Tells (SecureObj allowed verify)) (Cmd.Puts (SecureObj allowed verify))
      (SecureObj allowed verify .pods) (SecureObj allowed verify .pods) fun _ => True where
  reads _ h := h.puts
  puts _ hp := hp
  lists _ hall := hall
  assigns p nodeName hp _ _ := by
    rw [SecureObj, assign_containers]
    exact hp
  marks _ _ hp _ _ := hp
  deletes _ _ _ := trivial
  resolves := Within.ensures (Within.weaken (fun _ h => h.puts) (fun _ he => he)
    (readsOnly_resolveVolumeNode _ _))
  creates node i _ _ := by
    rw [SecureObj, created_containers]
    exact hd

theorem ensures_reconcileOne_secure {d : Deployment}
    (hd : Secure allowed verify d.getTemplate.containers) :
    (reconcileOne d).Ensures (Cmd.Tells (SecureObj allowed verify))
      (Cmd.Puts (SecureObj allowed verify)) fun _ => True := by
  rw [reconcileOne_eq]
  refine Ensures.bind (replicates_secure hd).ensures_podStage fun owned _ => ?_
  have hclaims : (claimVolumes d owned.1).Ensures (Cmd.Tells (SecureObj allowed verify))
      (Cmd.Puts (SecureObj allowed verify)) fun _ => True := by
    refine Within.ensures (Within.weaken (fun c hc => ?_) (fun _ he => he)
      (claimVolumes_inBounds d owned.1))
    cases c with
    | put k ns name obj => cases hc k rfl; trivial
    | get _ _ _ | delete _ _ _ | list _ _ => trivial
  refine Ensures.bind hclaims fun _ _ => ?_
  refine Ensures.bind_ok (ensures_asked trivial) fun cur hx => ?_
  have hput : SecureObj allowed verify .deployments cur := hx
  refine ensures_ask_bind.mpr ⟨hput, fun x _ => ?_⟩
  cases x <;> trivial

/-! ### Every run -/

/-- **Each operation puts what is secure**, as long as what it is shown is. -/
theorem ensures_workloadOp {unmarshal : Store.Bytes → Except String Deployment}
    (hsec : .securityContext allowed ∈ vs) (himg : .imageSignature verify ∈ vs) {op : WorkloadOp}
    (hop : op.SyncsSecure unmarshal allowed verify) :
    (op.prog unmarshal (packageChain t vs)).Ensures (Cmd.Tells (SecureObj allowed verify))
      (Cmd.Puts (SecureObj allowed verify)) fun _ => True := by
  cases op with
  | createPod pod =>
    exact Ensures.bind (ensures_createPod_secure hsec himg pod) fun _ _ => trivial
  | createDeployment d =>
    exact Ensures.bind (ensures_createDeployment_secure hsec himg d) fun _ _ => trivial
  | sync cfg now status checkout =>
    exact Ensures.bind (ensures_sync hop) fun _ _ => trivial
  | deploymentPass =>
    exact ensures_reconcileAll trivial fun deployments hall d hd =>
      ensures_reconcileOne_secure (hall d hd)

/-- **No workload bypasses admission**, if no manifest does: every pod that is stored meets the
policy. -/
theorem workloads_are_secure {unmarshal : Store.Bytes → Except String Deployment}
    (hsec : .securityContext allowed ∈ vs) (himg : .imageSignature verify ∈ vs)
    {ι : Type} [DecidableEq ι] {ops : ι → WorkloadOp}
    (hsync : ∀ i, (ops i).SyncsSecure unmarshal allowed verify)
    {tr : List (Prog.Event ι Cmd Cmd.Answer State)} {Q : ι → Reg Unit} {s : State}
    (h : Prog.Interleaves Prog.unguarded serveOrFail
      (fun i => (ops i).prog unmarshal (packageChain t vs)) State.empty tr Q s)
    {p : String} {pod : Pod} (hpod : (s .pods).lookup p = some pod) :
    Secure allowed verify pod.getSpec.containers := by
  have hall := (h.ensures (I := State.All (SecureObj allowed verify))
    (fun _ _ _ _ hI hs => hI.tells hs) (fun _ _ hc _ _ _ hI hs => hI.step hc hs)
    (fun i => ensures_workloadOp hsec himg (hsync i)) State.all_empty).1
  exact hall .pods p pod hpod

end

/-! ### A manifest -/

/-- A user and a repository, and the controller. -/
inductive Source where
  | user
  | repository
  | controller
  deriving DecidableEq

def sampleAllowed : List String := ["NET_BIND_SERVICE"]

/-- Every image is signed. -/
def trusting : ImageVerifier := fun _ => none

def sampleChain : List PackageValidator :=
  [.securityContext sampleAllowed, .imageSignature trusting]

/-- A deployment of one pod, with a container that may be privileged. -/
def sampleDeployment (name : String) (privileged : Bool) : Deployment :=
  { metadata := some { name := name, ns := "default" }
    spec := some
      { replicas := 1
        template := some { containers := [
          { name := "c"
            image := "web:1"
            securityContext := some
              { seccompProfile := "RuntimeDefault", privileged := privileged } }] } } }

/-- The bytes of a manifest, and what they say: whether the container is privileged. -/
def sampleUnmarshal : Store.Bytes → Except String Deployment
  | [b] => .ok (sampleDeployment "shell" (b = 1))
  | _ => .error "no manifest"

/-- The user creates a deployment, the repository holds a manifest, and the controller passes. -/
def sampleOps (manifest : UInt8) : Source → WorkloadOp
  | .user => .createDeployment (sampleDeployment "web" false)
  | .repository => .sync ⟨"repo", "main", "deploy"⟩ 0 {}
      ⟨.ok (), .ok "c0ffee", .ok [⟨false, "shell.json", .ok [manifest]⟩]⟩
  | .controller => .deploymentPass

/-- The user, then the repository, then the controller makes the pod of the manifest. -/
def sampleMoves : List (Source × List String) :=
  [(.user, []), (.repository, []), (.controller, ["default/shell", "default/web"]),
    (.controller, []), (.controller, [])]

instance (allowed : List String) (c : Container) : Decidable (Confined allowed c) :=
  decidable_of_iff ((getSecurityContext c).seccompProfile ≠ "" ∧
      (getSecurityContext c).privileged = false ∧
      (getSecurityContext c).allowPrivilegeEscalation = false ∧
      ∀ cap ∈ (getSecurityContext c).addCapabilities, cap ∈ allowed)
    ⟨fun h => ⟨h.1, h.2.1, h.2.2.1, h.2.2.2⟩,
      fun h => ⟨h.profile, h.unprivileged, h.noEscalation, h.capabilities⟩⟩

instance (verify : ImageVerifier) (cs : List Container) : Decidable (Verified verify cs) :=
  inferInstanceAs (Decidable (∀ c ∈ cs, _))

instance (allowed : List String) (verify : ImageVerifier) (cs : List Container) :
    Decidable (Secure allowed verify cs) :=
  inferInstanceAs (Decidable (_ ∧ _))

/-- The first pod of the manifest. -/
def shellPod (s : State) : Option Pod := (s .pods).lookup "default/shell-0"

theorem workloads_are_secure_sample :
    ∃ tr Q s, Prog.Interleaves Prog.unguarded serveOrFail
        (fun i => (sampleOps 0 i).prog sampleUnmarshal (packageChain ⟨id, fun _ => ""⟩ sampleChain))
        State.empty tr Q s ∧
      ∃ pod, shellPod s = some pod ∧ Secure sampleAllowed trusting pod.getSpec.containers := by
  obtain ⟨tr, Q, s, h, hs⟩ := exists_of_play (G := Prog.unguarded) (s := State.empty)
    (P := fun i => (sampleOps 0 i).prog sampleUnmarshal
      (packageChain ⟨id, fun _ => ""⟩ sampleChain))
    (T := fun r => (shellPod r.state).isSome) serveOrFail_of_resolve sampleMoves (by decide +kernel)
  obtain ⟨pod, hpod⟩ := Option.isSome_iff_exists.mp hs
  have hsync : ∀ i, (sampleOps 0 i).SyncsSecure sampleUnmarshal sampleAllowed trusting
    | .user => trivial
    | .repository => show ∀ d ∈ manifests sampleUnmarshal _, _ by decide +kernel
    | .controller => trivial
  exact ⟨tr, Q, s, h, pod, hpod, workloads_are_secure (by simp [sampleChain])
    (by simp [sampleChain]) hsync h hpod⟩

/-- **A manifest bypasses admission**: its privileged container comes into the store, and into a
pod. -/
theorem manifest_bypasses_admission :
    ∃ tr Q s, Prog.Interleaves Prog.unguarded serveOrFail
        (fun i => (sampleOps 1 i).prog sampleUnmarshal (packageChain ⟨id, fun _ => ""⟩ sampleChain))
        State.empty tr Q s ∧
      ∃ pod ∈ shellPod s, ¬ Secure sampleAllowed trusting pod.getSpec.containers :=
  exists_of_play (T := fun r => ∃ pod ∈ shellPod r.state,
      ¬ Secure sampleAllowed trusting pod.getSpec.containers)
    serveOrFail_of_resolve sampleMoves (by decide +kernel)

/-! ### What admission of a deployment says of its pods -/

section

variable {t : Texts} {engine : Engine} {s : State} {req : Request}

/-- `PolicyValidator` admits the request, by the policies that are stored in `s`. -/
def PoliciesAdmit (t : Texts) (engine : Engine) (s : State) (req : Request) : Prop :=
  ∃ req', (chainAdmit (packageChain t [.policy engine]) req).Runs serve s (.ok (req', none)) s

/-- The view of the request. -/
def viewOf (req : Request) : View := podView req.ns req.labels (req.spec.getD {})

theorem policyLoop_eq_none_iff {quote : String → String} {view : View} :
    ∀ {policies : List Policy}, policyLoop quote engine view policies = none ↔
      ∀ pol ∈ policies, engine.judge pol view = .ok true
  | [] => by simp [policyLoop]
  | pol :: policies => by
    have ih : policyLoop quote engine view policies = none ↔ _ := policyLoop_eq_none_iff
    rw [List.forall_mem_cons, policyLoop]
    cases hj : engine.judge pol view with
    | error err => simp
    | ok b => cases b <;> simp [ih]

theorem viewOf_normalise (req : Request) : viewOf (normalise req) = viewOf req := by
  rw [normalise]
  split <;> rfl

/-- The chain of the one validator. -/
theorem chainAdmit_policies (t : Texts) (engine : Engine) (req : Request) :
    chainAdmit (packageChain t [.policy engine]) req = Registry.list .policies "" >>= fun x =>
      match x with
      | .error err => pure (normalise req,
          some ("admission: " ++ ("policy: list policies: " ++ t.errorText err)))
      | .ok policies => pure (normalise req,
          (policyLoop t.quote engine (viewOf (normalise req)) policies).map
            ("admission: " ++ ·)) := by
  rw [chainAdmit, packageChain, List.map_singleton, admitLoop_singleton]
  refine congrArg (Prog.call (Cmd.list .policies "")) (funext fun x => ?_)
  cases x with
  | error err => rfl
  | ok policies => rfl

/-- **Every stored policy says yes.** -/
theorem policiesAdmit_iff : PoliciesAdmit t engine s req ↔
    ∀ p pol, (s .policies).lookup p = some pol → engine.judge pol (viewOf req) = .ok true := by
  -- the listing may come in any order, and all of it is judged
  have hlisted : ∀ {order}, Finmap.IsOrder order (s.listing .policies "") →
      (policyLoop t.quote engine (viewOf (normalise req)) (s.listed .policies "" order) = none ↔
        ∀ p pol, (s .policies).lookup p = some pol → engine.judge pol (viewOf req) = .ok true) := by
    intro order ho
    rw [policyLoop_eq_none_iff, viewOf_normalise]
    constructor
    · exact fun h p pol hp => h pol ((State.mem_listed ho).mpr ⟨p, .inl rfl, hp⟩)
    · intro h pol hpol
      obtain ⟨p, -, hp⟩ := (State.mem_listed ho).mp hpol
      exact h p pol hp
  rw [PoliciesAdmit, chainAdmit_policies]
  constructor
  · rintro ⟨req', x, s₁, ⟨-, order, ho, rfl⟩, hr, -⟩
    have hnone : (policyLoop t.quote engine (viewOf (normalise req))
        (s.listed .policies "" order)).map ("admission: " ++ ·) = none :=
      (congrArg Prod.snd (Except.ok.inj hr)).symm
    exact (hlisted ho).mp (Option.map_eq_none_iff.mp hnone)
  · intro h
    obtain ⟨order, ho⟩ := Finmap.exists_isOrder (s.listing .policies "")
    refine ⟨normalise req, _, s, ⟨rfl, order, ho, rfl⟩, ?_, rfl⟩
    rw [(hlisted ho).mpr h]
    rfl

/-- A pod of the deployment is seen as the deployment is, but for the labels. -/
theorem viewOf_newPod (d : Deployment) (i : Nat) :
    viewOf (podAdmitReq (newPod d i)) = { viewOf (admitReq d) with
      labels := d.getSpec.selector.insert OwnerDeploymentLabel d.getMetadata.name } := rfl

end

/-- The policy that asks for some labels, and no others. -/
def onlyLabels (labels : Dict String String) : Engine where
  compile _ := .ok fun view => .ok (.bool (view.labels = labels))

/-- A store with one policy. -/
def onePolicy : State := State.empty.set .policies (Finmap.singleton "labels" {})

theorem policiesAdmit_onlyLabels_iff {t : Texts} {labels : Dict String String} {req : Request} :
    PoliciesAdmit t (onlyLabels labels) onePolicy req ↔ req.labels = labels := by
  rw [policiesAdmit_iff]
  constructor
  · intro h
    have hj := h "labels" {} (by simp [onePolicy])
    exact of_decide_eq_true (Except.ok.inj hj)
  · intro h p pol _
    simp [Engine.judge, onlyLabels, evaluate, viewOf, podView, h]

/-- **What the policies admit of a deployment, they admit of its pods**, whatever the policies are,
exactly if the deployment carries the labels of its pods. -/
theorem deployment_predicts_pods_iff (t : Texts) (d : Deployment) :
    (∀ engine s, PoliciesAdmit t engine s (admitReq d) →
        ∀ i, PoliciesAdmit t engine s (podAdmitReq (newPod d i))) ↔
      d.getMetadata.labels =
        d.getSpec.selector.insert OwnerDeploymentLabel d.getMetadata.name := by
  constructor
  · intro h
    have hpod := h (onlyLabels d.getMetadata.labels) onePolicy
      (policiesAdmit_onlyLabels_iff.mpr rfl) 0
    exact (policiesAdmit_onlyLabels_iff.mp hpod).symm
  · intro h engine s hd i
    rw [policiesAdmit_iff] at hd ⊢
    rw [viewOf_newPod, ← h]
    exact hd

/-- **A policy on labels** that a deployment meets by its own labels, and its pods do not. -/
theorem labels_of_the_deployment :
    ∃ (d : Deployment) (engine : Engine) (s : State),
      PoliciesAdmit ⟨id, fun _ => ""⟩ engine s (admitReq d) ∧
      ¬ PoliciesAdmit ⟨id, fun _ => ""⟩ engine s (podAdmitReq (newPod d 0)) := by
  refine ⟨{ metadata := some { name := "web", labels := Finmap.singleton "team" "a" } },
    onlyLabels (Finmap.singleton "team" "a"), onePolicy, policiesAdmit_onlyLabels_iff.mpr rfl, ?_⟩
  rw [policiesAdmit_onlyLabels_iff]
  decide

end NimbusCore.Cluster
