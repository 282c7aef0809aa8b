import NimbusCore.Dashboard.Dashboard
import NimbusCore.Admission.Validators

/-!
# Dashboard — editing a deployment

A deployment that exists is edited by creating it again from the form.  The handler reads what is
stored, and carries one thing over: the volume mounts.  All else is made from the fields of the form
(`CreateDeploymentRequest.deployment`), so what the form has no field for is reset.

* `spec_chainAdmit`: of the template, admission changes the security contexts, and only if the
  security policy is in the chain.
* `edit_outcome`: what an accepted edit stores (`edited`).  If the deployment could not be read, its
  mounts are gone as well: the error of the read is taken for a deployment that is not there.
* `edit_keeps_iff`: an edit leaves alone what the form has no field for (`Unedited`) exactly if the
  stored deployment has none of it set (`Plain`), its mounts apart.
-/

namespace NimbusCore.Dashboard

open Api Registry Admission Apiserver Prog

/-! ### What admission makes of a template -/

/-- The security policy. -/
def secures : PackageValidator → Bool
  | .securityContext _ => true
  | _ => false

/-- The containers with security contexts, as the security policy leaves them. -/
def secured (spec : Option PodSpec) : Option PodSpec :=
  spec.map fun spec => { spec with containers := spec.containers.map withProfile }

theorem withProfile_withProfile (c : Container) : withProfile (withProfile c) = withProfile c := by
  rw [withProfile, if_neg (profile_withProfile c)]
  rfl

theorem secured_secured (spec : Option PodSpec) : secured (secured spec) = secured spec := by
  cases spec with
  | none => rfl
  | some spec => simp [secured, withProfile_withProfile]

theorem secureLoop_of_none {quote : String → String} {allowed : List String} :
    ∀ {cs : List Container}, (secureLoop quote allowed cs).2 = none →
      (secureLoop quote allowed cs).1 = cs.map withProfile
  | [], _ => rfl
  | c :: cs, h => by
    rw [secureLoop] at h ⊢
    cases hr : refusal quote allowed (withProfile c) with
    | some err => rw [hr] at h; cases h
    | none =>
      rw [hr] at h
      simp only [List.map_cons, List.cons.injEq, true_and]
      exact secureLoop_of_none h

/-- A template after admission. -/
def admitted (vs : List PackageValidator) (spec : Option PodSpec) : Option PodSpec :=
  if vs.any secures then secured spec else spec

theorem admitted_cons (v : PackageValidator) (vs : List PackageValidator) (spec : Option PodSpec) :
    admitted (v :: vs) spec = admitted vs (admitted [v] spec) := by
  by_cases hv : secures v = true
  · by_cases hvs : vs.any secures = true
    · simp [admitted, hv, hvs, secured_secured]
    · simp [admitted, hv, hvs]
  · simp [admitted, hv]

/-- A validator of the package. -/
theorem spec_validator (t : Texts) (v : PackageValidator) (req : Request) :
    (v.validator t req).Ensures (fun _ _ => True) Cmd.Reads fun r => r.2 = none →
      r.1.spec = admitted [v] req.spec := by
  cases v with
  | securityContext allowed =>
    intro h
    have hcs := secureLoop_of_none h
    simp only [admitted, List.any_cons, secures, Bool.true_or, if_true, secured, hcs]
    cases hs : req.spec with
    | none => simp
    | some spec => simp [hs, Request.containers]
  | imageSignature verify => exact fun _ => rfl
  | quota limits =>
    simp only [PackageValidator.validator, quotaPolicy]
    by_cases hq : limits.cpuMillis ≤ 0 ∧ limits.memoryBytes ≤ 0
    · rw [if_pos hq]
      exact fun _ => rfl
    · rw [if_neg hq]
      refine ensures_ask_bind.mpr ⟨rfl, fun x _ => ?_⟩
      cases x <;> exact fun _ => rfl
  | policy engine =>
    refine ensures_ask_bind.mpr ⟨rfl, fun x _ => ?_⟩
    cases x <;> exact fun _ => rfl
  | volumeReplicas =>
    simp only [PackageValidator.validator, volumeReplicasPolicy]
    by_cases hv : req.volumes.length = 0
    · rw [if_pos hv]
      exact fun _ => rfl
    rw [if_neg hv]
    by_cases hr : 1 < req.replicas
    · rw [if_pos hr]
      exact fun _ => rfl
    · rw [if_neg hr]
      exact fun _ => rfl
  | volumeOwnership =>
    exact Ensures.bind (reads_ownershipLoop t.quote _ _ _) fun _ _ _ => rfl

/-- The chain. -/
theorem spec_admitLoop (t : Texts) : ∀ (vs : List PackageValidator) (req : Request),
    (admitLoop (packageChain t vs) req).Ensures (fun _ _ => True) Cmd.Reads fun r => r.2 = none →
      r.1.spec = admitted vs req.spec
  | [], req => fun _ => rfl
  | v :: vs, req => by
    refine Ensures.bind (spec_validator t v req) fun r hr => ?_
    obtain ⟨req', _ | err⟩ := r
    · refine (spec_admitLoop t vs req').mono (fun _ _ h => h) (fun _ h => h) fun r h hnone => ?_
      rw [h hnone, hr rfl]
      exact (admitted_cons v vs req.spec).symm
    · exact fun h => by cases h

/-- **Admission changes the security contexts of a template**, if anything. -/
theorem spec_chainAdmit (t : Texts) (vs : List PackageValidator) (req : Request) :
    (chainAdmit (packageChain t vs) req).Ensures (fun _ _ => True) Cmd.Reads fun r => r.2 = none →
      r.1.spec = admitted vs req.spec := by
  have hspec : (normalise req).spec = req.spec := by
    simp only [normalise]
    split <;> rfl
  rw [chainAdmit, ← hspec]
  exact spec_admitLoop t vs (normalise req)

/-! ### An accepted edit -/

/-- A store that may fail, given whether deployments can be read. -/
def serveReading (readable : Bool) : Handler Cmd Cmd.Answer State := fun c s r s' =>
  serveOrFail c s r s' ∧ ∀ ns name, c = .get .deployments ns name →
    if readable then serve c s r s' else r = c.failure

/-- The deployment that is stored for a request. -/
def edited (vs : List PackageValidator) (req : CreateDeploymentRequest)
    (volumes : List VolumeMount) : Deployment :=
  { req.deployment volumes with
    spec := some
      { replicas := req.replicas
        selector := req.selector
        template := admitted vs (some { containers := [req.container], volumes := volumes }) } }

section

variable {t : Texts} {vs : List PackageValidator} {csi : CsiController} {readable : Bool}
  {s s' : State} {req : CreateDeploymentRequest} {d : Deployment}

theorem runs_orFail_of_reading {α : Type} {p : Reg α} {x : Except Stop α}
    (h : p.Runs (serveReading readable) s x s') : p.Runs serveOrFail s x s' :=
  h.mono fun _ _ _ _ hc => hc.1

theorem runs_getDeployment {β : Type} {f : Except Status Deployment → Reg β} {x : Except Stop β}
    {ns name : String} (hd : (s .deployments).lookup (path ns name) = some d)
    (h : (getDeployment ns name >>= f).Runs (serveReading readable) s x s') :
    (f (if readable then .ok d
      else .error ⟨.notFound, "deployment " ++ ns ++ "/" ++ name ++ ": ", some .failed⟩)).Runs
      (serveReading readable) s x s' := by
  obtain ⟨y, s₁, ⟨hs, hread⟩, h⟩ := h
  have hread := hread ns name rfl
  cases readable with
  | true =>
    obtain ⟨rfl, rfl⟩ : s₁ = s ∧ y = s.find .deployments ns name := hread
    have hfind : s₁.find .deployments ns name = .ok d := by rw [State.find, hd]
    rw [hfind] at h
    exact h
  | false =>
    obtain rfl : y = .error .failed := hread
    have hs₁ : s₁ = s := by
      rcases hs with ⟨hs₁, -⟩ | ⟨hs₁, -⟩ <;> exact hs₁
    exact hs₁ ▸ h

/-- What is created is stored, with the template as admission leaves it. -/
theorem createDeployment_outcome {d d' : Deployment} {spec : DeploymentSpec}
    (hspec : d.spec = some spec)
    (h : (createDeployment (packageChain t vs) d).Runs serveOrFail s (.ok (.ok d')) s') :
    d' = { d with spec := some { spec with template := admitted vs spec.template } } ∧
      s' = s.set .deployments ((s .deployments).insert
        (path d.getMetadata.ns d.getMetadata.name) d') := by
  have hget : d.getSpec = spec := by rw [Deployment.getSpec, hspec]; rfl
  rw [createDeployment] at h
  split at h
  · cases h.1
  rcases runs_bind.mp h with ⟨⟨req', err⟩, s₁, hchain, h⟩ | ⟨e, he, -⟩
  · have hpost := (spec_chainAdmit t vs (admitReq d)).keeps (I := (· = s))
      (fun _ _ _ _ _ _ => trivial) (fun _ hc _ _ _ hs hserve => (eq_of_reads hc hserve).trans hs)
      hchain rfl
    obtain ⟨rfl, hpost⟩ := hpost
    cases err with
    | some err => cases h.1
    | none =>
      have hreq := hpost _ rfl rfl
      rcases runs_put_orFail h with ⟨hr, rfl⟩ | ⟨hr, -⟩
      · cases hr
        have hd : withTemplate d req' =
            { d with spec := some { spec with template := admitted vs spec.template } } := by
          rw [withTemplate, hspec, Option.map_some, hreq, admitReq, hget]
        exact ⟨hd, rfl⟩
      · cases hr
  · cases he

theorem quiet_restartLoop (name : String) : ∀ pods, Quiet .pods (restartLoop name pods)
  | [] => trivial
  | p :: pods => by
    rw [restartLoop]
    split
    · exact quiet_restartLoop name pods
    · exact Within.bind quiet_delete fun _ => quiet_restartLoop name pods

theorem quiet_restartOwnedPods (ns name : String) : Quiet .pods (restartOwnedPods ns name) := by
  refine Within.bind_ok quiet_list fun pods => ?_
  exact quiet_restartLoop name pods

/-- The mounts that are carried over. -/
def carried : Except Status Deployment → List VolumeMount
  | .error _ => []
  | .ok d => d.getTemplate.volumes

theorem storage_eq (hp : req.addPersistentStorage = false) (existing : Except Status Deployment) :
    storage csi req existing = pure (.ok (carried existing)) := by
  unfold storage
  rw [hp]
  cases existing <;> rfl

/-- The deployment stays as it is created. -/
theorem createOrEdit_outcome {created : Created} (hp : req.addPersistentStorage = false)
    (hd : (s .deployments).lookup (path req.ns req.name) = some d)
    (h : (createOrEdit (packageChain t vs) csi req).Runs (serveReading readable) s
      (.ok (.ok created)) s') :
    (s' .deployments).lookup (path req.ns req.name) =
      some (edited vs req (if readable then d.getTemplate.volumes else [])) := by
  have hno : ∀ q : Prop, ¬ (req.addPersistentStorage = true ∧ q) := fun q hq => by
    rw [hp] at hq
    cases hq.1
  rw [createOrEdit, if_neg (hno _), if_neg (hno _)] at h
  have h := runs_getDeployment hd h
  rw [storage_eq hp, pure_bind_reg] at h
  rcases runs_bind.mp h with ⟨x, s₁, hcreate, h⟩ | ⟨e, he, -⟩
  · rcases x with err | d'
    · cases h.1
    obtain ⟨hd', rfl⟩ := createDeployment_outcome rfl (runs_orFail_of_reading hcreate)
    cases readable with
    | true =>
      -- the pods are deleted, which leaves the deployments
      rcases runs_bind.mp h with ⟨u, s₂, hrestart, -, rfl⟩ | ⟨e, he, -⟩
      · rw [frame_of_within (quiet_restartOwnedPods req.ns req.name)
          (runs_orFail_of_reading hrestart) (by decide), State.set_self]
        exact hd' ▸ Finmap.lookup_insert _
      · cases he
    | false =>
      obtain ⟨-, rfl⟩ := h
      rw [State.set_self]
      exact hd' ▸ Finmap.lookup_insert _
  · cases he

/-- **What an accepted edit stores.** -/
theorem edit_outcome {created : Created} (hp : req.addPersistentStorage = false)
    (hd : (s .deployments).lookup (path req.withDefaults.ns req.name) = some d)
    (h : (handleCreateDeployment (packageChain t vs) csi (.ok req)).Runs (serveReading readable) s
      (.ok (.ok created)) s') :
    (s' .deployments).lookup (path req.withDefaults.ns req.name) =
      some (edited vs req.withDefaults (if readable then d.getTemplate.volumes else [])) := by
  simp only [handleCreateDeployment] at h
  split at h
  · cases h.1
  split at h
  · cases h.1
  · refine createOrEdit_outcome ?_ ?_ h
    · exact hp
    · exact hd

end

/-! ### What an edit leaves alone -/

/-- The container that the form edits: the first of the template. -/
def mainContainer (d : Deployment) : Container := d.getTemplate.containers.head?.getD {}

/-- `GetResources().GetLimits()`. -/
def limitsOf (c : Container) : ResourceList := ((c.resources.getD {}).limits).getD {}

/-- What the form has no field for is as it was. -/
structure Unedited (d d' : Deployment) : Prop where
  volumes : d'.getTemplate.volumes = d.getTemplate.volumes
  minReplicas : d'.getSpec.minReplicas = d.getSpec.minReplicas
  maxReplicas : d'.getSpec.maxReplicas = d.getSpec.maxReplicas
  labels : ∀ k, k ≠ "app" → k ≠ linksToLabel →
    d'.getMetadata.labels.lookup k = d.getMetadata.labels.lookup k
  restartPolicy : d'.getTemplate.restartPolicy = d.getTemplate.restartPolicy
  accelerators : (mainContainer d').requests.accelerators = (mainContainer d).requests.accelerators
  limits : limitsOf (mainContainer d') = limitsOf (mainContainer d)
  security : getSecurityContext (mainContainer d') = getSecurityContext (mainContainer d)
  others : d'.getTemplate.containers.tail = d.getTemplate.containers.tail

/-- The security context of a container that asks for none, after admission. -/
def defaultSecurity (vs : List PackageValidator) : SecurityContext :=
  if vs.any secures then { seccompProfile := DefaultSeccompProfile } else {}

/-- None of it is set, its mounts apart: the bounds, other labels, a restart policy, accelerators,
limits, a security context beyond the default, and more containers. -/
structure Plain (vs : List PackageValidator) (d : Deployment) : Prop where
  minReplicas : d.getSpec.minReplicas = 0
  maxReplicas : d.getSpec.maxReplicas = 0
  labels : ∀ k, k ≠ "app" → k ≠ linksToLabel → d.getMetadata.labels.lookup k = none
  restartPolicy : d.getTemplate.restartPolicy = .unspecified
  accelerators : (mainContainer d).requests.accelerators = ∅
  limits : limitsOf (mainContainer d) = {}
  security : getSecurityContext (mainContainer d) = defaultSecurity vs
  others : d.getTemplate.containers.tail = []

section

variable (vs : List PackageValidator) (req : CreateDeploymentRequest) (volumes : List VolumeMount)

theorem getTemplate_edited :
    (edited vs req volumes).getTemplate =
      { containers := [if vs.any secures then withProfile req.container else req.container]
        volumes := volumes } := by
  simp only [edited, Deployment.getTemplate, Deployment.getSpec, Option.getD_some, admitted]
  split <;> rfl

theorem mainContainer_edited :
    mainContainer (edited vs req volumes) =
      if vs.any secures then withProfile req.container else req.container := by
  rw [mainContainer, getTemplate_edited]
  rfl

theorem resources_edited :
    (mainContainer (edited vs req volumes)).resources = req.container.resources := by
  rw [mainContainer_edited]
  split <;> rfl

theorem lookup_labels_edited {k : String} (happ : k ≠ "app") (hlinks : k ≠ linksToLabel) :
    (edited vs req volumes).getMetadata.labels.lookup k = none := by
  have hsel : req.selector.lookup k = none := by
    rw [CreateDeploymentRequest.selector, Finmap.lookup_insert_of_ne _ happ]
    exact Finmap.lookup_empty k
  change (if 0 < req.links.length then _ else _ : Dict String String).lookup k = none
  split
  · rw [Finmap.lookup_insert_of_ne _ hlinks, hsel]
  · exact hsel

theorem accelerators_edited :
    (mainContainer (edited vs req volumes)).requests.accelerators = ∅ := by
  rw [Container.requests, resources_edited]
  simp only [CreateDeploymentRequest.container]
  split <;> rfl

theorem limits_edited : limitsOf (mainContainer (edited vs req volumes)) = {} := by
  rw [limitsOf, resources_edited]
  simp only [CreateDeploymentRequest.container]
  split <;> rfl

theorem security_edited :
    getSecurityContext (mainContainer (edited vs req volumes)) = defaultSecurity vs := by
  rw [mainContainer_edited, defaultSecurity]
  split <;> rfl

/-- **An edit resets what the form has no field for.** -/
theorem unedited_iff (d : Deployment) :
    Unedited d (edited vs req volumes) ↔ Plain vs d ∧ volumes = d.getTemplate.volumes := by
  have htemplate := getTemplate_edited vs req volumes
  constructor
  · intro h
    refine ⟨⟨h.minReplicas.symm, h.maxReplicas.symm, fun k happ hlinks => ?_, ?_, ?_, ?_, ?_, ?_⟩,
      ?_⟩
    · rw [← h.labels k happ hlinks, lookup_labels_edited vs req volumes happ hlinks]
    · rw [← h.restartPolicy, htemplate]
    · rw [← h.accelerators, accelerators_edited]
    · rw [← h.limits, limits_edited]
    · rw [← h.security, security_edited]
    · rw [← h.others, htemplate]
      rfl
    · rw [← h.volumes, htemplate]
  · rintro ⟨h, hvol⟩
    refine ⟨?_, h.minReplicas.symm, h.maxReplicas.symm, fun k happ hlinks => ?_, ?_, ?_, ?_, ?_, ?_⟩
    · rw [htemplate, hvol]
    · rw [lookup_labels_edited vs req volumes happ hlinks, h.labels k happ hlinks]
    · rw [htemplate, h.restartPolicy]
    · rw [accelerators_edited, h.accelerators]
    · rw [limits_edited, h.limits]
    · rw [security_edited, h.security]
    · rw [htemplate, h.others]
      rfl

end

/-- The rest of what the form has no field for is as it was. -/
structure RestUnedited (d d' : Deployment) : Prop where
  uid : d'.getMetadata.uid = d.getMetadata.uid
  resourceVersion : d'.getMetadata.resourceVersion = d.getMetadata.resourceVersion
  createdAtUnix : d'.getMetadata.createdAtUnix = d.getMetadata.createdAtUnix
  selector : d'.getSpec.selector = d.getSpec.selector
  nodeName : d'.getTemplate.nodeName = d.getTemplate.nodeName
  wasmModulePath : (mainContainer d').wasmModulePath = (mainContainer d).wasmModulePath
  status : d'.status = d.status

/-- The rest is as the form makes it. -/
structure RestPlain (name : String) (d : Deployment) : Prop where
  uid : d.getMetadata.uid = ""
  resourceVersion : d.getMetadata.resourceVersion = ""
  createdAtUnix : d.getMetadata.createdAtUnix = 0
  selector : d.getSpec.selector = (∅ : Dict String String).insert "app" name
  nodeName : d.getTemplate.nodeName = ""
  wasmModulePath : (mainContainer d).wasmModulePath = ""
  status : d.status = none

theorem restUnedited_iff (vs : List PackageValidator) (req : CreateDeploymentRequest)
    (volumes : List VolumeMount) (d : Deployment) :
    RestUnedited d (edited vs req volumes) ↔ RestPlain req.name d := by
  have htemplate := getTemplate_edited vs req volumes
  have hwasm : (mainContainer (edited vs req volumes)).wasmModulePath = "" := by
    rw [mainContainer_edited]
    split <;> rfl
  constructor
  · intro h
    exact ⟨h.uid.symm, h.resourceVersion.symm, h.createdAtUnix.symm, h.selector.symm,
      by rw [← h.nodeName, htemplate], by rw [← h.wasmModulePath, hwasm], h.status.symm⟩
  · intro h
    exact ⟨h.uid.symm, h.resourceVersion.symm, h.createdAtUnix.symm, h.selector.symm,
      by rw [htemplate, h.nodeName], by rw [hwasm, h.wasmModulePath], h.status.symm⟩

/-- **When an edit changes only what the form edits.**  After an edit that asks for no storage and
is accepted, by any chain of the validators, the stored deployment is as it was in what the form has
no field for exactly if none of it was set, and its mounts could be read or there were none. -/
theorem edit_keeps_iff (t : Texts) (vs : List PackageValidator) (csi : CsiController)
    (readable : Bool) (req : CreateDeploymentRequest) (s s' : State) (d : Deployment)
    (created : Created) (hp : req.addPersistentStorage = false)
    (hd : (s .deployments).lookup (path req.withDefaults.ns req.name) = some d)
    (h : (handleCreateDeployment (packageChain t vs) csi (.ok req)).Runs (serveReading readable) s
      (.ok (.ok created)) s') :
    ∃ d', (s' .deployments).lookup (path req.withDefaults.ns req.name) = some d' ∧
      (Unedited d d' ↔ Plain vs d ∧ (readable = true ∨ d.getTemplate.volumes = [])) ∧
      (RestUnedited d d' ↔ RestPlain req.name d) := by
  refine ⟨_, edit_outcome hp hd h, ?_, restUnedited_iff vs req.withDefaults _ d⟩
  rw [unedited_iff]
  refine and_congr_right fun _ => ?_
  cases readable with
  | true => simp
  | false =>
    simp only [Bool.false_eq_true, if_false, false_or]
    exact eq_comm

/-- The form, filled in with a name and an image. -/
def webForm : CreateDeploymentRequest := { name := "web", image := "nginx" }

/-- A deployment as the form makes it. -/
def webDeployment : Deployment := edited [] webForm.withDefaults []

/-- A deployment with bounds, a label, limits and a second container. -/
def richDeployment : Deployment :=
  { metadata := some
      { name := "web", ns := "default", labels := (∅ : Dict String String).insert "team" "core" }
    spec := some
      { replicas := 3
        minReplicas := 2
        maxReplicas := 5
        template := some
          { containers :=
              [{ name := "web", image := "nginx",
                 resources := some { limits := some { cpuMillis := 500 } } },
               { name := "proxy", image := "envoy" }]
            restartPolicy := .never } } }

/-- A store with one deployment. -/
def holding (d : Deployment) : State :=
  State.empty.set .deployments ((∅ : Dict String Deployment).insert "default/web" d)

/-- The form is sent, with no validators in the chain. -/
def sendForm : Reg (Except HttpError Created) :=
  handleCreateDeployment (packageChain ⟨id, fun _ => ""⟩ [])
    ⟨fun _ _ => .error "", fun _ => .error ""⟩ (.ok webForm)

/-- The handler has answered with what it created. -/
def accepted : Except Stop (Except HttpError Created) → Bool
  | .ok (.ok _) => true
  | _ => false

/-- What can be performed with no pods to list is a run. -/
theorem exists_accepted {s : State}
    (h : (Prog.perform (fun c => Registry.resolve c []) sendForm s).any (fun x => accepted x.1) =
      true) : ∃ created s', sendForm.Runs (serveReading true) s (.ok (.ok created)) s' := by
  obtain ⟨r, s', hrun, hr⟩ := exists_of_perform (H := serveReading true)
    (fun c s x s' hc => ⟨serveOrFail_of_resolve c [] s x s' hc,
      fun _ _ _ => serve_of_resolve c [] s x s' hc⟩) h
  rcases r with e | e | created
  · cases hr
  · cases hr
  · exact ⟨created, s', hrun⟩

/-- What the form made is left as it is. -/
theorem edit_keeps_iff_web :
    ∃ created s' d', sendForm.Runs (serveReading true) (holding webDeployment)
        (.ok (.ok created)) s' ∧
      (s' .deployments).lookup (path webForm.withDefaults.ns webForm.name) = some d' ∧
      Unedited webDeployment d' ∧ RestUnedited webDeployment d' := by
  have hrun : ∃ created s', sendForm.Runs (serveReading true) (holding webDeployment)
      (.ok (.ok created)) s' := exists_accepted (by decide +kernel)
  obtain ⟨created, s', hrun⟩ := hrun
  have hd : (holding webDeployment .deployments).lookup
      (path webForm.withDefaults.ns webForm.name) = some webDeployment := by decide +kernel
  have hplain : Plain [] webDeployment :=
    ((unedited_iff [] webForm.withDefaults [] webDeployment).mp
    ⟨rfl, rfl, rfl, fun _ _ _ => rfl, rfl, rfl, rfl, rfl, rfl⟩).1
  obtain ⟨d', hd', hkeeps, hrest⟩ :=
    edit_keeps_iff _ _ _ true webForm _ s' webDeployment created rfl hd hrun
  exact ⟨created, s', d', hrun, hd', hkeeps.mpr ⟨hplain, .inl rfl⟩,
    hrest.mpr ⟨rfl, rfl, rfl, rfl, rfl, rfl, rfl⟩⟩

/-- The form is saved for a deployment that has bounds, a label of its own, limits, a restart policy
and a second container, and all of these are gone. -/
theorem edit_resets :
    ∃ created s' d', sendForm.Runs (serveReading true) (holding richDeployment)
        (.ok (.ok created)) s' ∧
      (s' .deployments).lookup "default/web" = some d' ∧
      d'.getSpec.minReplicas ≠ richDeployment.getSpec.minReplicas ∧
      d'.getSpec.maxReplicas ≠ richDeployment.getSpec.maxReplicas ∧
      d'.getMetadata.label "team" ≠ richDeployment.getMetadata.label "team" ∧
      d'.getTemplate.restartPolicy ≠ richDeployment.getTemplate.restartPolicy ∧
      limitsOf (mainContainer d') ≠ limitsOf (mainContainer richDeployment) ∧
      d'.getTemplate.containers.tail ≠ richDeployment.getTemplate.containers.tail := by
  have hrun : ∃ created s', sendForm.Runs (serveReading true) (holding richDeployment)
      (.ok (.ok created)) s' := exists_accepted (by decide +kernel)
  obtain ⟨created, s', hrun⟩ := hrun
  have hd : (holding richDeployment .deployments).lookup
      (path webForm.withDefaults.ns webForm.name) = some richDeployment := by decide +kernel
  have hpath : path webForm.withDefaults.ns webForm.name = "default/web" := by decide +kernel
  have hstored := edit_outcome (rfl : webForm.addPersistentStorage = false) hd hrun
  rw [hpath] at hstored
  exact ⟨created, s', _, hrun, hstored, by decide +kernel⟩

end NimbusCore.Dashboard
