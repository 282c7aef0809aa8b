import NimbusCore.Admission.Volume

/-!
# Admission — the validators

`internal/admission/{security,image,quota,policy}.go` and `internal/policy/engine.go`.

* `securityContextPolicy` fills in the default seccomp profile, and refuses what is privileged, may
  escalate, or asks for a capability that is not allowed.  It changes the containers up to the one
  that it refuses.
* `imageSignaturePolicy` asks a verifier about the image of every container.
* `quotaPolicy` adds what is requested to what the pods of the namespace request.
* `policyValidator` evaluates every stored policy on a view of the pod.  The expression language is
  not of this repository (`Engine`); the cache of compiled expressions is left out, for an
  expression compiles to one program.

`PackageValidator` is any of the validators of the package, these and the two for volumes.  A chain
of them that holds one which establishes something, and whose others keep it, establishes it
(`establishes_chainAdmit`).
-/

namespace NimbusCore.Admission

open Api Registry Prog List

/-- `req.Spec.GetContainers()`. -/
def Request.containers (req : Request) : List Container := (req.spec.getD {}).containers

/-- How texts are put together: what `%q` makes of a string, and the text of an error. -/
structure Texts where
  quote : String → String
  errorText : RegistryError → String

/-! ### The security context -/

/-- `DefaultSeccompProfile`. -/
def DefaultSeccompProfile : String := "RuntimeDefault"

/-- `c.GetSecurityContext()`. -/
def getSecurityContext (c : Container) : SecurityContext := c.securityContext.getD {}

/-- The container with a security context, and a seccomp profile in it. -/
def withProfile (c : Container) : Container :=
  let sc := getSecurityContext c
  { c with
    securityContext := some
      (if sc.seccompProfile = "" then { sc with seccompProfile := DefaultSeccompProfile } else sc) }

/-- What is refused of a container. -/
def refusal (quote : String → String) (allowed : List String) (c : Container) : Option String :=
  if (getSecurityContext c).privileged then
    some ("container " ++ quote c.name ++ ": privileged containers are not permitted")
  else if (getSecurityContext c).allowPrivilegeEscalation then
    some ("container " ++ quote c.name ++ ": privilege escalation is not permitted")
  else
    ((getSecurityContext c).addCapabilities.find? (· ∉ allowed)).map fun cap =>
      "container " ++ quote c.name ++ ": capability " ++ quote cap ++
        " is not in the cluster's allowlist"

/-- The loop of `SecurityContextPolicy.Admit`: the containers as they become, and the error. -/
def secureLoop (quote : String → String) (allowed : List String) :
    List Container → List Container × Option String
  | [] => ([], none)
  | c :: cs =>
    match refusal quote allowed (withProfile c) with
    | some err => (withProfile c :: cs, some err)
    | none =>
      let (cs, err) := secureLoop quote allowed cs
      (withProfile c :: cs, err)

/-- `SecurityContextPolicy.Admit`. -/
def securityContextPolicy (quote : String → String) (allowed : List String) :
    Validator := fun req =>
  let (cs, err) := secureLoop quote allowed req.containers
  return ({ req with spec := req.spec.map fun spec => { spec with containers := cs } }, err)

/-! ### Images -/

/-- `ImageVerifier.Verify`: the error it returns. -/
abbrev ImageVerifier := String → Option String

/-- The loop of `ImageSignaturePolicy.Admit`. -/
def verifyLoop (quote : String → String) (verify : ImageVerifier) : List Container → Option String
  | [] => none
  | c :: cs =>
    match verify c.image with
    | some err =>
      some ("container " ++ quote c.name ++ ": image " ++ quote c.image ++ ": " ++ err)
    | none => verifyLoop quote verify cs

/-- `ImageSignaturePolicy.Admit`. -/
def imageSignaturePolicy (quote : String → String) (verify : ImageVerifier) :
    Validator := fun req =>
  return (req, verifyLoop quote verify req.containers)

/-! ### The quota -/

/-- The CPU and memory requests of some containers, added up. -/
def requestSums (cs : List Container) : Int64 × Int64 :=
  cs.foldl (fun (cpu, mem) c => (cpu + c.requests.cpuMillis, mem + c.requests.memoryBytes)) (0, 0)

/-- The requests of the pods that exist. -/
def usedSums (existing : List Pod) : Int64 × Int64 :=
  requestSums (existing.flatMap fun pod => pod.getSpec.containers)

/-- The requests of the replicas that are asked for. -/
def Request.sums (req : Request) : Int64 × Int64 :=
  let (cpu, mem) := requestSums req.containers
  (cpu * req.replicas.toInt64, mem * req.replicas.toInt64)

/-- What the quota refuses. -/
def overQuota (t : Texts) (quota : ResourceList) (existing : List Pod) (req : Request) :
    Option String :=
  let (usedCPU, usedMem) := usedSums existing
  let (reqCPU, reqMem) := req.sums
  if 0 < quota.cpuMillis ∧ quota.cpuMillis < usedCPU + reqCPU then
    some ("namespace " ++ t.quote req.ns ++ " would exceed its CPU quota (" ++ toString usedCPU ++
      " existing + " ++ toString reqCPU ++ " requested > " ++ toString quota.cpuMillis ++
      " millicores)")
  else if 0 < quota.memoryBytes ∧ quota.memoryBytes < usedMem + reqMem then
    some ("namespace " ++ t.quote req.ns ++ " would exceed its memory quota (" ++
      toString usedMem ++ " existing + " ++ toString reqMem ++ " requested > " ++
      toString quota.memoryBytes ++ " bytes)")
  else none

/-- `QuotaPolicy.Admit`. -/
def quotaPolicy (t : Texts) (quota : ResourceList) : Validator := fun req => do
  if quota.cpuMillis ≤ 0 ∧ quota.memoryBytes ≤ 0 then return (req, none)
  else
    match ← Registry.list .pods req.ns with
    | .error err =>
      return (req, some ("quota: list existing pods in " ++ t.quote req.ns ++ ": " ++
        t.errorText err))
    | .ok existing => return (req, overQuota t quota existing req)

/-! ### Policies -/

/-- What `PodView` shows of a container. -/
structure ContainerView where
  name : String
  image : String
  privileged : Bool
  deriving DecidableEq

/-- What `PodView` returns. -/
structure View where
  ns : String
  labels : Dict String String
  containers : List ContainerView
  deriving DecidableEq

/-- `PodView`. -/
def podView (ns : String) (labels : Dict String String) (spec : PodSpec) : View where
  ns := ns
  labels := labels
  containers := spec.containers.map fun c =>
    { name := c.name, image := c.image, privileged := (getSecurityContext c).privileged }

/-- A value of the expression language: a Boolean, or one of another type. -/
inductive Value where
  | bool (b : Bool)
  | other (type : String)

/-- A compiled expression: `cel.Program.Eval`. -/
abbrev Program := View → Except String Value

/-- `policy.Engine`: `Compile`. -/
structure Engine where
  compile : String → Except String Program

/-- `Engine.Evaluate`. -/
def evaluate (prg : Program) (view : View) : Except String Bool :=
  match prg view with
  | .error err => .error ("policy: evaluate: " ++ err)
  | .ok (.bool b) => .ok b
  | .ok (.other type) => .error ("policy: expression must evaluate to a bool, got " ++ type)

/-- What a policy says of a view. -/
def Engine.judge (engine : Engine) (pol : Policy) (view : View) : Except String Bool :=
  match engine.compile pol.getSpec.expression with
  | .error err => .error err
  | .ok prg => evaluate prg view

/-- The loop of `PolicyValidator.Admit`. -/
def policyLoop (quote : String → String) (engine : Engine) (view : View) :
    List Policy → Option String
  | [] => none
  | pol :: policies =>
    match engine.judge pol view with
    | .error err => some ("policy " ++ quote pol.getMetadata.name ++ ": " ++ err)
    | .ok false =>
      some (if pol.getSpec.message = "" then "denied by policy " ++ quote pol.getMetadata.name
        else pol.getSpec.message)
    | .ok true => policyLoop quote engine view policies

/-- `PolicyValidator.Admit`. -/
def policyValidator (t : Texts) (engine : Engine) : Validator := fun req => do
  match ← Registry.list .policies "" with
  | .error err => return (req, some ("policy: list policies: " ++ t.errorText err))
  | .ok policies =>
    return (req, policyLoop t.quote engine (podView req.ns req.labels (req.spec.getD {})) policies)

/-! ### The validators of the package -/

/-- A validator of the package. -/
inductive PackageValidator where
  | securityContext (allowed : List String)
  | imageSignature (verify : ImageVerifier)
  | quota (limits : ResourceList)
  | policy (engine : Engine)
  | volumeReplicas
  | volumeOwnership

/-- Its `Admit`. -/
def PackageValidator.validator (t : Texts) : PackageValidator → Validator
  | .securityContext allowed => securityContextPolicy t.quote allowed
  | .imageSignature verify => imageSignaturePolicy t.quote verify
  | .quota limits => quotaPolicy t limits
  | .policy engine => policyValidator t engine
  | .volumeReplicas => volumeReplicasPolicy
  | .volumeOwnership => volumeOwnershipPolicy t.quote

/-- A chain of them. -/
def packageChain (t : Texts) (vs : List PackageValidator) : List Validator :=
  vs.map (PackageValidator.validator t)

/-! ### What they establish -/

/-- The validator only reads, and what it admits is in `Q` afterwards, if what it reads is in
`A`. -/
def Establishes (A : (c : Cmd) → c.Answer → Prop) (Q : Request → Prop) (v : Validator) : Prop :=
  ∀ req, (v req).Ensures A Cmd.Reads fun r => r.2 = none → Q r.1

/-- The validator only reads, and what is in `Q` stays in `Q`. -/
def Keeps (Q : Request → Prop) (v : Validator) : Prop :=
  ∀ req, Q req → (v req).Ensures (fun _ _ => True) Cmd.Reads fun r => Q r.1

variable {v : Validator} {req : Request}

section

variable {A : (c : Cmd) → c.Answer → Prop} {Q : Request → Prop} {validators : List Validator}

theorem Keeps.ensures (h : Keeps Q v) (hreq : Q req) : (v req).Ensures A Cmd.Reads fun r => Q r.1 :=
  (h req hreq).mono (fun _ _ _ => trivial) (fun _ hc => hc) fun _ hr => hr

theorem keeps_admitLoop (h : ∀ v ∈ validators, Keeps Q v) (hreq : Q req) :
    (admitLoop validators req).Ensures A Cmd.Reads fun r => Q r.1 := by
  induction validators generalizing req with
  | nil => exact hreq
  | cons v vs ih =>
    obtain ⟨hv, hvs⟩ := forall_mem_cons.mp h
    refine Ensures.bind (hv.ensures hreq) fun r hr => ?_
    obtain ⟨req', _ | err⟩ := r
    · exact ih hvs hr
    · exact hr

/-- **What one of the validators establishes and the others keep**, the chain establishes. -/
theorem establishes_admitLoop (hkeep : ∀ v ∈ validators, Keeps Q v)
    (hreads : ∀ v ∈ validators, Keeps (fun _ => True) v) (hv : v ∈ validators)
    (hest : Establishes A Q v) (req : Request) :
    (admitLoop validators req).Ensures A Cmd.Reads fun r => r.2 = none → Q r.1 := by
  induction validators generalizing req with
  | nil => cases hv
  | cons w vs ih =>
    obtain ⟨hw, hvs⟩ := forall_mem_cons.mp hkeep
    obtain ⟨hwr, hvsr⟩ := forall_mem_cons.mp hreads
    rcases mem_cons.mp hv with rfl | hv
    · refine Ensures.bind (hest req) fun r hr => ?_
      obtain ⟨req', _ | err⟩ := r
      · exact (keeps_admitLoop hvs (hr rfl)).mono (fun _ _ h => h) (fun _ h => h)
          fun r hr (_ : r.2 = none) => hr
      · exact fun h => by cases h
    · refine Ensures.bind (hwr.ensures trivial) fun r _ => ?_
      obtain ⟨req', _ | err⟩ := r
      · exact ih hvs hvsr hv req'
      · exact fun h => by cases h

theorem establishes_chainAdmit (hkeep : ∀ v ∈ validators, Keeps Q v)
    (hreads : ∀ v ∈ validators, Keeps (fun _ => True) v) (hv : v ∈ validators)
    (hest : Establishes A Q v) (req : Request) :
    (chainAdmit validators req).Ensures A Cmd.Reads fun r => r.2 = none → Q r.1 :=
  establishes_admitLoop hkeep hreads hv hest _

end

/-! ### One by one -/

/-- The request is the same, but for the security contexts of its containers. -/
inductive Hardens (req : Request) : Request → Prop
  | refl : Hardens req req
  | secured (quote : String → String) (allowed : List String) :
      Hardens req { req with spec := req.spec.map fun spec =>
        { spec with containers := (secureLoop quote allowed req.containers).1 } }

/-- **What a validator of the package does to a request**: nothing, or it hardens its containers. -/
theorem hardens_validator (t : Texts) (v : PackageValidator) (req : Request) :
    (v.validator t req).Ensures (fun _ _ => True) Cmd.Reads fun r => Hardens req r.1 := by
  cases v with
  | securityContext allowed => exact Hardens.secured t.quote allowed
  | imageSignature verify => exact Hardens.refl
  | quota limits =>
    simp only [PackageValidator.validator, quotaPolicy]
    split
    · exact Hardens.refl
    · refine ensures_ask_bind.mpr ⟨rfl, fun x _ => ?_⟩
      cases x <;> exact Hardens.refl
  | policy engine =>
    refine ensures_ask_bind.mpr ⟨rfl, fun x _ => ?_⟩
    cases x <;> exact Hardens.refl
  | volumeReplicas =>
    simp only [PackageValidator.validator, volumeReplicasPolicy]
    split
    · exact Hardens.refl
    · split <;> exact Hardens.refl
  | volumeOwnership =>
    exact Ensures.bind (reads_ownershipLoop t.quote ..) fun _ _ => Hardens.refl

variable {Q : Request → Prop}

theorem keeps_validator (hQ : ∀ req req', Hardens req req' → Q req → Q req')
    (t : Texts) (v : PackageValidator) : Keeps Q (v.validator t) := fun req hreq =>
  (hardens_validator t v req).mono (fun _ _ h => h) (fun _ h => h) fun r h => hQ req r.1 h hreq

theorem keeps_packageChain (hQ : ∀ req req', Hardens req req' → Q req → Q req')
    {t : Texts} {vs : List PackageValidator} : ∀ v ∈ packageChain t vs, Keeps Q v := by
  intro w hw
  obtain ⟨w, -, rfl⟩ := mem_map.mp hw
  exact keeps_validator hQ t w

/-- **Admission only reads.** -/
theorem reads_packageChain (t : Texts) (vs : List PackageValidator) (req : Request) :
    (chainAdmit (packageChain t vs) req).Ensures (fun _ _ => True) Cmd.Reads fun _ => True :=
  keeps_admitLoop (Q := fun _ => True) (keeps_packageChain fun _ _ _ h => h) trivial

variable {A : (c : Cmd) → c.Answer → Prop}

/-- **What hardening keeps and one of the validators establishes**, a chain establishes. -/
theorem establishes_packageChain
    (hQ : ∀ req req', Hardens req req' → Q req → Q req') {t : Texts} {vs : List PackageValidator}
    {v : PackageValidator} (hv : v ∈ vs) (hest : Establishes A Q (v.validator t)) (req : Request) :
    (chainAdmit (packageChain t vs) req).Ensures A Cmd.Reads fun r => r.2 = none → Q r.1 :=
  establishes_chainAdmit (keeps_packageChain hQ) (keeps_packageChain fun _ _ _ h => h)
    (mem_map.mpr ⟨v, hv, rfl⟩) hest req

/-! ### Images that were verified -/

/-- The verifier accepts the image of every container. -/
def Verified (verify : ImageVerifier) (cs : List Container) : Prop :=
  ∀ c ∈ cs, verify c.image = none

variable {quote : String → String} {verify : ImageVerifier}

theorem verifyLoop_eq_none_iff :
    ∀ {cs : List Container}, verifyLoop quote verify cs = none ↔ Verified verify cs
  | [] => by simp [verifyLoop, Verified]
  | c :: cs => by
    rw [Verified, forall_mem_cons, verifyLoop]
    cases hc : verify c.image with
    | some err => simp
    | none =>
      have ih : verifyLoop quote verify cs = none ↔ Verified verify cs := verifyLoop_eq_none_iff
      simpa [Verified] using ih

/-- What does not depend on the security contexts, the security policy does not change. -/
theorem map_secureLoop {β : Type} {f : Container → β} (hf : ∀ c, f (withProfile c) = f c)
    (quote : String → String) (allowed : List String) :
    ∀ cs, (secureLoop quote allowed cs).1.map f = cs.map f
  | [] => rfl
  | c :: cs => by
    rw [secureLoop]
    split
    · rw [map_cons, hf, map_cons]
    · rw [map_cons, hf, map_secureLoop hf quote allowed cs, map_cons]

theorem verified_iff {cs : List Container} :
    Verified verify cs ↔ ∀ i ∈ cs.map fun c => c.image, verify i = none := by
  simp [Verified]

theorem containers_secured (req : Request) (cs : List Container) (h : req.spec = none → cs = []) :
    ({ req with spec := req.spec.map fun spec => { spec with containers := cs } } :
      Request).containers = cs := by
  cases hs : req.spec with
  | none => simp [Request.containers, h hs]
  | some spec => simp [Request.containers]

theorem containers_hardens_secured (req : Request) (quote : String → String)
    (allowed : List String) :
    ({ req with spec := req.spec.map fun spec =>
        { spec with containers := (secureLoop quote allowed req.containers).1 } } :
      Request).containers = (secureLoop quote allowed req.containers).1 := by
  refine containers_secured req _ fun hs => ?_
  simp [Request.containers, hs, secureLoop]

/-- Hardening leaves the images. -/
theorem Hardens.verified {req' : Request} (h : Hardens req req')
    (hreq : Verified verify req.containers) : Verified verify req'.containers := by
  cases h with
  | refl => exact hreq
  | secured quote allowed =>
    rw [containers_hardens_secured, verified_iff, map_secureLoop fun _ => rfl, ← verified_iff]
    exact hreq

theorem establishes_imageSignature (t : Texts) (verify : ImageVerifier) :
    Establishes A (fun req => Verified verify req.containers)
      ((PackageValidator.imageSignature verify).validator t) :=
  fun req => show verifyLoop t.quote verify req.containers = none →
    Verified verify req.containers from
    verifyLoop_eq_none_iff.mp

/-! ### Containers that are confined -/

/-- What the security policy asks of a container. -/
structure Confined (allowed : List String) (c : Container) : Prop where
  profile : (getSecurityContext c).seccompProfile ≠ ""
  unprivileged : (getSecurityContext c).privileged = false
  noEscalation : (getSecurityContext c).allowPrivilegeEscalation = false
  capabilities : ∀ cap ∈ (getSecurityContext c).addCapabilities, cap ∈ allowed

variable {allowed : List String} {c : Container}

theorem refusal_eq_none_iff :
    refusal quote allowed c = none ↔ (getSecurityContext c).privileged = false ∧
      (getSecurityContext c).allowPrivilegeEscalation = false ∧
      ∀ cap ∈ (getSecurityContext c).addCapabilities, cap ∈ allowed := by
  rw [refusal]
  split
  · next h => simp [h]
  · next h =>
    split
    · next h' => simp [h']
    · next h' => simp [h, h']

theorem getSecurityContext_withProfile (c : Container) :
    getSecurityContext (withProfile c) =
      if (getSecurityContext c).seccompProfile = "" then
        { getSecurityContext c with seccompProfile := DefaultSeccompProfile }
      else getSecurityContext c := rfl

theorem profile_withProfile (c : Container) :
    (getSecurityContext (withProfile c)).seccompProfile ≠ "" := by
  rw [getSecurityContext_withProfile]
  split
  · change DefaultSeccompProfile ≠ ""
    decide
  · next h => exact h

theorem confined_withProfile
    (h : refusal quote allowed (withProfile c) = none) : Confined allowed (withProfile c) := by
  obtain ⟨hp, he, hc⟩ := refusal_eq_none_iff.mp h
  exact ⟨profile_withProfile c, hp, he, hc⟩

/-- A container that has a profile is left as it is, as far as its security context is read. -/
theorem Confined.withProfile (h : Confined allowed c) : Confined allowed (withProfile c) := by
  have hsc : getSecurityContext (Admission.withProfile c) = getSecurityContext c :=
    if_neg h.profile
  exact ⟨hsc ▸ h.profile, hsc ▸ h.unprivileged, hsc ▸ h.noEscalation, hsc ▸ h.capabilities⟩

/-- **What the security policy admits is confined.** -/
theorem confined_secureLoop :
    ∀ {cs : List Container}, (secureLoop quote allowed cs).2 = none →
      ∀ c ∈ (secureLoop quote allowed cs).1, Confined allowed c
  | [], _ => by simp [secureLoop]
  | c :: cs, h => by
    rw [secureLoop] at h ⊢
    cases hc : refusal quote allowed (withProfile c) with
    | some err => simp [hc] at h
    | none =>
      simp only [hc] at h ⊢
      exact forall_mem_cons.mpr ⟨confined_withProfile hc, confined_secureLoop h⟩

/-- What is confined by one allowlist stays so under another. -/
theorem Confined.secureLoop {allowed' : List String} :
    ∀ {cs : List Container}, (∀ c ∈ cs, Confined allowed c) →
      ∀ c ∈ (secureLoop quote allowed' cs).1, Confined allowed c
  | [], _ => by simp [Admission.secureLoop]
  | c :: cs, h => by
    obtain ⟨hc, hcs⟩ := forall_mem_cons.mp h
    rw [Admission.secureLoop]
    split
    · exact forall_mem_cons.mpr ⟨hc.withProfile, hcs⟩
    · exact forall_mem_cons.mpr ⟨hc.withProfile, Confined.secureLoop hcs⟩

theorem Hardens.confined {req' : Request} (h : Hardens req req')
    (hreq : ∀ c ∈ req.containers, Confined allowed c) :
    ∀ c ∈ req'.containers, Confined allowed c := by
  cases h with
  | refl => exact hreq
  | secured quote allowed' =>
    rw [containers_hardens_secured]
    exact Confined.secureLoop hreq

theorem establishes_securityContext (t : Texts) (allowed : List String) :
    Establishes A (fun req => ∀ c ∈ req.containers, Confined allowed c)
      ((PackageValidator.securityContext allowed).validator t) := by
  intro req
  change (secureLoop t.quote allowed req.containers).2 = none → _
  intro h
  rw [containers_hardens_secured]
  exact confined_secureLoop h

end NimbusCore.Admission
