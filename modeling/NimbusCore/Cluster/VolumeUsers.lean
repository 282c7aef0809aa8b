import Mathlib.Order.ConditionallyCompleteLattice.Basic
import NimbusCore.Cluster.VolumeClaims

/-!
# Cluster — users of volumes

A deployment uses the volumes of its template, and so do the pods that carry its name (`Uses`).  The
ownership policy looks for the owner of a volume, which is recorded only when a pass claims the
volume for the node of a pod: until then every deployment is let through.

* `volumes_exclusive`: the pods that are assigned to nodes and mount one volume have one owner, if a
  volume that another deployment uses carries the owner label when a deployment is admitted
  (`ClaimedFirst`).
* `volume_shared`: two deployments that are admitted before the first pass share a volume.
-/

namespace NimbusCore.Cluster

open Api Registry Admission Apiserver Prog
open Controller Dashboard EventLoop

/-! ### Users -/

/-- The volume is mounted. -/
def Mounts (spec : PodSpec) (v : String) : Prop := ∃ m ∈ spec.volumes, m.volumeName = v

instance (spec : PodSpec) (v : String) : Decidable (Mounts spec v) :=
  inferInstanceAs (Decidable (∃ m ∈ _, _))

/-- Who uses which volume of which namespace. -/
abbrev Users := (ns v o : String) → Prop

/-- The deployment, as a user of the volumes of its template. -/
def deploymentUses (d : Deployment) : Users := fun ns v o =>
  d.getMetadata.ns = ns ∧ d.getMetadata.name = o ∧ Mounts d.getTemplate v

/-- The owner of the pod, as a user of the volumes of the pod. -/
def podUses (p : Pod) : Users := fun ns v o =>
  p.getMetadata.ns = ns ∧ p.getMetadata.label OwnerDeploymentLabel = o ∧ o ≠ "" ∧ Mounts p.getSpec v

/-- The users in a state. -/
def Uses (s : State) : Users := fun ns v o =>
  (∃ k d, (s .deployments).lookup k = some d ∧ deploymentUses d ns v o) ∨
    ∃ k p, (s .pods).lookup k = some p ∧ podUses p ns v o

/-- No volume has two users. -/
def Exclusive (U : Users) : Prop := ∀ ns v o o', U ns v o → U ns v o' → o = o'

variable {U : Users}

theorem Exclusive.mono {U' : Users} (h : Exclusive U) (hle : U' ≤ U) : Exclusive U' :=
  fun ns v o o' ho ho' => h ns v o o' (hle ns v o ho) (hle ns v o' ho')

/-- Nobody else makes a new user. -/
def NoNewUsers (s s' : State) : Prop := Uses s' ≤ Uses s

/-- No other name uses the volume. -/
def Sole (s : State) (ns v name : String) : Prop := ∀ o, Uses s ns v o → o = name

variable {s s' : State} {ns name : String}

theorem Sole.mono {v : String} (h : Sole s ns v name) (hle : Uses s' ≤ Uses s) :
    Sole s' ns v name :=
  fun o ho => h o (hle ns v o ho)

/-- The name of the deployment that a call makes. -/
def deploys : ClusterCall → Option String
  | .createDeployment d => some d.getMetadata.name
  | .dashboardCreate _ (.ok req) => some req.name
  | _ => none

/-- **Claims come first**: when the volumes of a deployment are read on its admission, a volume that
another name uses is read, and carries the label of another owner.  Pods that are made by themselves
carry no owner label. -/
def ClaimedFirst : Guard ClusterCall Cmd Cmd.Answer State where
  takes _ e _ := match e with
    | .createPod pod => pod.getMetadata.label OwnerDeploymentLabel = ""
    | _ => True
  allows _ e c x s := match c, x with
    | .get .volumes ns v, x => ∀ name ∈ deploys e, ¬ Sole s ns v name →
      ∃ vol, x = .ok vol ∧ OwnedByOther name vol
    | _, _ => True

/-! ### What a command adds -/

/-- The users that a command adds. -/
def brings : Cmd → Users
  | .put .pods _ _ p => podUses p
  | .put .deployments _ _ d => deploymentUses d
  | _ => ⊥

variable {c : Cmd} {x : c.Answer}

/-- **A command adds no other users** than those of what it puts. -/
theorem uses_le (h : serveOrFail c s x s') : Uses s' ≤ Uses s ⊔ brings c := by
  rintro ns v o (⟨k, d, hl, hu⟩ | ⟨k, p, hl, hu⟩)
  · rw [serveOrFail_post h, lookup_effect] at hl
    cases hw : c.writesAt .deployments k x with
    | none => rw [hw] at hl; exact .inl (.inl ⟨k, d, hl, hu⟩)
    | some w =>
      rw [hw] at hl
      obtain rfl : w = some d := hl
      obtain ⟨ns', name', -, rfl⟩ := put_of_writesAt hw
      exact .inr hu
  · rw [serveOrFail_post h, lookup_effect] at hl
    cases hw : c.writesAt .pods k x with
    | none => rw [hw] at hl; exact .inl (.inr ⟨k, p, hl, hu⟩)
    | some w =>
      rw [hw] at hl
      obtain rfl : w = some p := hl
      obtain ⟨ns', name', -, rfl⟩ := put_of_writesAt hw
      exact .inr hu

theorem brings_of_reads (h : c.Reads) (U : Users) : brings c ≤ U := by
  cases c with
  | get k ns name => exact bot_le
  | list k ns => exact bot_le
  | put k ns name obj => cases h
  | delete k ns name => cases h

theorem brings_of_volumes (h : c.OnlyWrites .volumes) (U : Users) : brings c ≤ U := by
  cases c with
  | get k ns name => exact bot_le
  | list k ns => exact bot_le
  | put k ns name obj => cases h k rfl; exact bot_le
  | delete k ns name => exact bot_le

theorem brings_of_retires (h : Retires c) (U : Users) : brings c ≤ U := by
  rcases h with h | ⟨ns, name, rfl | rfl⟩
  · exact brings_of_reads h U
  · exact bot_le
  · exact bot_le

theorem podUses_congr {p q : Pod} (hm : q.getMetadata = p.getMetadata)
    (hv : q.getSpec.volumes = p.getSpec.volumes) : podUses q = podUses p := by
  funext ns v o
  rw [podUses, podUses, Mounts, Mounts, hm, hv]

theorem volumes_assign (nodeName : String) (p : Pod) :
    (assign nodeName p).getSpec.volumes = p.getSpec.volumes := by
  simp only [assign]
  split <;> rfl

/-- A pod that is made uses what its deployment uses. -/
theorem podUses_created (d : Deployment) (node : String) (i : Nat) :
    podUses (created d node i) ≤ deploymentUses d := by
  have hnew : podUses (newPod d i) ≤ deploymentUses d := by
    rintro ns v o ⟨hns, hlabel, -, hm⟩
    exact ⟨hns, (ownedBy_newPod d i).symm.trans hlabel, hm⟩
  rw [created]
  split
  · exact hnew
  · exact (podUses_congr (p := newPod d i) rfl rfl).trans_le hnew

/-! ### Programs that add no users -/

/-- What is answered in a state with these users. -/
def AnswersFrom (U : Users) : (c : Cmd) → c.Answer → Prop
  | .list .pods _, .ok all => ∀ p ∈ all, podUses p ≤ U
  | .list .deployments _, .ok all => ∀ d ∈ all, deploymentUses d ≤ U
  | .get .deployments _ _, .ok d => deploymentUses d ≤ U
  | _, _ => True

theorem answersFrom_of_serve (hs : Uses s ≤ U) (h : serveOrFail c s x s') : AnswersFrom U c x := by
  rcases c with ⟨k, ns, name⟩ | _ | _ | ⟨k, ns⟩
  · rcases x with err | obj
    · cases k <;> trivial
    cases k with
    | deployments => exact fun ns' v o hu => hs ns' v o (.inl ⟨_, _, lookup_of_get h, hu⟩)
    | _ => trivial
  · trivial
  · trivial
  · rcases x with err | all
    · cases k <;> trivial
    cases k with
    | pods =>
      intro p hp ns' v o hu
      obtain ⟨k, -, hl⟩ := (mem_of_list h).mp hp
      exact hs ns' v o (.inr ⟨k, p, hl, hu⟩)
    | deployments =>
      intro d hd ns' v o hu
      obtain ⟨k, -, hl⟩ := (mem_of_list h).mp hd
      exact hs ns' v o (.inl ⟨k, d, hl, hu⟩)
    | _ => trivial

variable {d : Deployment}

section

variable {U : Users}

theorem schedules_users (ns : String) (Q : Pod → Prop) :
    Schedules ns Q (AnswersFrom U) (fun c => brings c ≤ U) (fun p => podUses p ≤ U)
      fun p => podUses p ≤ U where
  reads _ hc := brings_of_reads hc U
  puts _ hp := hp
  lists _ hall := hall
  assigns p nodeName hp _ _ :=
    (podUses_congr (assign_metadata nodeName p) (volumes_assign nodeName p)).trans_le hp
  marks p msg hp _ _ := (podUses_congr (q := setMessage msg p) rfl rfl).trans_le hp

theorem replicates_users (hd : deploymentUses d ≤ U) :
    Replicates d (AnswersFrom U) (fun c => brings c ≤ U) (fun p => podUses p ≤ U)
      (fun p => podUses p ≤ U) fun _ => True :=
  { schedules_users d.getMetadata.ns (OwnedBy d) with
    deletes := fun _ _ _ => bot_le
    resolves :=
      (schedules_users "" (OwnedBy d)).ensures_of_readsOnly (readsOnly_resolveVolumeNode _ _)
    creates := fun node i _ _ => (podUses_created d node i).trans hd }

theorem ensures_writeStatus_users (d : Deployment) (owned : List Pod) :
    (writeStatus d owned).Ensures (AnswersFrom U) (fun c => brings c ≤ U) fun _ => True := by
  refine ensures_ask_bind.mpr ⟨bot_le, fun x hx => ?_⟩
  rcases x with err | current
  · trivial
  refine ensures_ask_bind.mpr ⟨?_, fun x _ => ?_⟩
  · exact hx
  · cases x <;> trivial

/-- **A pass adds no users.** -/
theorem ensures_deploymentPass :
    Controller.reconcileAll.Ensures (AnswersFrom U) (fun c => brings c ≤ U) fun _ => True := by
  refine ensures_reconcileAll bot_le fun deployments hall d hd => ?_
  rw [reconcileOne_eq]
  refine Ensures.bind (replicates_users (hall d hd)).ensures_podStage fun owned _ => ?_
  have hclaim : (claimVolumes d owned.1).Ensures (AnswersFrom U) (fun c => brings c ≤ U)
      fun _ => True :=
    Within.ensures (Within.weaken (fun _ hc => brings_of_volumes hc U) (fun _ he => he)
      (claimVolumes_inBounds d owned.1))
  exact Ensures.bind hclaim fun _ _ => ensures_writeStatus_users d owned.1

end

/-! ### Admission -/

variable {quote : String → String} {req : Request} {P : Cmd → Prop} {csi : CsiController}
  {tr : List ClusterStep}

section

variable {validators : List Validator} {e : ClusterCall} {ξ α : Type} {r : ClusterRun}

/-- No volume gets a second user on the way. -/
abbrev StaysExclusive (validators : List Validator) (e : ClusterCall)
    (Φ : Except ξ α → ClusterRun → Prop) (p : Prog Cmd Cmd.Answer ξ α) (r : ClusterRun) : Prop :=
  p.Follows (clusterLoop validators NoNewUsers).Drifting
    ((clusterLoop validators NoNewUsers).onEvent ClaimedFirst e)
    (fun _ _ _ r' => Exclusive (Uses r'.2)) Φ r

theorem uses_of_drifts (h : Relation.ReflTransGen NoNewUsers s s') : Uses s' ≤ Uses s := by
  induction h with
  | refl => exact le_rfl
  | tail _ hd ih => exact le_trans hd ih

variable {p : Prog Cmd Cmd.Answer ξ α} {Ξ : α → Prop}

/-- What adds no users to those there may be. -/
theorem staysExclusive_of_ensures (hU : Exclusive U)
    (hp : p.Ensures (AnswersFrom U) (fun c => brings c ≤ U) Ξ) (hr : Uses r.2 ≤ U) :
    StaysExclusive validators e (fun x r' => Uses r'.2 ≤ U ∧ ∀ a, x = .ok a → Ξ a) p r := by
  refine Ensures.follows (I := fun r' : ClusterRun => Uses r'.2 ≤ U)
    (fun r₁ r₂ hd h => (uses_of_drifts hd.1).trans h) (fun c x r₁ r₂ hc h ha => ?_) hp hr
  have hle := (uses_le ha.1).trans (sup_le h hc)
  exact ⟨answersFrom_of_serve h ha.1, hU.mono hle, hle⟩

/-- What adds no users at all. -/
theorem staysExclusive_harmless (hr : Exclusive (Uses r.2)) (hP : ∀ c U, P c → brings c ≤ U)
    (hp : p.Ensures (fun _ _ => True) P Ξ) :
    StaysExclusive validators e (fun x r' => Uses r'.2 ≤ Uses r.2 ∧ ∀ a, x = .ok a → Ξ a) p r :=
  staysExclusive_of_ensures hr
    (hp.mono (fun _ _ _ => trivial) (fun c hc => hP c _ hc) fun _ h => h) le_rfl

/-- **The policy finds the other users**, as they have claimed what they use. -/
theorem follows_ownershipLoop (he : name ∈ deploys e) :
    ∀ {mounts : List VolumeMount} {r : ClusterRun}, Exclusive (Uses r.2) →
      StaysExclusive validators e (fun x r' => Uses r'.2 ≤ Uses r.2 ∧
        (x = .ok none → ∀ m ∈ mounts, Sole r'.2 ns m.volumeName name))
        (ownershipLoop quote ns name mounts) r
  | [], _, _ => ⟨le_rfl, fun _ m hm => by cases hm⟩
  | m :: mounts, r, hr => by
    refine follows_ask_bind fun r₁ x r₂ hd ha => ?_
    obtain ⟨tr₂, s₂⟩ := r₂
    obtain ⟨ha, hg, -⟩ := ha
    obtain rfl : s₂ = r₁.2 := eq_of_get ha
    have hle : Uses r₁.2 ≤ Uses r.2 := uses_of_drifts hd.1
    have hsole : (∀ vol, x = .ok vol → ¬ OwnedByOther name vol) →
        Sole r₁.2 ns m.volumeName name := by
      intro hx
      by_contra hns
      obtain ⟨vol, hvol, ho⟩ := hg name he hns
      exact hx vol hvol ho
    have hrest : Sole r₁.2 ns m.volumeName name → StaysExclusive validators e
        (fun x r' => Uses r'.2 ≤ Uses r.2 ∧
          (x = .ok none → ∀ m' ∈ m :: mounts, Sole r'.2 ns m'.volumeName name))
        (ownershipLoop quote ns name mounts) (tr₂, r₁.2) := by
      intro hs
      refine (follows_ownershipLoop he (r := (tr₂, r₁.2)) (hr.mono hle)).mono ?_
      rintro x r' ⟨hle', hx⟩
      exact ⟨hle'.trans hle, fun h => List.forall_mem_cons.mpr ⟨hs.mono hle', hx h⟩⟩
    refine ⟨hr.mono hle, ?_⟩
    rcases x with err | vol
    · exact hrest (hsole fun vol h => by cases h)
    simp only
    split
    · exact ⟨hle, fun h => by cases h⟩
    · next hn => exact hrest (hsole fun vol' h => by cases h; exact hn)

/-- Nobody else uses what the request asks for. -/
def SoleAll (s : State) (req : Request) : Prop :=
  ∀ m ∈ req.volumes, Sole s req.ns m.volumeName req.name

theorem SoleAll.mono (h : SoleAll s req) (hle : Uses s' ≤ Uses s) : SoleAll s' req :=
  fun m hm => (h m hm).mono hle

theorem SoleAll.congr {req' : Request} (h : SoleAll s req) (hs : SameVolumes req req') :
    SoleAll s req' := by
  obtain ⟨hns, hname, hv⟩ := hs
  rw [SoleAll, hns, hname, hv]
  exact h

/-- A validator of the chain, which may be the policy. -/
theorem follows_validator (quote : String → String) {v : Validator} (hv : Judges v)
    (he : req.name ∈ deploys e) (hr : Exclusive (Uses r.2)) :
    StaysExclusive validators e (fun x r' => Uses r'.2 ≤ Uses r.2 ∧ ∀ req' err,
      x = .ok (req', err) → SameVolumes req req' ∧
        (v = volumeOwnershipPolicy quote → err = none → SoleAll r'.2 req)) (v req) r := by
  by_cases hp : v = volumeOwnershipPolicy quote
  · subst hp
    refine Follows.bind (fun err r' h => ?_) (fun _ _ h => ⟨h.1, fun _ _ h => by cases h⟩)
      (follows_ownershipLoop he hr)
    refine follows_pure ⟨h.1, fun req' err' hx => ?_⟩
    cases hx
    exact ⟨⟨rfl, rfl, rfl⟩, fun _ herr => h.2 (congrArg Except.ok herr)⟩
  · refine (staysExclusive_harmless hr (fun c U hc => brings_of_reads hc U) (hv req)).mono ?_
    rintro x r' ⟨hle, hx⟩
    exact ⟨hle, fun req' err h => ⟨hx _ h, fun hp' => absurd hp' hp⟩⟩

/-- **What the chain lets through has its volumes to itself.** -/
theorem follows_admitLoop {vs : List Validator} (hv : ∀ v ∈ vs, Judges v) :
    ∀ {req : Request} {r : ClusterRun}, req.name ∈ deploys e → Exclusive (Uses r.2) →
      volumeOwnershipPolicy quote ∈ vs ∨ SoleAll r.2 req →
      StaysExclusive validators e (fun x r' => Uses r'.2 ≤ Uses r.2 ∧ ∀ req',
        x = .ok (req', none) → SameVolumes req req' ∧ SoleAll r'.2 req) (admitLoop vs req) r := by
  induction vs with
  | nil =>
    intro req r he hr hs
    refine ⟨le_rfl, fun req' h => ?_⟩
    cases h
    exact ⟨⟨rfl, rfl, rfl⟩, hs.resolve_left List.not_mem_nil⟩
  | cons v vs ih =>
    intro req r he hr hs
    obtain ⟨hone, hrest⟩ := List.forall_mem_cons.mp hv
    refine Follows.bind (fun x r' h => ?_) (fun _ _ h => ⟨h.1, fun _ h => by cases h⟩)
      (follows_validator quote hone he hr)
    obtain ⟨req', err⟩ := x
    obtain ⟨hle, hx⟩ := h
    obtain ⟨hsame, hpolicy⟩ := hx req' err rfl
    cases err with
    | some err => exact ⟨hle, fun _ h => by cases h⟩
    | none =>
      have hs' : volumeOwnershipPolicy quote ∈ vs ∨ SoleAll r'.2 req' := by
        rcases hs with hmem | hs
        · rcases List.mem_cons.mp hmem with h | h
          · exact .inr ((hpolicy h.symm rfl).congr hsame)
          · exact .inl h
        · exact .inr ((hs.mono hle).congr hsame)
      refine (ih hrest (by rw [hsame.2.1]; exact he) (hr.mono hle) hs').mono ?_
      rintro x r'' ⟨hle', hx'⟩
      refine ⟨hle'.trans hle, fun req'' h => ?_⟩
      obtain ⟨hsame', hsole⟩ := hx' req'' h
      exact ⟨hsame.trans hsame', hsole.congr ⟨hsame.1.symm, hsame.2.1.symm, hsame.2.2.symm⟩⟩

/-- A deployment that has its volumes to itself may be added. -/
theorem exclusive_sup (hU : Exclusive U)
    (h : ∀ v o, Mounts d.getTemplate v → U d.getMetadata.ns v o → o = d.getMetadata.name) :
    Exclusive (U ⊔ deploymentUses d) := by
  rintro ns v o o' (ho | ⟨rfl, rfl, hm⟩) (ho' | ⟨hns, rfl, hm'⟩)
  · exact hU ns v o o' ho ho'
  · subst hns
    exact h v o hm' ho
  · exact (h v o' hm ho').symm
  · rfl

/-- **An admission adds a user only to volumes that have no other.** -/
theorem staysExclusive_createDeployment (hv : ∀ v ∈ validators, Judges v)
    (hmem : volumeOwnershipPolicy quote ∈ validators) (he : d.getMetadata.name ∈ deploys e)
    (hr : Exclusive (Uses r.2)) :
    StaysExclusive validators e (fun _ r' => Exclusive (Uses r'.2))
      (Apiserver.createDeployment validators d) r := by
  have hnorm := sameVolumes_normalise (admitReq d)
  rw [Apiserver.createDeployment]
  split
  · exact follows_pure hr
  · refine Follows.bind (fun x r' h => ?_) (fun _ _ h => hr.mono h.1)
      (follows_admitLoop hv (by rw [hnorm.2.1]; exact he) hr (.inl hmem))
    obtain ⟨req, err⟩ := x
    obtain ⟨hle, hx⟩ := h
    cases err with
    | some err => exact follows_pure (hr.mono hle)
    | none =>
      obtain ⟨hsame, hsole⟩ := hx req rfl
      have hvols : (withTemplate d req).getTemplate.volumes = d.getTemplate.volumes :=
        volumes_withTemplate (hnorm.trans hsame)
      replace hsole : SoleAll r'.2 (admitReq d) :=
        hsole.congr ⟨hnorm.1.symm, hnorm.2.1.symm, hnorm.2.2.symm⟩
      refine follows_ask_bind fun r₁ x r₂ hd ha => ?_
      have hle₁ : Uses r₁.2 ≤ Uses r'.2 := uses_of_drifts hd.1
      have hex : Exclusive (Uses r₂.2) := by
        refine Exclusive.mono (exclusive_sup (hr.mono (hle₁.trans hle)) ?_) (uses_le ha.1)
        rintro v o ⟨m, hm, rfl⟩ hu
        rw [hvols] at hm
        exact (hsole m hm).mono hle₁ o hu
      refine ⟨hex, ?_⟩
      cases x <;> exact follows_pure hex

/-- What follows a part that adds no users. -/
theorem staysExclusive_bind {β : Type} (hr : Exclusive (Uses r.2)) (hP : ∀ c U, P c → brings c ≤ U)
    {f : α → Prog Cmd Cmd.Answer ξ β}
    (hp : p.Ensures (fun _ _ => True) P Ξ) (hf : ∀ a r', Exclusive (Uses r'.2) →
      StaysExclusive validators e (fun _ r' => Exclusive (Uses r'.2)) (f a) r') :
    StaysExclusive validators e (fun _ r' => Exclusive (Uses r'.2)) (p >>= f) r :=
  Follows.bind (fun a r' h => hf a r' (hr.mono h.1)) (fun _ _ h => hr.mono h.1)
    (staysExclusive_harmless hr hP hp)

section

variable (hv : ∀ v ∈ validators, Judges v) (hmem : volumeOwnershipPolicy quote ∈ validators)

include hv hmem

theorem staysExclusive_createOrEdit {req : CreateDeploymentRequest} (he : req.name ∈ deploys e)
    (hr : Exclusive (Uses r.2)) :
    StaysExclusive validators e (fun _ r' => Exclusive (Uses r'.2))
      (createOrEdit validators csi req) r := by
  rw [createOrEdit]
  split
  · exact follows_pure hr
  · split
    · exact follows_pure hr
    · refine staysExclusive_bind hr (fun c U hc => brings_of_reads hc U)
        (ensures_getDeployment req.ns req.name) fun existing r hr => ?_
      refine staysExclusive_bind hr (fun c U hc => brings_of_volumes hc U)
        (ensures_storage csi req existing) fun x r hr => ?_
      rcases x with err | volumes
      · exact follows_pure hr
      have hcreate := staysExclusive_createDeployment (e := e) hv hmem
        (d := req.deployment volumes) he hr
      refine Follows.bind (Θ := fun _ r' => Exclusive (Uses r'.2)) (fun x r hr => ?_)
        (fun _ _ h => h) hcreate
      rcases x with err | created
      · exact follows_pure hr
      rcases existing with err | d
      · exact follows_pure hr
      exact staysExclusive_bind hr (fun c U hc => brings_of_retires hc U)
        (ensures_restartOwnedPods _ _) fun _ _ hr => follows_pure hr

theorem staysExclusive_dashboard (b : Except String CreateDeploymentRequest)
    (hr : Exclusive (Uses r.2)) :
    StaysExclusive validators (.dashboardCreate csi b) (fun _ r' => Exclusive (Uses r'.2))
      (handleCreateDeployment validators csi b) r := by
  unfold handleCreateDeployment
  split
  · exact follows_pure hr
  · split
    · exact follows_pure hr
    · split
      · exact follows_pure hr
      · exact staysExclusive_createOrEdit hv hmem rfl hr

/-- **No call adds a second user.** -/
theorem staysExclusive_body (hs : Exclusive (Uses s)) (hg : ∃ s₀, ClaimedFirst.takes tr e s₀) :
    StaysExclusive validators e (fun _ r' => Exclusive (Uses r'.2)) (body validators e)
      (.took e :: tr, s) := by
  have hall : ∀ {α : Type} {U : Users} {Ξ : α → Prop} {p : Reg α}, Exclusive U → Uses s ≤ U →
      p.Ensures (AnswersFrom U) (fun c => brings c ≤ U) Ξ →
      StaysExclusive validators e (fun _ r' => Exclusive (Uses r'.2)) (runAll p)
        (.took e :: tr, s) :=
    fun hU hle hp => follows_runAll
      ((staysExclusive_of_ensures hU hp hle).mono fun _ _ h => hU.mono h.1)
  have hharmless : ∀ {α : Type} {P : Cmd → Prop} {Ξ : α → Prop} {p : Reg α},
      (∀ c U, P c → brings c ≤ U) → p.Ensures (fun _ _ => True) P Ξ →
      StaysExclusive validators e (fun _ r' => Exclusive (Uses r'.2)) (runAll p)
        (.took e :: tr, s) :=
    fun hP hp => hall hs le_rfl
      (hp.mono (fun _ _ _ => trivial) (fun c hc => hP c _ hc) fun _ h => h)
  cases e with
  | createVolume csi vol =>
    exact hharmless (fun c U hc => brings_of_volumes hc U) (ensures_createVolume csi vol)
  | deleteVolume csi ns name =>
    exact hharmless (fun c U hc => brings_of_volumes hc U) (ensures_deleteVolume csi ns name)
  | createDeployment d =>
    exact follows_runAll (staysExclusive_createDeployment hv hmem rfl hs)
  | deleteDeployment ns name =>
    exact hharmless (fun c U hc => brings_of_retires hc U) (ensures_deleteDeployment ns name)
  | createPod pod =>
    obtain ⟨s₀, hg⟩ := hg
    refine hharmless (fun c U hc => ?_) (ensures_createPod hv pod)
    rcases hc with hc | ⟨pod', hmd, rfl⟩
    · exact brings_of_reads hc U
    · -- a pod without an owner has no users
      rintro ns v o ⟨-, hlabel, ho, -⟩
      rw [hmd] at hlabel
      exact absurd (hlabel.symm.trans hg) ho
  | dashboardCreate csi b => exact follows_runAll (staysExclusive_dashboard hv hmem b hs)
  | deploymentPass => exact hall hs le_rfl ensures_deploymentPass
  | podPass =>
    exact hall hs le_rfl ((schedules_users "" Unassigned).ensures_podPass rfl fun _ h => h)

end

/-! ### Runs -/

/-- The pods that are assigned to nodes and mount one volume have one owner. -/
def OneOwner (s : State) : Prop :=
  ∀ k p, (s .pods).lookup k = some p → ∀ k' p', (s .pods).lookup k' = some p' →
    p.getSpec.nodeName ≠ "" → p'.getSpec.nodeName ≠ "" →
    p'.getMetadata.ns = p.getMetadata.ns →
    (∃ v, Mounts p.getSpec v ∧ Mounts p'.getSpec v) →
    p.getMetadata.label OwnerDeploymentLabel ≠ "" → p'.getMetadata.label OwnerDeploymentLabel ≠ "" →
    p'.getMetadata.label OwnerDeploymentLabel = p.getMetadata.label OwnerDeploymentLabel

/-- **A volume has one using deployment**, in every state that is reached, through all calls and
passes in any order; if a volume that is used is claimed before another deployment asks for it. -/
theorem volumes_exclusive (hv : ∀ v ∈ validators, Judges v) {quote : String → String}
    (hmem : volumeOwnershipPolicy quote ∈ validators) {s t : State} (hs : Exclusive (Uses s))
    {tr : List ClusterStep} {m : Mode ClusterCall Cmd Cmd.Answer}
    (h : (clusterLoop validators NoNewUsers).Reaches ClaimedFirst s tr m t) : OneOwner t := by
  have hex : Exclusive (Uses t) := by
    refine Reaches.everywhere (P := fun t => Exclusive (Uses t)) hs (fun t t' hd ht => ht.mono hd)
      (fun e t t' ha ht => ?_) (fun tr e t ht hg => ?_) h
    · cases ha
      exact ht
    · obtain ⟨t₀, hg, -⟩ := hg
      exact staysExclusive_body hv hmem ht ⟨t₀, hg⟩
  intro k p hp k' p' hp' _ _ hns hm ho ho'
  obtain ⟨v, hm, hm'⟩ := hm
  exact hex p.getMetadata.ns v _ _ (.inr ⟨k', p', hp', hns, rfl, ho', hm'⟩)
    (.inr ⟨k, p, hp, rfl, rfl, ho, hm⟩)

end

/-! ### Two deployments -/

instance (s : State) (ns v name : String) : Decidable (Sole s ns v name) :=
  decidable_of_iff
    ((∀ k d, (s .deployments).lookup k = some d →
        d.getMetadata.ns = ns ∧ Mounts d.getTemplate v → d.getMetadata.name = name) ∧
      ∀ k p, (s .pods).lookup k = some p → p.getMetadata.ns = ns ∧ Mounts p.getSpec v →
        p.getMetadata.label OwnerDeploymentLabel ≠ "" →
          p.getMetadata.label OwnerDeploymentLabel = name) <| by
    constructor
    · rintro ⟨hd, hp⟩ o (⟨k, d, hl, hns, rfl, hm⟩ | ⟨k, p, hl, hns, rfl, ho, hm⟩)
      · exact hd k d hl ⟨hns, hm⟩
      · exact hp k p hl ⟨hns, hm⟩ ho
    · intro h
      exact ⟨fun k d hl hd => h _ (.inl ⟨k, d, hl, hd.1, rfl, hd.2⟩),
        fun k p hl hp ho => h _ (.inr ⟨k, p, hl, hp.1, rfl, ho, hp.2⟩)⟩

instance (name : String) (x : Except RegistryError Volume) :
    Decidable (∃ vol, x = .ok vol ∧ OwnedByOther name vol) :=
  match x with
  | .error _ => .isFalse fun ⟨_, h, _⟩ => by cases h
  | .ok vol => decidable_of_iff (OwnedByOther name vol)
      ⟨fun h => ⟨vol, rfl, h⟩, fun ⟨_, h, ho⟩ => by cases h; exact ho⟩

/-- The volume that is read, and the answer. -/
def volumeRead : (c : Cmd) → c.Answer → Option (String × String × Except RegistryError Volume)
  | .get .volumes ns v, x => some (ns, v, x)
  | _, _ => none

theorem claimedFirst_allows_iff {e : ClusterCall} : ClaimedFirst.allows tr e c x s ↔
      ∀ r ∈ volumeRead c x, ∀ name ∈ deploys e, ¬ Sole s r.1 r.2.1 name →
        ∃ vol, r.2.2 = .ok vol ∧ OwnedByOther name vol := by
  unfold ClaimedFirst volumeRead
  dsimp only
  split <;> simp

instance : DecidableGuard ClaimedFirst where
  takes _ e _ := match e with
    | .createPod pod =>
      inferInstanceAs (Decidable (pod.getMetadata.label OwnerDeploymentLabel = ""))
    | .createVolume _ _ | .deleteVolume _ _ _ | .createDeployment _ | .deleteDeployment _ _
    | .dashboardCreate _ _ | .deploymentPass | .podPass => inferInstanceAs (Decidable True)
  allows _ _ _ _ _ := decidable_of_iff _ claimedFirst_allows_iff.symm

/-- A node alone has no users. -/
theorem exclusive_onlyNode : Exclusive (Uses onlyNode) := by
  rintro ns v o o' (⟨k, d, hl, -⟩ | ⟨k, p, hl, -⟩)
  · cases hl
  · cases hl

/-- A second deployment is turned away, as the first has claimed the volume. -/
theorem volumes_exclusive_sample :
    ∃ tr m t, (clusterLoop volumePolicies NoNewUsers).Reaches ClaimedFirst onlyNode tr m t ∧
      ((t .pods).keys = {"a/web-0"} ∧ (t .deployments).keys = {"a/web"}) ∧ OneOwner t := by
  obtain ⟨tr, m, t, h, hkeys⟩ := exists_of_play (clusterResolver volumePolicies NoNewUsers)
    ClaimedFirst (s := onlyNode)
    (T := fun r => (r.state .pods).keys = {"a/web-0"} ∧ (r.state .deployments).keys = {"a/web"})
    (claiming ++ [.take (.createDeployment (mountingDeployment "db")), .answer [] 1, .back])
    (by decide)
  exact ⟨tr, m, t, h, hkeys, volumes_exclusive judges_volumePolicies (List.mem_of_mem_getLast? rfl)
    exclusive_onlyNode h⟩

/-- A pod of the deployment that is on a node and mounts the volume. -/
def OnNode (name v : String) (p : Pod) : Prop :=
  p.getSpec.nodeName ≠ "" ∧ p.getMetadata.ns = "a" ∧ Mounts p.getSpec v ∧
    p.getMetadata.label OwnerDeploymentLabel = name

instance (name v : String) (p : Pod) : Decidable (OnNode name v p) :=
  inferInstanceAs (Decidable (_ ∧ _ ∧ _ ∧ _))

/-- **A volume is shared** by two deployments that are admitted before the first pass. -/
theorem volume_shared :
    ∃ tr m t, (clusterLoop volumePolicies NoNewUsers).Reaches unguarded onlyNode tr m t ∧
      ¬ OneOwner t := by
  obtain ⟨tr, m, t, h, hp, hp'⟩ := exists_of_play (clusterResolver volumePolicies NoNewUsers)
    unguarded (s := onlyNode)
    (T := fun r => ((r.state .pods).lookup "a/db-0").any (fun p => OnNode "db" "v" p) = true ∧
      ((r.state .pods).lookup "a/web-0").any (fun p => OnNode "web" "v" p) = true)
    [.take (.createVolume willing sampleVolume), .answer [] 1, .back,
      .take (.createDeployment (mountingDeployment "web")), .answer [] 2, .back,
      .take (.createDeployment (mountingDeployment "db")), .answer [] 2, .back,
      .take .deploymentPass, .answer ["a/db", "a/web"] 1, .answer [] 3, .answer ["a/db-0"] 2,
      .answer ["n"] 6, .answer ["a/db-0"] 3, .answer ["a/db-0", "a/web-0"] 5, .back]
    (by decide)
  refine ⟨tr, m, t, h, fun hone => ?_⟩
  obtain ⟨p, hl, hp⟩ := (Option.any_eq_true _ _).mp hp
  obtain ⟨p', hl', hp'⟩ := (Option.any_eq_true _ _).mp hp'
  obtain ⟨hn, hns, hm, ho⟩ := of_decide_eq_true hp
  obtain ⟨hn', hns', hm', ho'⟩ := of_decide_eq_true hp'
  have heq := hone _ p hl _ p' hl' hn hn' (hns'.trans hns.symm) ⟨"v", hm, hm'⟩
    (by rw [ho]; decide) (by rw [ho']; decide)
  rw [ho, ho'] at heq
  exact absurd heq (by decide)

end NimbusCore.Cluster
