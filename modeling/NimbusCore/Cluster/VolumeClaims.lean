import NimbusCore.Cluster.Calls
import NimbusCore.Controller.Contract

/-!
# Cluster — claims of volumes

A deployment pass claims a volume for a node and a deployment, in the status and a label of the
stored volume (`claimOf`).  `CreateVolume` writes the whole volume anew, and so does the dashboard,
if it cannot read the volume.

* `follows_claimLoop`: a pass claims only what is not claimed.
* `claim_permanent`: a claim stays as it is until `DeleteVolume`, as long as `CreateVolume` is not
  called for a volume that is claimed, no other volume is stored or deleted in its place, and the
  dashboard can read it (`ClaimSafe`).
* `claim_lost`: otherwise it is lost.
-/

namespace NimbusCore.Cluster

open Api Registry Admission Apiserver Prog
open Controller Dashboard EventLoop

/-! ### Claims -/

/-- The node and the owner of a stored volume that has both. -/
def claimOf (s : State) (ns name : String) : Option (String × String) :=
  ((s .volumes).lookup (path ns name)).bind fun vol =>
    if vol.getStatus.nodeName ≠ "" ∧ ownerOf vol ≠ "" then
      some (vol.getStatus.nodeName, ownerOf vol)
    else none

/-- Nobody else writes to the volumes. -/
def KeepsVolumes (s s' : State) : Prop := s' .volumes = s .volumes

/-- The call deletes the volume. -/
def Deletes (ns name : String) : ClusterCall → Prop
  | .deleteVolume _ ns' name' => ns' = ns ∧ name' = name
  | _ => False

/-- **The volume is left alone** while it is claimed: `CreateVolume` is not called for it, nor
`DeleteVolume` for another namespace and name that make the same key; a pass that reads a volume
under another key finds one whose name does not make this key; and the dashboard does not fail to
read it. -/
def ClaimSafe (ns name : String) : Guard ClusterCall Cmd Cmd.Answer State where
  takes _ e s := claimOf s ns name ≠ none → match e with
    | .createVolume _ vol => path vol.getMetadata.ns vol.getMetadata.name ≠ path ns name
    | .deleteVolume _ ns' name' => path ns' name' = path ns name → ns' = ns ∧ name' = name
    | _ => True
  allows _ e c x s := claimOf s ns name ≠ none → match e, c, x with
    | .deploymentPass, .get .volumes ns' name', .ok vol =>
      path ns' vol.getMetadata.name = path ns name → path ns' name' = path ns name
    | .dashboardCreate _ _, .get .volumes ns' name', .error .failed => path ns' name' ≠ path ns name
    | _, _, _ => True

/-! ### What keeps a claim -/

/-- Unless the call deletes the volume, its claim stays. -/
def KeepsClaim (ns name : String) (e : ClusterCall) (c : Cmd) (_ : c.Answer) (r r' : ClusterRun) :
    Prop :=
  ¬ Deletes ns name e → ∀ claim, claimOf r.2 ns name = some claim →
    claimOf r'.2 ns name = some claim

/-- Commands that leave the volumes. -/
def SparesVolumes (c : Cmd) : Prop := ∃ k, k ≠ .volumes ∧ c.OnlyWrites k

/-- The program keeps the claim, on the event `e`, and ends in `Φ`. -/
abbrev ClaimStays {ξ α : Type} (validators : List Validator) (ns name : String) (e : ClusterCall)
    (Φ : Except ξ α → ClusterRun → Prop) (p : Prog Cmd Cmd.Answer ξ α) (r : ClusterRun) : Prop :=
  p.Follows (clusterLoop validators KeepsVolumes).Drifting
    ((clusterLoop validators KeepsVolumes).onEvent (ClaimSafe ns name) e) (KeepsClaim ns name e) Φ r

variable {s s' : State}

theorem volumes_of_drifts (h : Relation.ReflTransGen KeepsVolumes s s') :
    s' .volumes = s .volumes := by
  induction h with
  | refl => rfl
  | tail _ hd ih => exact (show _ = _ from hd).trans ih

theorem claimOf_congr (h : s' .volumes = s .volumes) (ns name : String) :
    claimOf s' ns name = claimOf s ns name := by
  rw [claimOf, claimOf, h]

variable {c : Cmd} {ns' name' : String} {vol : Volume} {csi : CsiController}
  {b : Except String CreateDeploymentRequest}

section

variable {validators : List Validator} {ns name : String} {e : ClusterCall} {ξ α : Type}
  {r : ClusterRun} {k : Kind} {p : Prog Cmd Cmd.Answer ξ α} {Ξ : α → Prop}

/-- **What does not write to volumes** keeps them, and the claim. -/
theorem claimStays_of_ensures (hp : p.Ensures (fun _ _ => True) SparesVolumes Ξ) :
    ClaimStays validators ns name e (fun x r' => r'.2 .volumes = r.2 .volumes ∧
      ∀ a, x = .ok a → Ξ a) p r := by
  refine Ensures.follows (I := fun r' : ClusterRun => r'.2 .volumes = r.2 .volumes)
    (fun r₁ r₂ hd h => ?_) (fun c x r₁ r₂ hc h ha => ?_) hp rfl
  · exact (volumes_of_drifts hd.1).trans h
  · obtain ⟨k, hk, hc⟩ := hc
    have hv := serveOrFail_frame hc ha.1 hk.symm
    refine ⟨trivial, fun _ claim hclaim => ?_, hv.trans h⟩
    rw [claimOf_congr hv]
    exact hclaim

variable {Φ : Except ξ α → ClusterRun → Prop} {f : c.Answer → Prog Cmd Cmd.Answer ξ α}

/-- A command at a volume that is not claimed. -/
theorem claimStays_ask (hnone : claimOf r.2 ns name = none)
    (hf : ∀ x r', ClaimStays validators ns name e Φ (f x) r') :
    ClaimStays validators ns name e Φ (Prog.ask c >>= f) r := by
  refine follows_ask_bind fun r₁ x r₂ hd _ => ⟨fun _ claim hclaim => ?_, hf x r₂⟩
  rw [claimOf_congr (volumes_of_drifts hd.1), hnone] at hclaim
  cases hclaim

/-- A read changes nothing. -/
theorem eq_of_get {k : Kind} {x : Except RegistryError k.Obj}
    (h : serveOrFail (.get k ns' name') s x s') : s' = s := by
  rcases h with h | h
  · exact h.1
  · exact h.1

/-- Reading a volume, and what follows it. -/
theorem claimStays_get {k : Kind} {f : Except RegistryError k.Obj → Prog Cmd Cmd.Answer ξ α}
    (hf : ∀ x r', r'.2 .volumes = r.2 .volumes → serveOrFail (.get k ns' name') r'.2 x r'.2 →
      (∃ tr, (ClaimSafe ns name).allows tr e (.get k ns' name') x r'.2) →
      ClaimStays validators ns name e Φ (f x) r') :
    ClaimStays validators ns name e Φ (Prog.ask (.get k ns' name') >>= f) r := by
  refine follows_ask_bind fun r₁ x r₂ hd ha => ?_
  obtain ⟨tr₂, s₂⟩ := r₂
  obtain ⟨ha, hg, rfl⟩ := ha
  obtain rfl : s₂ = r₁.2 := eq_of_get ha
  exact ⟨fun _ _ h => h, hf x _ (volumes_of_drifts hd.1) ha ⟨_, hg⟩⟩

/-- A command that writes where nothing is claimed, or in another place. -/
theorem claimStays_write
    (h : claimOf r.2 ns name ≠ none → ∀ x, c.writesAt .volumes (path ns name) x = none)
    (hf : ∀ x r', ClaimStays validators ns name e Φ (f x) r') :
    ClaimStays validators ns name e Φ (Prog.ask c >>= f) r := by
  by_cases hnone : claimOf r.2 ns name = none
  · exact claimStays_ask hnone hf
  · refine follows_ask_bind fun r₁ x r₂ _ ha => ⟨fun _ claim hclaim => ?_, hf x r₂⟩
    rw [claimOf, serveOrFail_post ha.1, lookup_effect, h hnone x]
    exact hclaim

theorem writesAt_put {p : String} (h : path ns' name' ≠ p) (x : Except RegistryError Unit) :
    (Cmd.put .volumes ns' name' vol).writesAt .volumes p x = none := by
  cases x with
  | error err => rfl
  | ok _ => exact dif_neg fun hk => h hk.2

/-- **A pass claims what is not claimed.** -/
theorem follows_claimLoop {d : Deployment} {nodeName : String} :
    ∀ {mounts : List VolumeMount} {r : ClusterRun},
      ClaimStays validators ns name .deploymentPass (fun _ _ => True)
        (claimLoop d nodeName mounts) r
  | [], _ => trivial
  | m :: mounts, r => by
    refine claimStays_get fun x r' _ ha hg => ?_
    rcases x with (_ | _) | vol
    · exact follows_claimLoop
    · trivial
    · simp only
      split
      · exact follows_claimLoop
      · next hn =>
        rw [claim]
        cases hmd : vol.metadata with
        | none => trivial
        | some md =>
          -- the volume that was read is not claimed, so it is another one
          refine claimStays_write (fun hclaim => writesAt_put fun he => hclaim ?_) fun x r' => ?_
          · obtain ⟨tr, hg⟩ := hg
            have hname : path d.getMetadata.ns vol.getMetadata.name = path ns name := by
              rw [Volume.getMetadata, hmd]
              exact he
            have hl := lookup_of_get ha
            rw [hg hclaim hname] at hl
            simp [claimOf, hl, not_not.mp hn]
          · cases x with
            | error err => trivial
            | ok _ => exact follows_claimLoop

/-! ### The calls -/

theorem sparesVolumes_of_reads (h : c.Reads) : SparesVolumes c :=
  ⟨.pods, by decide, h.onlyWrites _⟩

/-- A part that leaves the volumes, and what follows it. -/
theorem claimStays_bind {β : Type}
    {f : α → Prog Cmd Cmd.Answer ξ β} (hp : p.Ensures (fun _ _ => True) SparesVolumes Ξ)
    (hf : ∀ a r', r'.2 .volumes = r.2 .volumes → Ξ a →
      ClaimStays validators ns name e (fun _ _ => True) (f a) r') :
    ClaimStays validators ns name e (fun _ _ => True) (p >>= f) r :=
  Follows.bind (fun a r' h => hf a r' h.1 (h.2 a rfl)) (fun _ _ _ => trivial)
    (claimStays_of_ensures hp)

theorem claimStays_spares (hp : p.Ensures (fun _ _ => True) SparesVolumes Ξ) :
    ClaimStays validators ns name e (fun _ _ => True) p r :=
  (claimStays_of_ensures hp).mono fun _ _ _ => trivial

theorem sparesVolumes_of_pods (h : c.OnlyWrites .pods) : SparesVolumes c :=
  ⟨.pods, by decide, h⟩

/-- What the controllers write, up to the claims, are pods. -/
theorem schedules_sparing (ns : String) (Q : Pod → Prop) :
    Schedules ns Q (fun _ _ => True) SparesVolumes (fun _ => True) fun _ => True where
  reads _ := sparesVolumes_of_reads
  puts _ _ := sparesVolumes_of_pods (onlyWrites_put _ _ _ _)
  lists _ _ _ _ := trivial
  assigns _ _ _ _ _ := trivial
  marks _ _ _ _ _ := trivial

theorem replicates_sparing (d : Deployment) :
    Replicates d (fun _ _ => True) SparesVolumes (fun _ => True) (fun _ => True) fun _ => True :=
  { schedules_sparing d.getMetadata.ns (OwnedBy d) with
    deletes := fun _ _ _ => sparesVolumes_of_pods (onlyWrites_delete _ _ _)
    resolves :=
      (schedules_sparing "" (OwnedBy d)).ensures_of_readsOnly (readsOnly_resolveVolumeNode _ _)
    creates := fun _ _ _ _ => trivial }

theorem spares_writeStatus (d : Deployment) (owned : List Pod) :
    (writeStatus d owned).Ensures (fun _ _ => True) SparesVolumes fun _ => True :=
  Within.ensures (Within.weaken (fun _ hc => ⟨.deployments, by decide, hc⟩) (fun _ h => h)
    (quiet_writeStatus d owned))

/-- **The deployment pass.** -/
theorem claimStays_reconcileOne (d : Deployment) :
    ClaimStays validators ns name .deploymentPass (fun _ _ => True) (reconcileOne d) r := by
  rw [reconcileOne_eq]
  refine claimStays_bind (replicates_sparing d).ensures_podStage fun owned r _ _ => ?_
  refine Follows.bind (Φ := fun _ _ => True)
    (fun _ r _ => claimStays_spares (spares_writeStatus d owned.1)) (fun _ _ _ => trivial) ?_
  rw [claimVolumes]
  split
  · refine Follows.bind (Φ := fun _ _ => True) (fun _ _ _ => follows_pure trivial)
      (fun _ _ _ => trivial) ?_
    refine Follows.attempt (Φ := fun _ _ => True) (fun _ _ _ => trivial)
      (fun _ _ _ _ _ => trivial) (fun _ _ _ _ => trivial) ?_
    rw [claimVolumeNodes]
    split
    · trivial
    · exact follows_claimLoop
  · trivial

theorem claimStays_reconcileAll :
    ClaimStays validators ns name .deploymentPass (fun _ _ => True) Controller.reconcileAll r := by
  refine claimStays_bind (Ξ := fun _ => True) ⟨sparesVolumes_of_reads rfl, fun _ _ => trivial⟩
    fun x r _ _ => ?_
  cases x with
  | error err => trivial
  | ok deployments => exact follows_reconcileEach (fun d _ _ _ => claimStays_reconcileOne d) trivial

/-- `CreateVolume`, for a volume that is not claimed. -/
theorem claimStays_createVolume
    (h : claimOf r.2 ns name ≠ none → path vol.getMetadata.ns vol.getMetadata.name ≠ path ns name) :
    ClaimStays validators ns name e (fun _ _ => True) (Apiserver.createVolume csi vol) r := by
  rw [Apiserver.createVolume]
  split
  · trivial
  · split
    · trivial
    · refine claimStays_write (fun hclaim => writesAt_put (h hclaim)) fun x r' => ?_
      cases x <;> trivial

/-- `DeleteVolume`, of this volume or another. -/
theorem claimStays_deleteVolume
    (h : claimOf r.2 ns name ≠ none → path ns' name' = path ns name → ns' = ns ∧ name' = name) :
    ClaimStays validators ns name (.deleteVolume csi ns' name') (fun _ _ => True)
      (Apiserver.deleteVolume csi ns' name') r := by
  rw [Apiserver.deleteVolume]
  split
  · trivial
  · split
    · trivial
    · by_cases hd : ns' = ns ∧ name' = name
      · refine follows_ask_bind fun r₁ x r₂ _ _ => ⟨fun hne => absurd hd hne, ?_⟩
        cases x <;> trivial
      · refine claimStays_write (fun hclaim x => ?_) fun x r' => ?_
        · cases x <;> first | rfl | exact if_neg fun hk => hd (h hclaim hk.2)
        · cases x <;> trivial

/-- `CreateDeployment` leaves the volumes. -/
theorem spares_createDeployment (hv : ∀ v ∈ validators, Judges v) (d : Deployment) :
    (Apiserver.createDeployment validators d).Ensures (fun _ _ => True) SparesVolumes
      fun _ => True := by
  refine (ensures_createDeployment hv d).mono (fun _ _ h => h) (fun c hc => ?_) fun _ h => h
  rcases hc with hc | ⟨d', -, -, rfl⟩
  · exact sparesVolumes_of_reads hc
  · exact ⟨.deployments, by decide, onlyWrites_put _ _ _ _⟩

theorem spares_createPod (hv : ∀ v ∈ validators, Judges v) (pod : Pod) :
    (Apiserver.createPod validators pod).Ensures (fun _ _ => True) SparesVolumes fun _ => True := by
  refine (ensures_createPod hv pod).mono (fun _ _ h => h) (fun c hc => ?_) fun _ h => h
  rcases hc with hc | ⟨pod', -, rfl⟩
  · exact sparesVolumes_of_reads hc
  · exact sparesVolumes_of_pods (onlyWrites_put _ _ _ _)

theorem spares_of_retires {p : Reg α} (hp : p.Ensures (fun _ _ => True) Retires Ξ) :
    p.Ensures (fun _ _ => True) SparesVolumes Ξ := by
  refine hp.mono (fun _ _ h => h) (fun c hc => ?_) fun _ h => h
  rcases hc with hc | ⟨ns', name', rfl | rfl⟩
  · exact sparesVolumes_of_reads hc
  · exact sparesVolumes_of_pods (onlyWrites_delete _ _ _)
  · exact ⟨.deployments, by decide, onlyWrites_delete _ _ _⟩

/-- The dashboard is told that there is no volume only if there is none. -/
theorem claimStays_getVolume (ns' name' : String) :
    ClaimStays validators ns name (.dashboardCreate csi b)
      (fun x r' => ∀ err, x = .ok (.error err) →
      claimOf r'.2 ns name ≠ none → path ns' name' ≠ path ns name) (getVolume ns' name') r := by
  refine claimStays_get fun x r' _ ha hg => ?_
  rcases x with (_ | _) | vol
  · rintro err - hclaim he
    refine hclaim ?_
    rw [claimOf, ← he, lookup_eq_none_of_get ha]
    rfl
  · obtain ⟨tr, hg⟩ := hg
    rintro err - hclaim
    exact hg hclaim
  · rintro err h
    cases h

/-- The dashboard makes a volume only where it has found none. -/
theorem claimStays_storage (req : CreateDeploymentRequest) (existing : Except Status Deployment) :
    ClaimStays validators ns name (.dashboardCreate csi b) (fun _ _ => True)
      (storage csi req existing) r := by
  unfold storage
  split
  · refine Follows.bind (fun x r hx => ?_) (fun _ _ _ => trivial)
      (claimStays_getVolume req.ns req.name)
    cases x with
    | ok vol => trivial
    | error err =>
      refine Follows.bind (Φ := fun _ _ => True) (fun x r _ => ?_) (fun _ _ _ => trivial)
        (claimStays_createVolume (hx err rfl))
      cases x <;> trivial
  · split <;> trivial

theorem claimStays_createOrEdit (hv : ∀ v ∈ validators, Judges v) (req : CreateDeploymentRequest) :
    ClaimStays validators ns name (.dashboardCreate csi b) (fun _ _ => True)
      (createOrEdit validators csi req) r := by
  rw [createOrEdit]
  split
  · trivial
  · split
    · trivial
    · refine claimStays_bind ((ensures_getDeployment req.ns req.name).mono (fun _ _ h => h)
        (fun _ => sparesVolumes_of_reads) fun _ h => h) fun existing r _ _ => ?_
      refine Follows.bind (fun x r _ => ?_) (fun _ _ _ => trivial)
        (claimStays_storage req existing)
      rcases x with err | volumes
      · trivial
      refine claimStays_bind (spares_createDeployment hv _) fun x r _ _ => ?_
      rcases x with err | created
      · trivial
      rcases existing with err | d
      · trivial
      exact claimStays_bind (spares_of_retires (ensures_restartOwnedPods _ _))
        fun _ _ _ _ => trivial

theorem claimStays_dashboard (hv : ∀ v ∈ validators, Judges v)
    (b : Except String CreateDeploymentRequest) :
    ClaimStays validators ns name (.dashboardCreate csi b) (fun _ _ => True)
      (handleCreateDeployment validators csi b) r := by
  unfold handleCreateDeployment
  split
  · trivial
  · split
    · trivial
    · split
      · trivial
      · exact claimStays_createOrEdit hv _

/-- **Every call keeps the claim.** -/
theorem claimStays_body (hv : ∀ v ∈ validators, Judges v) {tr : List ClusterStep}
    (hg : (ClaimSafe ns name).takes tr e s) :
    ClaimStays validators ns name e (fun _ _ => True) (body validators e) (.took e :: tr, s) := by
  cases e with
  | createVolume csi vol => exact follows_runAll (claimStays_createVolume hg)
  | deleteVolume csi ns' name' => exact follows_runAll (claimStays_deleteVolume hg)
  | createDeployment d => exact follows_runAll (claimStays_spares (spares_createDeployment hv d))
  | deleteDeployment ns' name' =>
    exact follows_runAll
      (claimStays_spares (spares_of_retires (ensures_deleteDeployment ns' name')))
  | createPod pod => exact follows_runAll (claimStays_spares (spares_createPod hv pod))
  | dashboardCreate csi b => exact follows_runAll (claimStays_dashboard hv b)
  | deploymentPass => exact follows_runAll claimStays_reconcileAll
  | podPass =>
    exact follows_runAll (claimStays_spares
      ((schedules_sparing "" Unassigned).ensures_podPass rfl fun _ h => h))

/-! ### Runs -/

/-- **A claim is permanent.**  Once a volume has a node and an owner, it keeps both, through all
calls and passes in any order, as long as it is not deleted; if it is left alone while it is
claimed. -/
theorem claim_permanent (hv : ∀ v ∈ validators, Judges v) {s : State}
    {r r' : Reached ClusterCall Cmd Cmd.Answer State}
    (h : (clusterLoop validators KeepsVolumes).Reaches (ClaimSafe ns name) s r.trace r.mode r.state)
    (hs : Relation.ReflTransGen ((clusterLoop validators KeepsVolumes).StepOn (ClaimSafe ns name)
      fun e => ¬ Deletes ns name e) r r') {claim : String × String}
    (hclaim : claimOf r.state ns name = some claim) : claimOf r'.state ns name = some claim := by
  refine Reaches.stays (P := fun t => claimOf t ns name = some claim) (fun a b ha hab hc => ?_) h hs
    hclaim
  obtain ⟨hab, hon⟩ := hab
  cases hab with
  | drift hd => exact (claimOf_congr hd ns name).trans hc
  | take e harr _ => cases harr; exact hc
  | back => exact hc
  | did hans hg =>
    have hf := Reaches.follows (Ψ := KeepsClaim ns name) (I := fun _ => True) trivial
      (fun _ _ _ _ => trivial) (fun tr e t t₁ _ harr ht => ?_) ha
    · exact hf.did hans hg hon claim hc
    · cases harr
      exact claimStays_body hv ht

end

/-! ### One volume -/

instance (ns name : String) : DecidablePred (Deletes ns name) := fun e => by
  cases e <;> unfold Deletes <;> infer_instance

instance (ns name : String) : DecidableGuard (ClaimSafe ns name) where
  takes tr e s := by
    unfold ClaimSafe
    dsimp only
    cases e <;> infer_instance
  allows tr e c x s := by
    unfold ClaimSafe
    dsimp only
    split <;> infer_instance

/-- A volume. -/
def sampleVolume : Volume := { metadata := some { name := "v", ns := "a" } }

/-- A deployment that mounts it. -/
def mountingDeployment (name : String) : Deployment :=
  { metadata := some { name := name, ns := "a" }
    spec := some { replicas := 1, template := some { volumes := [{ volumeName := "v" }] } } }

/-- A node, and nothing else. -/
def onlyNode : State :=
  State.empty.set .nodes (Finmap.singleton "n"
    { metadata := some { name := "n" }, status := some { ready := true } })

/-- The volume is made, the deployment too, and the pass schedules its pod and claims the volume. -/
def claiming : List (Move ClusterCall (List String) Empty) :=
  [.take (.createVolume willing sampleVolume), .answer [] 1, .back,
    .take (.createDeployment (mountingDeployment "web")), .answer [] 2, .back,
    .take .deploymentPass, .answer ["a/web"] 1, .answer [] 3, .answer ["a/web-0"] 2,
    .answer ["n"] 6, .back]

theorem claim_permanent_sample :
    ∃ r r', (clusterLoop volumePolicies KeepsVolumes).Reaches (ClaimSafe "a" "v") onlyNode r.trace
        r.mode r.state ∧
      Relation.ReflTransGen ((clusterLoop volumePolicies KeepsVolumes).StepOn (ClaimSafe "a" "v")
        fun e => ¬ Deletes "a" "v" e) r r' ∧ r'.trace.length = r.trace.length + 4 ∧
      claimOf r'.state "a" "v" = some ("n", "web") := by
  obtain ⟨r, r', h, hs, hlen, hclaim⟩ := exists_stepsOn_of_play
    (clusterResolver volumePolicies KeepsVolumes) (ClaimSafe "a" "v") (s := onlyNode)
    (Q := fun e => ¬ Deletes "a" "v" e)
    (T := fun r r' => r'.trace.length = r.trace.length + 4 ∧
      claimOf r.state "a" "v" = some ("n", "web"))
    claiming [.take (.deleteDeployment "a" "web"), .answer ["a/web-0"] 3, .back] (by decide)
    (by decide)
  exact ⟨r, r', h, hs, hlen, claim_permanent judges_volumePolicies h hs hclaim⟩

/-- **A claim is lost** when the volume is made again: it is stored anew, without its node. -/
theorem claim_lost :
    ∃ r r', (clusterLoop volumePolicies KeepsVolumes).Reaches unguarded onlyNode r.trace r.mode
        r.state ∧
      Relation.ReflTransGen ((clusterLoop volumePolicies KeepsVolumes).StepOn unguarded
        fun e => ¬ Deletes "a" "v" e) r r' ∧
      claimOf r.state "a" "v" = some ("n", "web") ∧ claimOf r'.state "a" "v" = none :=
  exists_stepsOn_of_play (clusterResolver volumePolicies KeepsVolumes) unguarded
    claiming [.take (.createVolume willing sampleVolume), .answer [] 1, .back] (by decide)
      (by decide)

end NimbusCore.Cluster
