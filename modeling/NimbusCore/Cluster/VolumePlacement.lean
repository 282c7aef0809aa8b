import NimbusCore.Cluster.VolumeUsers

/-!
# Cluster — where pods with volumes go

A pod that is made by the deployment controller goes to the node of the first of its volumes that is
claimed.  A pod that waits for a node goes wherever there is room: neither controller looks at its
volumes again.

* `ensures_resolveVolumeNode`: the node that is found is the one of a volume, and if none is found
  then no volume is claimed.
* `pods_follow_volumes`: a pod that a controller stores is on the node that its volumes are claimed
  for, if the pods that wait when they are listed mount no claimed volume, and the volumes of a
  deployment are claimed for one node (`PlacedFreely`).
* `pods_stray`: otherwise it may be on another one.
-/

namespace NimbusCore.Cluster

open Api Registry Admission Apiserver Prog
open Controller Dashboard EventLoop

/-! ### Placement -/

/-- The volumes of a state. -/
abbrev Volumes := Dict String Volume

/-- The mounted volume is claimed for the node. -/
def ClaimedFor (V : Volumes) (ns : String) (m : VolumeMount) (node : String) : Prop :=
  node ≠ "" ∧ ∃ vol ∈ V.lookup (path ns m.volumeName), vol.getStatus.nodeName = node

/-- No mounted volume is claimed. -/
def Unclaimed (V : Volumes) (ns : String) (mounts : List VolumeMount) : Prop :=
  ∀ m ∈ mounts, ∀ vol ∈ V.lookup (path ns m.volumeName), vol.getStatus.nodeName = ""

instance (V : Volumes) (ns : String) (mounts : List VolumeMount) :
    Decidable (Unclaimed V ns mounts) :=
  inferInstanceAs (Decidable (∀ _ ∈ _, _))

/-- The mounted volumes that are claimed are claimed for the node. -/
def AllOn (V : Volumes) (ns : String) (mounts : List VolumeMount) (node : String) : Prop :=
  ∀ m ∈ mounts, ∀ vol ∈ V.lookup (path ns m.volumeName), vol.getStatus.nodeName ≠ "" →
    vol.getStatus.nodeName = node

instance (V : Volumes) (ns : String) (mounts : List VolumeMount) (node : String) :
    Decidable (AllOn V ns mounts node) :=
  inferInstanceAs (Decidable (∀ _ ∈ _, _))

/-- **The pod is where its volumes are**: if it has a node, then that is the node for which each of
its volumes is claimed that is claimed at all. -/
def Placed (V : Volumes) (p : Pod) : Prop :=
  p.getSpec.nodeName ≠ "" → AllOn V p.getMetadata.ns p.getSpec.volumes p.getSpec.nodeName

instance (V : Volumes) (p : Pod) : Decidable (Placed V p) := inferInstanceAs (Decidable (_ → _))

/-- The volumes of the deployment are claimed for one node, as far as they are. -/
def Agree (V : Volumes) (d : Deployment) : Prop :=
  ∀ m ∈ d.getTemplate.volumes, ∀ vol ∈ V.lookup (path d.getMetadata.ns m.volumeName),
    vol.getStatus.nodeName ≠ "" →
      AllOn V d.getMetadata.ns d.getTemplate.volumes vol.getStatus.nodeName

instance (V : Volumes) (d : Deployment) : Decidable (Agree V d) :=
  inferInstanceAs (Decidable (∀ _ ∈ _, _))

variable {V : Volumes} {ns : String}

theorem Unclaimed.allOn {mounts : List VolumeMount}
    (h : Unclaimed V ns mounts) (node : String) : AllOn V ns mounts node :=
  fun m hm vol hvol hn => absurd (h m hm vol hvol) hn

/-- The deployments that a listing has returned. -/
def deploymentsIn : (c : Cmd) → c.Answer → Option (List Deployment)
  | .list .deployments _, .ok deployments => some deployments
  | _, _ => none

/-- The deployments that the call has listed at first. -/
def listedDeployments : List ClusterStep → Option (List Deployment)
  | .did c x :: tr => listedDeployments tr <|> deploymentsIn c x
  | .took _ :: _ | [] => none

/-- The pods that wait for a node and are the controller's to schedule mount no volume that is
claimed, and the volumes of a deployment that they are listed for are claimed for one node. -/
def Free (V : Volumes) (listed : Option (List Deployment)) : ClusterCall → String → List Pod → Prop
  | .podPass, _, all =>
    ∀ p ∈ all, Unassigned p → Unclaimed V p.getMetadata.ns p.getSpec.volumes
  | .deploymentPass, ns, all => ∀ deployments ∈ listed, ∀ d ∈ deployments,
    (∀ p ∈ all, OwnedBy d p → Waiting p → Unclaimed V p.getMetadata.ns p.getSpec.volumes) ∧
      (d.getMetadata.ns = ns → Agree V d)
  | _, _, _ => True

/-- **Pods are placed freely** whenever a controller lists them. -/
def PlacedFreely : Guard ClusterCall Cmd Cmd.Answer State where
  allows tr e c x s := match c, x with
    | .list .pods ns, .ok all => Free (s .volumes) (listedDeployments tr) e ns all
    | _, _ => True

/-! ### What is written while the volumes stay -/

/-- The command leaves the volumes, and a pod that it stores is placed. -/
def Places (V : Volumes) (c : Cmd) : Prop :=
  SparesVolumes c ∧ ∀ ns name p, c = .put .pods ns name p → Placed V p

/-- What is answered about the volumes, and of the pods that are listed. -/
def AnswersWith (V : Volumes) (Ok : String → List Pod → Prop) : (c : Cmd) → c.Answer → Prop
  | .get .volumes ns name, .ok vol => V.lookup (path ns name) = some vol
  | .get .volumes ns name, .error .notFound => V.lookup (path ns name) = none
  | .list .pods ns, .ok all => Ok ns all
  | _, _ => True

variable {c : Cmd} {p : Pod} {d : Deployment}

section

variable {V : Volumes} {Ok : String → List Pod → Prop} {Q : Pod → Prop}

theorem places_of_reads (h : c.Reads) : Places V c :=
  ⟨sparesVolumes_of_reads h, by rintro ns name p rfl; cases h⟩

theorem places_put (h : Placed V p) : Places V (.put .pods p.getMetadata.ns p.getMetadata.name p) :=
  ⟨sparesVolumes_of_pods (onlyWrites_put _ _ _ _),
    by rintro ns name q hq; cases hq; exact h⟩

theorem placed_of_waiting (h : Waiting p) (msg : String) : Placed V (setMessage msg p) :=
  fun hn => absurd h.1 hn

/-- What is scheduled is placed, as it has no volume that is claimed. -/
theorem schedules_placing (hOk : ∀ all, Ok ns all → ∀ p ∈ all, Q p → Waiting p →
      Unclaimed V p.getMetadata.ns p.getSpec.volumes) :
    Schedules ns Q (AnswersWith V Ok) (Places V)
      (fun p => Q p → Waiting p → Unclaimed V p.getMetadata.ns p.getSpec.volumes) (Placed V) where
  reads _ := places_of_reads
  puts _ := places_put
  lists := hOk
  assigns _ nodeName hp hq hw _ := by
    rw [assign_metadata, volumes_assign]
    exact (hp hq hw).allOn _
  marks _ msg _ _ hw := placed_of_waiting hw msg

/-- What is found for the mounts. -/
def NodeOf (V : Volumes) (ns : String) (mounts : List VolumeMount) (node : String) : Prop :=
  Unclaimed V ns mounts ∧ node = "" ∨ ∃ m ∈ mounts, ClaimedFor V ns m node

/-- **The node that is found** is the one of a volume, and if none is found then no volume is
claimed. -/
theorem ensures_resolveVolumeNode (ns : String) : ∀ mounts : List VolumeMount,
    (resolveVolumeNode ns mounts).Ensures (AnswersWith V Ok) (Places V) (NodeOf V ns mounts)
  | [] => .inl ⟨fun m hm => absurd hm List.not_mem_nil, rfl⟩
  | m :: mounts => by
    have hrest : Unclaimed V ns [m] → (resolveVolumeNode ns mounts).Ensures (AnswersWith V Ok)
        (Places V) (NodeOf V ns (m :: mounts)) := by
      intro hm
      refine (ensures_resolveVolumeNode ns mounts).mono (fun _ _ h => h) (fun _ h => h) ?_
      rintro node (⟨hun, rfl⟩ | ⟨m', hm', hc⟩)
      · exact .inl ⟨List.forall_mem_cons.mpr ⟨List.forall_mem_singleton.mp hm, hun⟩, rfl⟩
      · exact .inr ⟨m', .tail _ hm', hc⟩
    refine ensures_ask_bind.mpr ⟨places_of_reads rfl, fun x hx => ?_⟩
    rcases x with (_ | _) | vol
    · refine hrest (List.forall_mem_singleton.mpr fun vol hvol => ?_)
      rw [show V.lookup (path ns m.volumeName) = none from hx] at hvol
      cases hvol
    · trivial
    · replace hx : V.lookup (path ns m.volumeName) = some vol := hx
      simp only
      split
      · next hn => exact .inr ⟨m, .head _, hn, vol, hx, rfl⟩
      · next hn =>
        refine hrest (List.forall_mem_singleton.mpr fun vol' hvol => ?_)
        rw [hx] at hvol
        cases hvol
        exact not_not.mp hn

/-- A pod that is made is where the volumes of its deployment are. -/
theorem placed_created (hd : Agree V d) {node : String} (i : Nat)
    (h : NodeOf V d.getMetadata.ns d.getTemplate.volumes node) : Placed V (created d node i) := by
  rcases h with ⟨hun, rfl⟩ | ⟨m, hm, hne, vol, hvol, rfl⟩
  · intro _
    exact Unclaimed.allOn hun _
  · intro _
    have hall := hd m hm vol hvol hne
    rw [created, if_neg hne]
    exact hall

theorem replicates_placing (hd : Agree V d)
    (hOk : ∀ all, Ok d.getMetadata.ns all → ∀ p ∈ all, OwnedBy d p → Waiting p →
      Unclaimed V p.getMetadata.ns p.getSpec.volumes) :
    Replicates d (AnswersWith V Ok) (Places V)
      (fun p => OwnedBy d p → Waiting p → Unclaimed V p.getMetadata.ns p.getSpec.volumes) (Placed V)
      (NodeOf V d.getMetadata.ns d.getTemplate.volumes) :=
  { schedules_placing hOk with
    deletes := fun _ _ _ =>
      ⟨sparesVolumes_of_pods (onlyWrites_delete _ _ _), by rintro ns name p h; cases h⟩
    resolves := ensures_resolveVolumeNode _ _
    creates := fun _ i h _ => placed_created hd i h }

/-- **What is stored for a deployment is placed**, up to the claims: if the volumes do not agree
then the listing of the pods has failed. -/
theorem ensures_podStage_placing (hOk : ∀ ns all, Ok ns all → (∀ p ∈ all, OwnedBy d p → Waiting p →
      Unclaimed V p.getMetadata.ns p.getSpec.volumes) ∧ (d.getMetadata.ns = ns → Agree V d)) :
    (podStage d).Ensures (AnswersWith V Ok) (Places V) fun _ => True := by
  by_cases hd : Agree V d
  · exact (replicates_placing hd fun all h => (hOk _ all h).1).ensures_podStage
  · have hnone : (ownedPods d).Ensures (AnswersWith V Ok) (Places V) fun _ => False := by
      refine Ensures.bind_ok (ensures_asked (places_of_reads rfl)) fun all hx => ?_
      exact absurd ((hOk _ all hx).2 rfl) hd
    exact Ensures.bind hnone.mapStop fun _ h => h.elim

end

/-! ### Passes -/

variable {tr : List ClusterStep} {s : State} {Ok : String → List Pod → Prop} {x : c.Answer}
  {J : List ClusterStep → Prop}

section

variable {validators : List Validator} {e : ClusterCall} {ξ α : Type} {r : ClusterRun}
  {p : Prog Cmd Cmd.Answer ξ α}

/-- A pod that a pass stores is placed. -/
def StoresPlaced (e : ClusterCall) (c : Cmd) (_ : c.Answer) (r _ : ClusterRun) : Prop :=
  e = .deploymentPass ∨ e = .podPass → ∀ ns name p, c = .put .pods ns name p →
    Placed (r.2 .volumes) p

/-- What the program stores is placed, on the event `e`, and it ends in `Φ`. -/
abbrev AllPlaced (validators : List Validator) (e : ClusterCall)
    (Φ : Except ξ α → ClusterRun → Prop) (p : Prog Cmd Cmd.Answer ξ α) (r : ClusterRun) : Prop :=
  p.Follows (clusterLoop validators KeepsVolumes).Drifting
    ((clusterLoop validators KeepsVolumes).onEvent PlacedFreely e) (StoresPlaced e) Φ r

/-- The answers about volumes are from the state. -/
theorem answersWith_of_serve {s' : State} (hV : s .volumes = V)
    (hOk : ∀ ns all, Free V (listedDeployments tr) e ns all → Ok ns all)
    (h : serveOrFail c s x s') (hg : PlacedFreely.allows tr e c x s) : AnswersWith V Ok c x := by
  subst hV
  rcases c with ⟨k, ns, name⟩ | _ | _ | ⟨k, ns⟩
  · cases k with
    | volumes =>
      rcases x with (_ | _) | vol
      · exact lookup_eq_none_of_get h
      · trivial
      · exact lookup_of_get h
    | _ => trivial
  · trivial
  · trivial
  · cases k with
    | pods =>
      cases x with
      | error err => trivial
      | ok all => exact hOk ns all hg
    | _ => trivial

/-- **A part that leaves the volumes**, and what is known of the listing with it. -/
theorem allPlaced_of_ensures (hJ : ∀ c x tr, J tr → J (.did c x :: tr))
    (hOk : ∀ tr ns all, J tr → Free V (listedDeployments tr) e ns all → Ok ns all) {Ξ : α → Prop}
    (hp : p.Ensures (AnswersWith V Ok) (Places V) Ξ)
    (hV : r.2 .volumes = V) (hr : J r.1) : AllPlaced validators e (fun _ r' => J r'.1) p r := by
  refine (Ensures.follows (I := fun r' : ClusterRun => r'.2 .volumes = V ∧ J r'.1)
    (fun r₁ r₂ hd h => ?_) (fun c x r₁ r₂ hc h ha => ?_) hp ⟨hV, hr⟩).mono fun _ _ h => h.1.2
  · exact ⟨(volumes_of_drifts hd.1).trans h.1, hd.2.symm ▸ h.2⟩
  · obtain ⟨ha, hg, htr⟩ := ha
    obtain ⟨k, hk, hc'⟩ := hc.1
    refine ⟨answersWith_of_serve h.1 (fun ns all => hOk r₁.1 ns all h.2) ha hg, ?_, ?_, ?_⟩
    · rintro - ns name p rfl
      rw [h.1]
      exact hc.2 ns name p rfl
    · exact (serveOrFail_frame hc' ha hk.symm).trans h.1
    · rw [htr]
      exact hJ c x r₁.1 h.2

/-- A part that stores no pods. -/
theorem allPlaced_of_no_pods (hJ : ∀ c x tr, J tr → J (.did c x :: tr)) {k : Kind} (hk : k ≠ .pods)
    {Q : ξ → Prop} (hp : p.Within (Cmd.OnlyWrites k) Q) (hr : J r.1) :
    AllPlaced validators e (fun _ r' => J r'.1) p r := by
  refine Within.follows (I := fun r' : ClusterRun => J r'.1)
    (fun (r₁ r₂ : ClusterRun) hd h => ?_) (fun c x (r₁ r₂ : ClusterRun) hc h ha => ⟨?_, ?_⟩) hp hr
  · exact hd.2.symm ▸ h
  · rintro - ns name p rfl
    exact absurd (hc .pods rfl).symm hk
  · rw [ha.2.2]
    exact hJ c x r₁.1 h

/-- **One deployment of the pass.** -/
theorem allPlaced_reconcileOne {ds : List Deployment} (hd : d ∈ ds)
    (hr : listedDeployments r.1 = some ds) :
    AllPlaced validators .deploymentPass (fun _ r' => listedDeployments r'.1 = some ds)
      (reconcileOne d) r := by
  have hJ : ∀ (c : Cmd) (x : c.Answer) tr, listedDeployments tr = some ds →
      listedDeployments (.did c x :: tr) = some ds :=
        fun _ _ _ h => by rw [listedDeployments, h]; rfl
  have hstage : AllPlaced validators .deploymentPass (fun _ r' => listedDeployments r'.1 = some ds)
      (podStage d) r := by
    have hens : (podStage d).Ensures
        (AnswersWith (r.2 .volumes) (Free (r.2 .volumes) (some ds) .deploymentPass))
        (Places (r.2 .volumes)) fun _ => True :=
      ensures_podStage_placing fun ns all h => h ds rfl d hd
    refine allPlaced_of_ensures hJ (fun tr ns all htr h => ?_) hens rfl hr
    rwa [htr] at h
  have hclaim : ∀ (owned : List Pod) (r : ClusterRun), listedDeployments r.1 = some ds →
      AllPlaced validators .deploymentPass (fun _ r' => listedDeployments r'.1 = some ds)
        (claimVolumes d owned) r := fun owned _ hr =>
    allPlaced_of_no_pods hJ (by decide) (claimVolumes_inBounds d owned) hr
  have hstatus : ∀ (owned : List Pod) (r : ClusterRun), listedDeployments r.1 = some ds →
      AllPlaced validators .deploymentPass (fun _ r' => listedDeployments r'.1 = some ds)
        (writeStatus d owned) r := fun owned _ hr =>
    allPlaced_of_no_pods hJ (by decide) (quiet_writeStatus d owned) hr
  rw [reconcileOne_eq]
  refine Follows.bind (Θ := fun _ r' => listedDeployments r'.1 = some ds)
    (fun owned r hr => ?_) (fun _ _ h => h) hstage
  exact Follows.bind (fun _ r hr => hstatus owned.1 r hr) (fun _ _ h => h) (hclaim owned.1 r hr)

theorem allPlaced_deploymentPass :
    AllPlaced validators .deploymentPass (fun _ _ => True) Controller.reconcileAll
      (.took .deploymentPass :: tr, s) := by
  refine follows_ask_bind fun r₁ x r₂ hd ha => ⟨fun _ _ _ _ h => (nomatch h), ?_⟩
  rcases x with err | deployments
  · trivial
  have hlisted : listedDeployments r₂.1 = some deployments := by
    rw [ha.2.2, hd.2]
    rfl
  exact (follows_reconcileEach (fun d hd _ hr => allPlaced_reconcileOne hd hr) hlisted).mono
    fun _ _ _ => trivial

theorem allPlaced_podPass :
    AllPlaced validators .podPass (fun _ _ => True) PodReconciler.reconcileAll
      (.took .podPass :: tr, s) := by
  have hpass : PodReconciler.reconcileAll.Ensures
      (AnswersWith (s .volumes) (Free (s .volumes) none .podPass)) (Places (s .volumes))
      fun _ => True :=
    (schedules_placing (Q := Unassigned) fun all h p hp hu _ => h p hp hu).ensures_podPass rfl
      fun _ h => h
  exact allPlaced_of_ensures (J := fun _ => True) (fun _ _ _ _ => trivial)
    (fun _ _ _ _ h => h) hpass
    rfl trivial

/-- **What the passes store is placed.** -/
theorem allPlaced_body :
    AllPlaced validators e (fun _ _ => True) (body validators e) (.took e :: tr, s) := by
  by_cases he : e = .deploymentPass ∨ e = .podPass
  · rcases he with rfl | rfl
    · exact follows_runAll allPlaced_deploymentPass
    · exact follows_runAll allPlaced_podPass
  · exact follows_of_forall (fun c x r r' h => absurd h he) (fun _ _ => trivial) _ _

/-! ### Runs -/

/-- The pod that a pass is about to store. -/
def placing : Mode ClusterCall Cmd Cmd.Answer → Option Pod
  | .busy .deploymentPass (.call (.put .pods _ _ p) _) => some p
  | .busy .podPass (.call (.put .pods _ _ p) _) => some p
  | _ => none

/-- **Pods follow their volumes.**  A pod that a controller stores, and that has a node, is on the
node that each of its volumes is claimed for at that time, if it is claimed; as long as the pods are
placed freely. -/
theorem pods_follow_volumes {s t : State} {tr : List ClusterStep}
    {m : Mode ClusterCall Cmd Cmd.Answer}
    (h : (clusterLoop validators KeepsVolumes).Reaches PlacedFreely s tr m t) :
    ∀ p ∈ placing m, Placed (t .volumes) p := by
  have hf := Reaches.follows (Ψ := StoresPlaced) (I := fun _ => True) trivial
    (fun _ _ _ _ => trivial) (fun tr e t t₁ _ _ _ => allPlaced_body) h
  -- the store may fail, so that the pod is not stored; the volumes are the same
  have hput : ∀ (e : ClusterCall) (ns name : String) (p : Pod)
      (k : Except RegistryError Unit → Prog Cmd Cmd.Answer Empty Bool),
      m = .busy e (.call (.put .pods ns name p) k) → e = .deploymentPass ∨ e = .podPass →
      Placed (t .volumes) p := by
    rintro e ns name p k rfl he
    have hans : serveOrFail (.put .pods ns name p) t (.error .failed) t := .inr ⟨rfl, rfl⟩
    exact hf.did hans trivial he ns name p rfl
  intro p hp
  unfold placing at hp
  split at hp
  · cases hp
    exact hput _ _ _ _ _ rfl (.inl rfl)
  · cases hp
    exact hput _ _ _ _ _ rfl (.inr rfl)
  · cases hp

end

/-! ### Two nodes -/

instance (V : Volumes) (listed : Option (List Deployment)) (e : ClusterCall) (ns : String)
    (all : List Pod) : Decidable (Free V listed e ns all) :=
  match e with
  | .podPass => inferInstanceAs (Decidable (∀ p ∈ all, _))
  | .deploymentPass => inferInstanceAs (Decidable (∀ deployments ∈ listed, _))
  | .createVolume _ _ | .deleteVolume _ _ _ | .createDeployment _ | .deleteDeployment _ _
  | .createPod _ | .dashboardCreate _ _ => inferInstanceAs (Decidable True)

/-- The pods that a listing has returned, and the namespace. -/
def podsListed : (c : Cmd) → c.Answer → Option (String × List Pod)
  | .list .pods ns, .ok all => some (ns, all)
  | _, _ => none

theorem placedFreely_allows_iff {e : ClusterCall} : PlacedFreely.allows tr e c x s ↔
      ∀ l ∈ podsListed c x, Free (s .volumes) (listedDeployments tr) e l.1 l.2 := by
  unfold PlacedFreely podsListed
  dsimp only
  split <;> simp

instance : DecidableGuard PlacedFreely where
  takes _ _ _ := inferInstanceAs (Decidable True)
  allows _ _ _ _ _ := decidable_of_iff _ placedFreely_allows_iff.symm

/-- Two nodes, and nothing else. -/
def twoNodes : State :=
  State.empty.set .nodes ((Finmap.singleton "m"
    { metadata := some { name := "m" }, status := some { ready := true } }).insert "n"
    { metadata := some { name := "n" }, status := some { ready := true } })

/-- The deployment, with these volumes. -/
def mountingAll (volumes : List String) : Deployment :=
  { metadata := some { name := "web", ns := "a" }
    spec := some
      { replicas := 1
        template := some { volumes := volumes.map fun v => { volumeName := v } } } }

/-- The volume is made, the deployment with it, and its pod goes to the first of the nodes. -/
def claimingOn (v : String) (nodes : List String) : List (Move ClusterCall (List String) Empty) :=
  [.take (.createVolume willing { metadata := some { name := v, ns := "a" } }), .answer [] 1, .back,
    .take (.createDeployment (mountingAll [v])), .answer [] 2, .back,
    .take .deploymentPass, .answer ["a/web"] 1, .answer [] 3, .answer ["a/web-0"] 2,
    .answer nodes 6, .back]

/-- The deployment goes, and its pod. -/
def deleting : List (Move ClusterCall (List String) Empty) :=
  [.take (.deleteDeployment "a" "web"), .answer ["a/web-0"] 3, .back]

/-- The deployment with the volume is made again, and so is its pod. -/
theorem pods_follow_volumes_sample :
    ∃ tr m t, (clusterLoop volumePolicies KeepsVolumes).Reaches PlacedFreely twoNodes tr m t ∧
      (∃ p ∈ placing m, p.getSpec.nodeName = "n" ∧ Mounts p.getSpec "v" ∧
        claimOf t "a" "v" = some ("n", "web")) ∧ ∀ p ∈ placing m, Placed (t .volumes) p := by
  obtain ⟨tr, m, t, h, hp⟩ := exists_of_play (clusterResolver volumePolicies KeepsVolumes)
    PlacedFreely (s := twoNodes)
    (T := fun r => ∃ p ∈ placing r.mode, p.getSpec.nodeName = "n" ∧ Mounts p.getSpec "v" ∧
      claimOf r.state "a" "v" = some ("n", "web"))
    (claimingOn "v" ["n", "m"] ++ deleting ++
      [.take (.createDeployment (mountingAll ["v"])), .answer [] 2, .back,
        .take .deploymentPass, .answer ["a/web"] 1, .answer [] 2])
    (by decide)
  exact ⟨tr, m, t, h, hp, pods_follow_volumes h⟩

/-- A pod of its own that mounts the volume. -/
def mountingPod : Pod :=
  { metadata := some { name := "job", ns := "a" }
    spec := some { volumes := [{ volumeName := "v" }] } }

/-- **Pods stray.**  A pod of its own that mounts a claimed volume is sent to the other node; and so
is the pod of a deployment whose volumes are claimed for both nodes. -/
theorem pods_stray :
    (∃ tr m t, (clusterLoop volumePolicies KeepsVolumes).Reaches unguarded twoNodes tr m t ∧
      ∃ p ∈ placing m, p.getMetadata.name = "job" ∧ ¬ Placed (t .volumes) p) ∧
    ∃ tr m t, (clusterLoop volumePolicies KeepsVolumes).Reaches unguarded twoNodes tr m t ∧
      ∃ p ∈ placing m, p.getMetadata.name = "web-0" ∧ ¬ Placed (t .volumes) p := by
  constructor
  · exact exists_of_play (clusterResolver volumePolicies KeepsVolumes) unguarded (s := twoNodes)
      (T := fun r => ∃ p ∈ placing r.mode, p.getMetadata.name = "job" ∧
        ¬ Placed (r.state .volumes) p)
      (claimingOn "v" ["n", "m"] ++ [.take (.createPod mountingPod), .answer [] 2, .back,
        .take .podPass, .answer ["a/job", "a/web-0"] 2, .answer ["m", "n"] 1])
      (by decide)
  · exact exists_of_play (clusterResolver volumePolicies KeepsVolumes) unguarded (s := twoNodes)
      (T := fun r => ∃ p ∈ placing r.mode, p.getMetadata.name = "web-0" ∧
        ¬ Placed (r.state .volumes) p)
      (claimingOn "u" ["n", "m"] ++ deleting ++ claimingOn "v" ["m", "n"] ++ deleting ++
        [.take (.createDeployment (mountingAll ["u", "v"])), .answer [] 3, .back,
          .take .deploymentPass, .answer ["a/web"] 1, .answer [] 2])
      (by decide)

end NimbusCore.Cluster
