import NimbusCore.Controller.Scheduling

/-!
# Controller — the deployment controller

`internal/controller/deployment.go`.  `reconcileOne` brings the pods of one deployment to the number
it asks for: it evicts what is dead or terminal, creates or deletes, evicts again, schedules what
has no node, claims the volumes and writes the status.  Log lines are left out.

A `return err` is a stop with an error (`Stop.err`); an error that is only logged is caught.  A
slice access checks its index (`index`), and a write through a nil pointer stops with a panic, as
in Go.
-/

namespace NimbusCore.Controller

open Api Registry Scheduler

/-! ### Owned pods -/

/-- `nodeReady`. -/
def nodeReady (name : String) : Reg Bool := do
  match ← Registry.get .nodes "" name with
  | .error .notFound => return false
  | .error err => orReturn "" (.error err)
  | .ok node => return node.getStatus.ready

/-- The pod carries the owner label of `d`. -/
def OwnedBy (d : Deployment) (p : Pod) : Prop :=
  p.getMetadata.label OwnerDeploymentLabel = d.getMetadata.name

instance (d : Deployment) (p : Pod) : Decidable (OwnedBy d p) :=
  inferInstanceAs (Decidable (_ = _))

/-- The pod has reached a terminal phase. -/
def Terminal (p : Pod) : Prop := p.getStatus.phase = .succeeded ∨ p.getStatus.phase = .failed

instance (p : Pod) : Decidable (Terminal p) := inferInstanceAs (Decidable (_ ∨ _))

/-- `r.pods.Delete`, of a pod under its own metadata. -/
def deletePod (p : Pod) (text : String) : Reg Unit := do
  orReturn text (← Registry.delete .pods p.getMetadata.ns p.getMetadata.name)

/-- Whether the pod is on a node that is gone or not ready. -/
def onDeadNode (p : Pod) : Reg Bool := do
  if p.getSpec.nodeName = "" then return false
  else return !(← nodeReady p.getSpec.nodeName)

/-- The loop of `ownedPods`. -/
def ownedLoop (d : Deployment) : List Pod → Reg (List Pod)
  | [] => return []
  | p :: all => do
    if ¬ OwnedBy d p then ownedLoop d all
    else if ← onDeadNode p then
      deletePod p ""
      ownedLoop d all
    else if Terminal p then
      deletePod p ""
      ownedLoop d all
    else
      let owned ← ownedLoop d all
      return p :: owned

/-- `ownedPods`. -/
def ownedPods (d : Deployment) : Reg (List Pod) := do
  let all ← orReturn "" (← Registry.list .pods d.getMetadata.ns)
  ownedLoop d all

/-! ### Scaling -/

/-- The number of replicas `reconcileOne` aims at. -/
def wanted (d : Deployment) : Int :=
  let want := d.getSpec.replicas.toInt
  if 0 < d.getTemplate.volumes.length ∧ 1 < want then 1 else want

/-- `resolveVolumeNode`. -/
def resolveVolumeNode (ns : String) : List VolumeMount → Reg String
  | [] => return ""
  | m :: mounts => do
    match ← Registry.get .volumes ns m.volumeName with
    | .error .notFound => resolveVolumeNode ns mounts
    | .error err => orReturn "" (.error err)
    | .ok vol =>
      if vol.getStatus.nodeName ≠ "" then return vol.getStatus.nodeName
      else resolveVolumeNode ns mounts

/-- `fmt.Sprintf("%s-%d", name, index)`. -/
def podName (d : Deployment) (index : Nat) : String :=
  d.getMetadata.name ++ "-" ++ toString index

/-- `newPod`. -/
def newPod (d : Deployment) (index : Nat) : Pod :=
  { metadata := some
      { name := podName d index
        ns := d.getMetadata.ns
        labels := d.getSpec.selector.insert OwnerDeploymentLabel d.getMetadata.name }
    spec := d.getSpec.template
    status := some { phase := .pending } }

/-- The indices of the owned pods whose name ends in a number. -/
def occupied (d : Deployment) (owned : List Pod) : List Int :=
  owned.filterMap fun p => atoi (trimPrefix p.getMetadata.name (d.getMetadata.name ++ "-"))

/-- `pod.Spec.NodeName = claimedNode`, which needs a spec. -/
def pin (claimedNode : String) (p : Pod) : Reg Pod :=
  if claimedNode = "" then return p
  else match p.spec with
    | none => .stop (.panic .nilDereference)
    | some spec => return { p with spec := some { spec with nodeName := claimedNode } }

/-- The loop that creates pods: at most `fuel` rounds, `toCreate` pods still to make, at index
`i`. -/
def createLoop (d : Deployment) (claimedNode : String) (occ : List Int) :
    (fuel toCreate i : Nat) → Reg Unit
  | _, 0, _ => return ()
  | 0, _ + 1, _ => .stop (.panic .outOfFuel)
  | fuel + 1, toCreate + 1, i =>
    if (i : Int) ∈ occ then createLoop d claimedNode occ fuel (toCreate + 1) (i + 1)
    else do
      let pod ← pin claimedNode (newPod d i)
      orReturn "create pod" (← Registry.put .pods pod.getMetadata.ns pod.getMetadata.name pod)
      createLoop d claimedNode occ fuel toCreate (i + 1)

/-- The case `have < want`. -/
def scaleUp (d : Deployment) (owned : List Pod) (toCreate : Nat) : Reg Unit := do
  let mounts := d.getTemplate.volumes
  let claimedNode ←
    if 0 < mounts.length then
      wrap "resolve volume node" (resolveVolumeNode d.getMetadata.ns mounts)
    else pure ""
  createLoop d claimedNode (occupied d owned) (toCreate + owned.length) toCreate 0

/-- `owned[i]`. -/
def index (owned : List Pod) (i : Int) : Reg Pod :=
  if i < 0 then .stop (.panic .indexOutOfRange)
  else match owned[i.toNat]? with
    | none => .stop (.panic .indexOutOfRange)
    | some p => return p

/-- The loop `for i := want; i < have; i++`, with its number of rounds. -/
def deleteLoop (owned : List Pod) : (rounds : Nat) → (i : Int) → Reg Unit
  | 0, _ => return ()
  | rounds + 1, i => do
    let p ← index owned i
    deletePod p "delete pod"
    deleteLoop owned rounds (i + 1)

/-- The `switch` of `reconcileOne`. -/
def scale (d : Deployment) (owned : List Pod) : Reg Unit :=
  let want := wanted d
  let have_ : Int := owned.length
  if have_ < want then scaleUp d owned (want - have_).toNat
  else if want < have_ then deleteLoop owned (have_ - want).toNat want
  else return ()

/-! ### Scheduling and volumes -/

/-- The loop of `scheduleUnassigned`: the pods as they become, and the error it stops with. -/
def scheduleLoop (candidates : List NodeCandidate) : List Pod → Reg (List Pod × Option Failure)
  | [] => return ([], none)
  | p :: pods => do
    if p.getSpec.nodeName ≠ "" then
      let (pods, err) ← scheduleLoop candidates pods
      return (p :: pods, err)
    else
      match ← schedulePod candidates p with
      | (p, some err) => return (p :: pods, some err)
      | (p, none) =>
        let (pods, err) ← scheduleLoop candidates pods
        return (p :: pods, err)

/-- `scheduleUnassigned`.  It changes the pods in place: returned are the pods as they become, and
the error. -/
def scheduleUnassigned (pods : List Pod) : Reg (List Pod × Option Failure) := do
  if pods.all (fun p => p.getSpec.nodeName ≠ "") then return (pods, none)
  else
    match ← computeNodeUsage with
    | .error err => return (pods, some ⟨"compute node usage", err⟩)
    | .ok usage =>
      match ← buildNodeCandidates usage with
      | .error err => return (pods, some ⟨"list nodes", err⟩)
      | .ok candidates => scheduleLoop candidates pods

/-- The node of the first owned pod that has one. -/
def firstNode (owned : List Pod) : String :=
  ((owned.map fun p => p.getSpec.nodeName).find? fun n => n ≠ "").getD ""

/-- `vol` claimed for a node; `vol.Metadata` must be there. -/
def claim (d : Deployment) (nodeName : String) (vol : Volume) : Reg Volume :=
  match vol.metadata with
  | none => .stop (.panic .nilDereference)
  | some md =>
    let labels := md.labels.insert OwnerDeploymentLabel d.getMetadata.name
    return { vol with
      metadata := some { md with labels := labels }
      status := some { vol.getStatus with nodeName := nodeName } }

/-- The loop of `claimVolumeNodes`. -/
def claimLoop (d : Deployment) (nodeName : String) : List VolumeMount → Reg Unit
  | [] => return ()
  | m :: mounts => do
    match ← Registry.get .volumes d.getMetadata.ns m.volumeName with
    | .error .notFound => claimLoop d nodeName mounts
    | .error err => orReturn "" (.error err)
    | .ok vol =>
      if vol.getStatus.nodeName ≠ "" then claimLoop d nodeName mounts
      else
        let vol ← claim d nodeName vol
        orReturn "" (← Registry.put .volumes d.getMetadata.ns vol.getMetadata.name vol)
        claimLoop d nodeName mounts

/-- `claimVolumeNodes`. -/
def claimVolumeNodes (d : Deployment) (owned : List Pod) : Reg Unit :=
  let nodeName := firstNode owned
  if nodeName = "" then return () else claimLoop d nodeName d.getTemplate.volumes

/-- The call of `claimVolumeNodes` in `reconcileOne`, whose error is logged. -/
def claimVolumes (d : Deployment) (owned : List Pod) : Reg Unit := do
  if 0 < d.getTemplate.volumes.length then
    let _ ← catchErr (claimVolumeNodes d owned)
    return ()
  else return ()

/-! ### The pass -/

/-- The status `reconcileOne` writes. -/
def statusOf (owned : List Pod) : DeploymentStatus :=
  { replicas := Int32.ofNat owned.length
    readyReplicas := Int32.ofNat (owned.countP fun p => p.getStatus.phase = .running) }

/-- The end of `reconcileOne`: the status goes to the deployment as it is now stored. -/
def writeStatus (d : Deployment) (owned : List Pod) : Reg Unit := do
  let current ← orReturn "re-fetch deployment before status update"
    (← Registry.get .deployments d.getMetadata.ns d.getMetadata.name)
  let current : Deployment := { current with status := some (statusOf owned) }
  orReturn "" (← Registry.put .deployments current.getMetadata.ns current.getMetadata.name current)

/-- `reconcileOne`. -/
def reconcileOne (d : Deployment) : Reg Unit := do
  let owned ← wrap "list owned pods" (ownedPods d)
  scale d owned
  let owned ← wrap "re-list owned pods" (ownedPods d)
  let (owned, _) ← scheduleUnassigned owned
  claimVolumes d owned
  writeStatus d owned

/-! ### The loop over the deployments -/

/-- The loop of `reconcileAll`: an error is logged, a panic goes through. -/
def reconcileEach : List Deployment → Reg Unit
  | [] => return ()
  | d :: deployments => do
    let _ ← catchErr (reconcileOne d)
    reconcileEach deployments

/-- `DeploymentReconciler.reconcileAll`. -/
def reconcileAll : Reg Unit := do
  match ← Registry.list .deployments "" with
  | .error _ => return ()
  | .ok deployments => reconcileEach deployments

end NimbusCore.Controller
