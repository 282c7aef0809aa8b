import NimbusCore.Controller.Capacity
import NimbusCore.Controller.Deployment

/-!
# Controller — the horizontal autoscaler

`internal/controller/hpa.go`.  `reconcileOne` takes the memory use of the running pods of a
deployment, works out how many replicas it should have, keeps that number between the deployment's
bounds and within the capacity of the cluster, and writes it to the deployment as it is then stored.
Log lines are left out.

The target is computed in floating point, which is not modelled: it is any function (`Target`) of
what the source computes it from.
-/

namespace NimbusCore.Controller

open Api Registry

namespace HorizontalAutoscaler

/-- `int32(math.Ceil(float64(currentReplicas) * avgUtilization))`, where the average is over the
memory use of the running pods, each divided by `targetMemory`. -/
abbrev Target := (currentReplicas : Int32) → (usages : List Int64) → (targetMemory : Int64) → Int32

/-- The memory use of the running pods of the deployment. -/
def runningUsages (d : Deployment) (all : List Pod) : List Int64 :=
  (all.filter fun p => OwnedBy d p ∧ p.getStatus.phase = .running).map fun p =>
    p.getStatus.memoryUsageBytes

/-- `minReplicas`, with its default. -/
def minReplicas (d : Deployment) : Int32 :=
  if d.getSpec.minReplicas ≤ 0 then 1 else d.getSpec.minReplicas

/-- `currentReplicas`: the number of running pods stands in for a count that is not positive. -/
def currentReplicas (d : Deployment) (running : Nat) : Int32 :=
  if d.getSpec.replicas ≤ 0 then Int32.ofNat running else d.getSpec.replicas

/-- The target between the bounds of the deployment. -/
def bounded (d : Deployment) (desired : Int32) : Int32 :=
  let desired := if desired < minReplicas d then minReplicas d else desired
  if d.getSpec.maxReplicas < desired then d.getSpec.maxReplicas else desired

/-- What one replica of the template requests. -/
def perReplica (d : Deployment) : Int64 × Int64 × Dict String Int64 :=
  d.getTemplate.containers.foldl (fun (cpu, mem, accel) c =>
    (cpu + c.requests.cpuMillis, mem + c.requests.memoryBytes,
      accel.addAll c.requests.accelerators)) (0, 0, ∅)

/-- `capToClusterCapacity`, without the shortfall, which is only logged. -/
def capToClusterCapacity (d : Deployment) (currentReplicas desired : Int32) : Reg Int32 := do
  let usage ← orReturn "" (← computeNodeUsage)
  let capacity ← orReturn "" (← computeClusterCapacity usage)
  let (perReplicaCPU, perReplicaMem, perReplicaAccel) := perReplica d
  let maxAdditional := capacity.maxAdditionalReplicas perReplicaCPU perReplicaMem perReplicaAccel
  let wantAdditional := desired - currentReplicas
  if wantAdditional ≤ maxAdditional then return desired
  else
    let capped := currentReplicas + maxAdditional
    return if capped < currentReplicas then currentReplicas else capped

/-- The end of `reconcileOne`: the number goes to the deployment as it is now stored, whose spec
must be there. -/
def writeReplicas (d : Deployment) (desired : Int32) : Reg Unit := do
  let current ← orReturn "re-fetch deployment before scaling"
    (← Registry.get .deployments d.getMetadata.ns d.getMetadata.name)
  match current.spec with
  | none => .stop (.panic .nilDereference)
  | some spec =>
    let current : Deployment := { current with spec := some { spec with replicas := desired } }
    orReturn ""
      (← Registry.put .deployments current.getMetadata.ns current.getMetadata.name current)

/-- The number is capped if it is an increase, and written if it is another one. -/
def scaleTo (d : Deployment) (currentReplicas desired : Int32) : Reg Unit := do
  let desired ←
    if currentReplicas < desired then
      wrap "check cluster capacity" (capToClusterCapacity d currentReplicas desired)
    else pure desired
  if desired = d.getSpec.replicas then return () else writeReplicas d desired

/-- `reconcileOne`, once the pods are listed. -/
def reconcileListed (target : Target) (d : Deployment) (targetMemory : Int64) (all : List Pod) :
    Reg Unit :=
  let usages := runningUsages d all
  if usages.length = 0 then return ()
  else
    let current := currentReplicas d usages.length
    scaleTo d current (bounded d (target current usages targetMemory))

/-- `reconcileOne`. -/
def reconcileOne (target : Target) (d : Deployment) : Reg Unit := do
  if d.getSpec.maxReplicas ≤ 0 then return ()
  else
    match d.getTemplate.containers with
    | [] => return ()
    | c :: _ =>
      let targetMemory := c.requests.memoryBytes
      if targetMemory ≤ 0 then return ()
      else
        let all ← orReturn "" (← Registry.list .pods d.getMetadata.ns)
        reconcileListed target d targetMemory all

/-- The loop of `reconcileAll`: an error is logged, a panic goes through. -/
def reconcileEach (target : Target) : List Deployment → Reg Unit
  | [] => return ()
  | d :: deployments => do
    let _ ← catchErr (reconcileOne target d)
    reconcileEach target deployments

/-- `HorizontalAutoscaler.reconcileAll`. -/
def reconcileAll (target : Target) : Reg Unit := do
  match ← Registry.list .deployments "" with
  | .error _ => return ()
  | .ok deployments => reconcileEach target deployments

end HorizontalAutoscaler

end NimbusCore.Controller
