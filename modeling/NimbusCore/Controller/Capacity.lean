import NimbusCore.Controller.Scheduling
import Mathlib.Data.Multiset.Fold

/-!
# Controller — the capacity of the cluster

`internal/controller/capacity.go`: what the nodes that can be scheduled on hold together, what is in
use on them, and how many more replicas of a template the rest has room for.
-/

namespace NimbusCore.Controller

open Api Registry

/-- `clusterCapacity`. -/
structure ClusterCapacity where
  cpuCapacity : Int64 := 0
  cpuUsed : Int64 := 0
  memCapacity : Int64 := 0
  memUsed : Int64 := 0
  acceleratorCapacity : Dict String Int64 := ∅
  acceleratorUsed : Dict String Int64 := ∅

/-- The body of the loop of `computeClusterCapacity`, for a node that is not skipped. -/
def ClusterCapacity.add (usage : Dict String NodeResourceUsage) (c : ClusterCapacity) (n : Node) :
    ClusterCapacity :=
  let alloc := n.allocatable
  let u := usage.getD n.getMetadata.name {}
  { cpuCapacity := c.cpuCapacity + alloc.cpuMillis
    cpuUsed := c.cpuUsed + u.cpuMillis
    memCapacity := c.memCapacity + alloc.memoryBytes
    memUsed := c.memUsed + u.memoryBytes
    acceleratorCapacity := c.acceleratorCapacity.addAll alloc.accelerators
    acceleratorUsed := c.acceleratorUsed.addAll u.accelerators }

/-- The loop of `computeClusterCapacity`. -/
def capacityOf (usage : Dict String NodeResourceUsage) (all : List Node) : ClusterCapacity :=
  (all.filter fun n => Schedulable n).foldl (ClusterCapacity.add usage) {}

/-- `computeClusterCapacity`. -/
def computeClusterCapacity (usage : Dict String NodeResourceUsage) :
    Reg (Except RegistryError ClusterCapacity) := do
  match ← Registry.list .nodes "" with
  | .error err => return .error err
  | .ok all => return .ok (capacityOf usage all)

/-- `fitCount`. -/
def fitCount (remaining perUnit : Int64) : Int32 :=
  if perUnit ≤ 0 then Int32.maxValue
  else if remaining ≤ 0 then 0
  else if Int32.maxValue.toInt64 < remaining / perUnit then Int32.maxValue
  else (remaining / perUnit).toInt32

/-- `if fit < max { max = fit }`. -/
def lower (max fit : Int32) : Int32 := if fit < max then fit else max

theorem toInt_lower (max fit : Int32) : (lower max fit).toInt = min max.toInt fit.toInt := by
  simp only [lower, Int32.lt_iff_toInt_lt]
  split <;> omega

instance : Std.Commutative lower where
  comm a b := Int32.toInt_inj.mp (by simp only [toInt_lower, min_comm])

instance : Std.Associative lower where
  assoc a b c := Int32.toInt_inj.mp (by simp only [toInt_lower, min_assoc])

/-- `maxAdditionalReplicas`.  The loop over the accelerators takes a least element, so its order
does not matter. -/
def ClusterCapacity.maxAdditionalReplicas (c : ClusterCapacity)
    (perReplicaCPU perReplicaMem : Int64)
    (perReplicaAccel : Dict String Int64) : Int32 :=
  let max := lower Int32.maxValue (fitCount (c.cpuCapacity - c.cpuUsed) perReplicaCPU)
  let max := lower max (fitCount (c.memCapacity - c.memUsed) perReplicaMem)
  (perReplicaAccel.entries.map fun e =>
    fitCount (c.acceleratorCapacity.getD e.1 0 - c.acceleratorUsed.getD e.1 0) e.2).fold lower max

end NimbusCore.Controller
