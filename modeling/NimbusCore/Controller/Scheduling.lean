import NimbusCore.Registry.Registry
import NimbusCore.Scheduler.Scheduler

/-!
# Controller — usage, candidates, and the scheduling of one pod

`internal/controller/scheduling.go`, and `computeNodeUsage` of `deployment.go`.  Both controllers
take a snapshot of the usage, build the candidates from it once, and then schedule pod after pod
against those candidates.

`schedulePod` writes the pod through a pointer it shares with its caller: it returns the pod as it
has become, beside the error.
-/

namespace NimbusCore.Controller

open Api Registry Scheduler

/-- `OwnerDeploymentLabel`. -/
def OwnerDeploymentLabel : String := "nimbuscore.io/owner-deployment"

/-! ### Usage -/

/-- `nodeResourceUsage`.  `ports` is the set of ports it maps to true. -/
structure NodeResourceUsage where
  cpuMillis : Int64 := 0
  memoryBytes : Int64 := 0
  accelerators : Dict String Int64 := ∅
  ports : Finset Int32 := ∅

/-- The body of the loop over the containers. -/
def NodeResourceUsage.add (u : NodeResourceUsage) (c : Container) : NodeResourceUsage :=
  { cpuMillis := u.cpuMillis + c.requests.cpuMillis
    memoryBytes := u.memoryBytes + c.requests.memoryBytes
    accelerators := u.accelerators.addAll c.requests.accelerators
    ports := u.ports ∪ c.containerPorts.toFinset }

/-- The loop of `computeNodeUsage` over the pods. -/
def nodeUsageOf (all : List Pod) : Dict String NodeResourceUsage :=
  all.foldl (fun usage p =>
    let nodeName := p.getSpec.nodeName
    if nodeName = "" then usage
    else usage.insert nodeName
      (p.getSpec.containers.foldl NodeResourceUsage.add (usage.getD nodeName {}))) ∅

/-- `computeNodeUsage`. -/
def computeNodeUsage : Reg (Except RegistryError (Dict String NodeResourceUsage)) := do
  match ← Registry.list .pods "" with
  | .error err => return .error err
  | .ok all => return .ok (nodeUsageOf all)

/-! ### Candidates -/

/-- A node that `buildNodeCandidates` does not skip. -/
def Schedulable (n : Node) : Prop := n.getStatus.ready = true ∧ n.getSpec.unschedulable = false

instance (n : Node) : Decidable (Schedulable n) := inferInstanceAs (Decidable (_ ∧ _))

/-- The candidate of a node. -/
def candidateOf (usage : Dict String NodeResourceUsage) (n : Node) : NodeCandidate :=
  let name := n.getMetadata.name
  { name := name
    cpuCapacity := n.allocatable.cpuMillis
    memCapacity := n.allocatable.memoryBytes
    cpuUsed := (usage.getD name {}).cpuMillis
    memUsed := (usage.getD name {}).memoryBytes
    acceleratorCapacity := n.allocatable.accelerators
    acceleratorUsed := (usage.getD name {}).accelerators
    usedPorts := (usage.getD name {}).ports }

/-- The loop of `buildNodeCandidates`. -/
def candidatesOf (usage : Dict String NodeResourceUsage) (all : List Node) : List NodeCandidate :=
  (all.filter fun n => Schedulable n).map (candidateOf usage)

/-- `buildNodeCandidates`. -/
def buildNodeCandidates (usage : Dict String NodeResourceUsage) :
    Reg (Except RegistryError (List NodeCandidate)) := do
  match ← Registry.list .nodes "" with
  | .error err => return .error err
  | .ok all => return .ok (candidatesOf usage all)

/-! ### Nodes under their own names -/

/-- Every node is stored under its own name. -/
def NodesNamed (s : State) : Prop :=
  ∀ k n, (s .nodes).lookup k = some n → n.getMetadata.name = k

/-- A call that stores nodes under their own names. -/
def PutsNodesNamed : Cmd → Prop
  | .put .nodes ns name n => path ns name = n.getMetadata.name
  | _ => True

/-- **Nodes stay under their own names.** -/
theorem NodesNamed.step {c : Cmd} {s s' : State} {x : c.Answer} (hs : NodesNamed s)
    (hc : PutsNodesNamed c) (h : serveOrFail c s x s') : NodesNamed s' := by
  intro name n hn
  rw [serveOrFail_post h, lookup_effect] at hn
  cases hw : c.writesAt .nodes name x with
  | none => rw [hw] at hn; exact hs name n hn
  | some v =>
    rw [hw] at hn
    cases hn
    obtain ⟨ns, name', hp, rfl⟩ := put_of_writesAt hw
    exact hc.symm.trans hp

/-! ### One pod -/

/-- `podResourceRequest`. -/
def podResourceRequest (p : Pod) : Int64 × Int64 × Dict String Int64 × List Int32 :=
  p.getSpec.containers.foldl (fun (cpuMillis, memoryBytes, accelerators, ports) c =>
    (cpuMillis + c.requests.cpuMillis, memoryBytes + c.requests.memoryBytes,
      accelerators.addAll c.requests.accelerators, ports ++ c.containerPorts)) (0, 0, ∅, [])

/-- What `schedulePod` asks the scheduler for. -/
def requestOf (p : Pod) : PodRequest :=
  let (cpuReq, memReq, accelReq, ports) := podResourceRequest p
  { name := p.getMetadata.name
    cpuRequest := cpuReq
    memRequest := memReq
    acceleratorsRequested := accelReq
    containerPorts := ports }

/-- `fmt.Sprintf("%v", ports)`. -/
def sprintPorts (ports : List Int32) : String :=
  "[" ++ String.intercalate " " (ports.map toString) ++ "]"

/-- The pending reason. -/
def pendingMessage (ports : List Int32) : String :=
  if 0 < ports.length then
    "waiting for a node with enough free CPU/memory and an available port for containerPort(s) " ++
      sprintPorts ports
  else "waiting for a node with enough free CPU/memory"

/-- `p.Status.Message = msg`, with a status made when there is none. -/
def setMessage (msg : String) (p : Pod) : Pod :=
  { p with status := some { p.getStatus with message := msg } }

/-- `p.Spec.NodeName = nodeName`, with a spec made when there is none. -/
def setNodeName (nodeName : String) (p : Pod) : Pod :=
  { p with spec := some { p.getSpec with nodeName := nodeName } }

/-- The pod assigned to a node: a pending message is cleared. -/
def assign (nodeName : String) (p : Pod) : Pod :=
  let p := setNodeName nodeName p
  if p.getStatus.message ≠ "" then setMessage "" p else p

/-- Writes the pod back; an error is wrapped in `text`. -/
def writeBack (p : Pod) (text : String) : Reg (Pod × Option Failure) := do
  match ← Registry.put .pods p.getMetadata.ns p.getMetadata.name p with
  | .error err => return (p, some ⟨text, err⟩)
  | .ok () => return (p, none)

/-- `schedulePod`. -/
def schedulePod (candidates : List NodeCandidate) (p : Pod) : Reg (Pod × Option Failure) :=
  match schedule (requestOf p) candidates with
  | .error .noNodeAvailable =>
    let msg := pendingMessage (requestOf p).containerPorts
    if p.getStatus.message = msg then return (p, none)
    else writeBack (setMessage msg p) ("record pending reason for pod " ++ p.getMetadata.name)
  | .ok nodeName =>
    writeBack (assign nodeName p)
      ("assign pod " ++ p.getMetadata.name ++ " to node " ++ nodeName)

end NimbusCore.Controller
