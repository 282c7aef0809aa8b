import NimbusCore.Apiserver.Deployments

/-!
# Apiserver — the pod service

`internal/apiserver/pod_service.go`.  `UpdatePodStatus` fetches a pod, sets its status and puts the
whole pod back.  Who calls is the path of the SPIFFE ID of the peer, if it has one; a node may only
report on a pod that has no node, or is its own.  `quote` is what `%q` makes of a string.
-/

namespace NimbusCore.Apiserver

open Api Registry Admission

/-- The request of `CreatePod` to the chain. -/
def podAdmitReq (pod : Pod) : Request :=
  { ns := pod.getMetadata.ns
    name := ""
    labels := pod.getMetadata.labels
    spec := pod.spec
    replicas := 1 }

/-- The pod with its spec as the validators have left it. -/
def withSpec (pod : Pod) (req : Request) : Pod :=
  { pod with spec := pod.spec.bind fun _ => req.spec }

/-- `CreatePod`. -/
def createPod (validators : List Validator) (pod : Pod) : Reg (Except Status Pod) := do
  if pod.getMetadata.name = "" then
    return .error ⟨.invalidArgument, "pod.metadata.name is required", none⟩
  else
    match ← chainAdmit validators (podAdmitReq pod) with
    | (_, some err) => return .error ⟨.failedPrecondition, err, none⟩
    | (req, none) =>
      let pod := withSpec pod req
      match ← Registry.put .pods pod.getMetadata.ns pod.getMetadata.name pod with
      | .error err => return .error ⟨.internal, "create pod: ", some err⟩
      | .ok () => return .ok pod

/-- **What the chain lets pass is stored as it was given.** -/
theorem yields_createPod {validators : List Validator} {pod : Pod} {s : State}
    (hname : pod.getMetadata.name ≠ "")
    (h : ∀ v ∈ validators, Passes (normalise (podAdmitReq pod)) v) :
    (createPod validators pod).Yields serve s (.ok pod)
      (s.set .pods ((s .pods).insert (path pod.getMetadata.ns pod.getMetadata.name) pod)) := by
  have hspec : (normalise (podAdmitReq pod)).spec = pod.spec := by
    simp only [normalise]
    split <;> rfl
  have hpod : withSpec pod (normalise (podAdmitReq pod)) = pod := by
    rw [withSpec, hspec]
    rcases pod with ⟨md, _ | spec, status⟩ <;> rfl
  rw [createPod, if_neg hname, chainAdmit, admitLoop_pass h, pure_bind_reg]
  simp only [hpod]
  exact Prog.Yields.bind yields_put Prog.yields_pure

/-- `DeletePod`. -/
def deletePod (ns name : String) : Reg (Except Status Unit) := do
  match ← Registry.delete .pods ns name with
  | .error err => return .error ⟨.internal, "delete pod: ", some err⟩
  | .ok () => return .ok ()

/-- `UpdatePodStatusRequest`. -/
structure UpdatePodStatusRequest where
  ns : String
  name : String
  status : Option PodStatus

/-- The node that calls, if a node calls. -/
def callerNode (peer : Option String) : Option String :=
  peer.bind fun path =>
    if "/node/".toList <+: path.toList then some (trimPrefix path "/node/") else none

/-- The node that a report comes from, if the pod is another node's. -/
def deniedNode (peer : Option String) (pod : Pod) : Option String :=
  (callerNode peer).filter fun node =>
    pod.getSpec.nodeName ≠ "" ∧ pod.getSpec.nodeName ≠ node

/-- `UpdatePodStatus`. -/
def updatePodStatus (quote : String → String) (peer : Option String)
    (req : UpdatePodStatusRequest) :
    Reg (Except Status Pod) := do
  match ← Registry.get .pods req.ns req.name with
  | .error err => return .error ⟨.notFound, "pod " ++ req.ns ++ "/" ++ req.name ++ ": ", some err⟩
  | .ok pod =>
    match deniedNode peer pod with
    | some node =>
      return .error ⟨.permissionDenied, "node " ++ quote node ++
        " may not update status for a pod assigned to " ++ quote pod.getSpec.nodeName, none⟩
    | none =>
      let pod := { pod with status := req.status }
      match ← Registry.put .pods req.ns req.name pod with
      | .error err => return .error ⟨.internal, "update pod status: ", some err⟩
      | .ok () => return .ok pod

end NimbusCore.Apiserver
