import NimbusCore.Apiserver.Deployments
import NimbusCore.Registry.Clock

/-!
# Apiserver — the node service

`internal/apiserver/node_service.go`.  A node is stored under its name, in no namespace.
`Heartbeat` fetches the node, sets what the heartbeat says and puts the whole node back.
-/

namespace NimbusCore.Apiserver

open Api Registry Controller Prog

/-- `CreateNode`. -/
def createNode (node : Node) : Reg (Except Status Node) := do
  if node.getMetadata.name = "" then
    return .error ⟨.invalidArgument, "node.metadata.name is required", none⟩
  else
    match ← Registry.put .nodes "" node.getMetadata.name node with
    | .error err => return .error ⟨.internal, "create node: ", some err⟩
    | .ok () => return .ok node

/-- `DeleteNode`. -/
def deleteNode (name : String) : Reg (Except Status Unit) := do
  match ← Registry.delete .nodes "" name with
  | .error err => return .error ⟨.internal, "delete node: ", some err⟩
  | .ok () => return .ok ()

/-- `HeartbeatRequest`. -/
structure HeartbeatRequest where
  name : String
  capacity : Option ResourceList := none
  allocatable : Option ResourceList := none

/-- The node with what a heartbeat at `now` says. -/
def heard (req : HeartbeatRequest) (now : Time) (node : Node) : Node :=
  { node with
    status := some
      { node.getStatus with
        ready := true
        lastHeartbeatUnix := Time.unix now
        capacity := req.capacity.or node.getStatus.capacity
        allocatable := req.allocatable.or node.getStatus.allocatable } }

/-- `Heartbeat`: the result is `Accepted`. -/
def heartbeat (req : HeartbeatRequest) : Clocked (Except Status Bool) := do
  match ← call (.get .nodes "" req.name) with
  | .error err => return .error ⟨.notFound, "node " ++ req.name ++ ": ", some err⟩
  | .ok node =>
    let t ← now
    match ← call (.put .nodes "" req.name (heard req t node)) with
    | .error err => return .error ⟨.internal, "update node: ", some err⟩
    | .ok () => return .ok true

end NimbusCore.Apiserver
