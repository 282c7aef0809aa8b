import NimbusCore.Admission.Validators
import NimbusCore.Apiserver.Auth
import NimbusCore.Apiserver.Nodes
import NimbusCore.Apiserver.Pods
import NimbusCore.Apiserver.Services
import NimbusCore.Apiserver.Volumes
import NimbusCore.Registry.Bytes
import NimbusCore.Support.Expansion

/-!
# Apiserver — the other services

The services of `internal/apiserver` that do little more than get, put, list and delete objects of
one kind (namespaces, network policies, policies, secrets, images), and those that go elsewhere:
`BackupService`, which reads and writes the store itself, `FederationService`, `AdminService` and
`FinOpsService`.

A handler is a program over the registries, the clock, the store, and what is outside the store: the
remote clusters, the maps of the federation service, and raft (`ServerCmd`).
-/

namespace NimbusCore.Apiserver

open Api Registry Admission

/-! ### Objects of one kind -/

/-- Fetches an object. -/
def fetch (k : Kind) (what ns name : String) : Reg (Except Status k.Obj) := do
  match ← Registry.get k ns name with
  | .error err => return .error ⟨.notFound, what ++ ": ", some err⟩
  | .ok obj => return .ok obj

/-- Puts an object, and answers with it. -/
def store (k : Kind) (what ns name : String) (obj : k.Obj) : Reg (Except Status k.Obj) := do
  match ← Registry.put k ns name obj with
  | .error err => return .error ⟨.internal, what ++ ": ", some err⟩
  | .ok () => return .ok obj

/-- Lists objects. -/
def listing (k : Kind) (what ns : String) : Reg (Except Status (List k.Obj)) := do
  match ← Registry.list k ns with
  | .error err => return .error ⟨.internal, what ++ ": ", some err⟩
  | .ok objs => return .ok objs

/-- Deletes an object. -/
def removal (k : Kind) (what ns name : String) : Reg (Except Status Unit) := do
  match ← Registry.delete k ns name with
  | .error err => return .error ⟨.internal, what ++ ": ", some err⟩
  | .ok () => return .ok ()

/-- The name is required. -/
def required {α : Type} (what name : String) (p : Reg (Except Status α)) : Reg (Except Status α) :=
  if name = "" then return .error ⟨.invalidArgument, what ++ " is required", none⟩ else p

/-- `GetPod`. -/
def getPod (ns name : String) : Reg (Except Status Pod) :=
  fetch .pods ("pod " ++ ns ++ "/" ++ name) ns name

/-- `ListPods`. -/
def listPods (ns : String) : Reg (Except Status (List Pod)) := listing .pods "list pods" ns

/-- `GetNode`. -/
def getNode (name : String) : Reg (Except Status Node) := fetch .nodes ("node " ++ name) "" name

/-- `ListNodes`. -/
def listNodes : Reg (Except Status (List Node)) := listing .nodes "list nodes" ""

/-- `CreateNamespace`. -/
def createNamespace (quote : String → String) (ns : Namespace) : Reg (Except Status Namespace) :=
  required "namespace.metadata.name" ns.getMetadata.name do
    match ← Registry.get .namespaces "" ns.getMetadata.name with
    | .ok _ =>
      return .error ⟨.alreadyExists, "namespace " ++ quote ns.getMetadata.name ++
        " already exists", none⟩
    | .error _ => store .namespaces "create namespace" "" ns.getMetadata.name ns

/-- `GetNamespace`. -/
def getNamespace (name : String) : Reg (Except Status Namespace) :=
  fetch .namespaces ("namespace " ++ name) "" name

/-- `ListNamespaces`. -/
def listNamespaces : Reg (Except Status (List Namespace)) :=
  listing .namespaces "list namespaces" ""

/-- `DeleteNamespace`. -/
def deleteNamespace (name : String) : Reg (Except Status Unit) :=
  removal .namespaces "delete namespace" "" name

/-- `CreateNetworkPolicy`. -/
def createNetworkPolicy (np : NetworkPolicy) : Reg (Except Status NetworkPolicy) :=
  required "network_policy.metadata.name" np.getMetadata.name
    (store .networkpolicies "create network policy" np.getMetadata.ns np.getMetadata.name np)

/-- `GetNetworkPolicy`. -/
def getNetworkPolicy (ns name : String) : Reg (Except Status NetworkPolicy) :=
  fetch .networkpolicies ("network policy " ++ ns ++ "/" ++ name) ns name

/-- `ListNetworkPolicies`. -/
def listNetworkPolicies (ns : String) : Reg (Except Status (List NetworkPolicy)) :=
  listing .networkpolicies "list network policies" ns

/-- `DeleteNetworkPolicy`. -/
def deleteNetworkPolicy (ns name : String) : Reg (Except Status Unit) :=
  removal .networkpolicies "delete network policy" ns name

/-- `CreatePolicy`.  Unlike the others it is stored in no namespace, and its expression must
compile. -/
def createPolicy (engine : Engine) (pol : Policy) : Reg (Except Status Policy) :=
  required "policy.metadata.name" pol.getMetadata.name
    (required "policy.spec.expression" pol.getSpec.expression
      (match engine.compile pol.getSpec.expression with
        | .error err => return .error ⟨.invalidArgument, "invalid CEL expression: " ++ err, none⟩
        | .ok _ => store .policies "create policy" "" pol.getMetadata.name pol))

/-- `GetPolicy`. -/
def getPolicy (name : String) : Reg (Except Status Policy) :=
  fetch .policies ("policy " ++ name) "" name

/-- `ListPolicies`. -/
def listPolicies : Reg (Except Status (List Policy)) := listing .policies "list policies" ""

/-- `DeletePolicy`. -/
def deletePolicy (name : String) : Reg (Except Status Unit) :=
  removal .policies "delete policy" "" name

/-- `CreateSecret`. -/
def createSecret (secret : Secret) : Reg (Except Status Secret) :=
  required "secret.metadata.name" secret.getMetadata.name
    (store .secrets "create secret" secret.getMetadata.ns secret.getMetadata.name secret)

/-- `GetSecret`. -/
def getSecret (ns name : String) : Reg (Except Status Secret) :=
  fetch .secrets ("secret " ++ ns ++ "/" ++ name) ns name

/-- `ListSecrets`. -/
def listSecrets (ns : String) : Reg (Except Status (List Secret)) :=
  listing .secrets "list secrets" ns

/-- `DeleteSecret`. -/
def deleteSecret (ns name : String) : Reg (Except Status Unit) :=
  removal .secrets "delete secret" ns name

/-- `GetImage`. -/
def getImage (reference : String) : Reg (Except Status ImageRecord) :=
  fetch .images ("image " ++ reference) "" reference

/-- `ListImages`. -/
def listImages : Reg (Except Status (List ImageRecord)) := listing .images "list images" ""

/-- `DeleteImage`. -/
def deleteImage (reference : String) : Reg (Except Status Unit) :=
  removal .images "delete image" "" reference

/-! ### Commands of a handler -/

/-- `RemoteCluster`. -/
structure RemoteCluster where
  name : String
  apiAddr : String

/-- What is outside the store.  An SVID and a connection are known by the number they were made
under. -/
inductive OutsideCmd where
  /-- `identity.Enroll`. -/
  | enroll (apiAddr joinToken name : String)
  /-- `svid.ID`. -/
  | svidID (svid : Nat)
  /-- `grpc.NewClient`. -/
  | newClient (apiAddr : String) (svid : Nat) (id : SpiffeId)
  /-- The critical section of `RegisterCluster`, which closes an older connection. -/
  | keepCluster (cluster : RemoteCluster) (conn : Nat)
  /-- `federation.Registry.Register`. -/
  | register (name : String) (conn : Nat)
  /-- `federation.Registry.Unregister`. -/
  | unregister (name : String)
  /-- The critical section of `UnregisterCluster`. -/
  | dropCluster (name : String)
  /-- The critical section of `ListClusters`. -/
  | clusters
  /-- `federation.Registry.ListPodsAll`. -/
  | listPodsAll (ns : String)
  /-- `RaftJoiner.AddVoter`. -/
  | addVoter (nodeID addr : String)

abbrev OutsideCmd.Answer : OutsideCmd → Type
  | .enroll .. | .newClient .. => Except String Nat
  | .svidID _ => Except String SpiffeId
  | .keepCluster .. | .register .. | .unregister _ | .dropCluster _ => Unit
  | .clusters => List RemoteCluster
  | .listPodsAll _ => List (String × Except String (List Pod))
  | .addVoter .. => Except String Unit

/-- What a handler does: a call of a registry or of the clock, of the store itself, or of what is
outside. -/
inductive ServerCmd where
  | clock (c : ClockCmd)
  /-- `Store.List`. -/
  | listStore (pfx : String)
  /-- `Store.Put`. -/
  | putStore (key : String) (value : Store.Bytes)
  | outside (c : OutsideCmd)

abbrev ServerCmd.Answer : ServerCmd → Type
  | .clock c => c.Answer
  | .listStore _ => Except Store.StoreError (List (Store.GoString × Store.Bytes))
  | .putStore _ _ => Except Store.StoreError Unit
  | .outside c => c.Answer

/-- A program of the server. -/
abbrev Srv := Prog ServerCmd ServerCmd.Answer Stop

/-- A program over the registries and the clock. -/
def overClock {α : Type} (p : Clocked α) : Srv α := p.expand fun c => Prog.ask (ServerCmd.clock c)

/-- A program over the registries. -/
def overRegistry {α : Type} (p : Reg α) : Srv α :=
  p.expand fun c => Prog.ask (ServerCmd.clock (.reg c))

def outside (c : OutsideCmd) : Srv c.Answer := Prog.ask (ServerCmd.outside c)

/-! ### Images, backups, federation, raft and costs -/

/-- `PushImage`.  The verifier is that of the signing key. -/
def pushImage (verify : String → Store.Bytes → Option String) (reference : String)
    (signature : Store.Bytes) : Clocked (Except Status ImageRecord) := do
  if reference = "" then return .error ⟨.invalidArgument, "reference is required", none⟩
  else
    match verify reference signature with
    | some err =>
      return .error ⟨.permissionDenied, "signature verification failed: " ++ err, none⟩
    | none =>
      let t ← now
      let rec_ : ImageRecord :=
        { reference := reference, signature := signature, pushedAtUnix := Time.unix t }
      match ← call (.put .images "" reference rec_) with
      | .error err => return .error ⟨.internal, "push image: ", some err⟩
      | .ok () => return .ok rec_

/-- `BackupEntry`. -/
structure BackupEntry where
  key : String
  value : Store.Bytes

/-- `CreateBackup`.  A key that is stored need not be a text. -/
def createBackup (errorText : Store.StoreError → String) :
    Srv (Except Status (List (Store.GoString × Store.Bytes))) := do
  match ← Prog.ask (ServerCmd.listStore "") with
  | .error err =>
    return .error ⟨.internal, "list store contents: " ++ errorText err, none⟩
  | .ok all => return .ok all

/-- The loop of `RestoreBackup`. -/
def restoreLoop (errorText : Store.StoreError → String) : List BackupEntry →
    Srv (Except Status Unit)
  | [] => return .ok ()
  | e :: entries => do
    match ← Prog.ask (ServerCmd.putStore e.key e.value) with
    | .error err =>
      return .error ⟨.internal, "restore key " ++ e.key ++ ": " ++ errorText err, none⟩
    | .ok () => restoreLoop errorText entries

/-- `RestoreBackup`: the number of entries. -/
def restoreBackup (errorText : Store.StoreError → String) (entries : List BackupEntry) :
    Srv (Except Status Int32) := do
  match ← restoreLoop errorText entries with
  | .error err => return .error err
  | .ok () => return .ok (Int32.ofNat entries.length)

/-- `RegisterClusterRequest`. -/
structure RegisterClusterRequest where
  name : String
  apiAddr : String
  joinToken : String

/-- `RegisterCluster`. -/
def registerCluster (quote : String → String) (req : RegisterClusterRequest) :
    Srv (Except Status RemoteCluster) := do
  if req.name = "" ∨ req.apiAddr = "" ∨ req.joinToken = "" then
    return .error ⟨.invalidArgument, "name, api_addr, and join_token are required", none⟩
  else
    match ← outside (.enroll req.apiAddr req.joinToken ("federation-" ++ req.name)) with
    | .error err =>
      return .error ⟨.permissionDenied, "enroll with remote cluster " ++ quote req.name ++ ": " ++
        err, none⟩
    | .ok svid =>
      match ← outside (.svidID svid) with
      | .error err => return .error ⟨.internal, "read enrolled identity: " ++ err, none⟩
      | .ok selfID =>
        match ← outside (.newClient req.apiAddr svid selfID) with
        | .error err =>
          return .error ⟨.internal, "dial remote cluster " ++ quote req.name ++ ": " ++ err, none⟩
        | .ok conn =>
          let _ ← outside (.keepCluster ⟨req.name, req.apiAddr⟩ conn)
          let _ ← outside (.register req.name conn)
          return .ok ⟨req.name, req.apiAddr⟩

/-- `UnregisterCluster`. -/
def unregisterCluster (name : String) : Srv (Except Status Unit) := do
  let _ ← outside (.unregister name)
  let _ ← outside (.dropCluster name)
  return .ok ()

/-- `ListClusters`. -/
def listClusters : Srv (Except Status (List RemoteCluster)) := do
  let items ← outside .clusters
  return .ok items

/-- `ListFederatedPods`. -/
def listFederatedPods (ns : String) :
    Srv (Except Status (List (String × Except String (List Pod)))) := do
  let results ← outside (.listPodsAll ns)
  return .ok results

/-- `JoinRaft`. -/
def joinRaft (peer : Except String SpiffeId) (nodeId raftAddr : String) :
    Srv (Except Status Unit) := do
  match peer with
  | .error err => return .error ⟨.unauthenticated, err, none⟩
  | .ok id =>
    if ¬ HasPath "/control-plane/" id.path then
      return .error
        ⟨.permissionDenied, "JoinRaft requires a control-plane identity, got " ++ id.text, none⟩
    else if nodeId = "" ∨ raftAddr = "" then
      return .error ⟨.invalidArgument, "node_id and raft_addr are required", none⟩
    else
      match ← outside (.addVoter nodeId raftAddr) with
      | .error err => return .error ⟨.failedPrecondition, "add voter: " ++ err, none⟩
      | .ok () => return .ok ()

/-- `CostReport`. -/
structure CostReport where
  total : Float
  byNamespace : Dict String Float
  byLabel : Dict String Float

/-- `GetCostReport`.  The estimate is computed in floating point, which is not modelled. -/
def getCostReport (estimate : List Pod → String → Time → CostReport) (ns labelKey : String) :
    Clocked (Except Status CostReport) := do
  match ← call (.list .pods ns) with
  | .error err => return .error ⟨.internal, "list pods: ", some err⟩
  | .ok pods =>
    let t ← now
    return .ok (estimate pods labelKey t)

end NimbusCore.Apiserver
