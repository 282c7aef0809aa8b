import NimbusCore.Support.Maps

/-!
# Api — the messages

The messages of `api/v1` that are stored.  A
sub-message that may be absent is an `Option`, and its getter has the defaults of a generated Go
getter on nil.  A repeated field is a list, a map field a `Dict`: absent and empty are the same on
the wire.  A `string` field is a `String`, for it must be valid UTF-8 to be marshalled.  The fields
`namespace` are called `ns`.  An enumeration is open: a code without a name is kept.
-/

namespace NimbusCore.Api

/-- `ObjectMeta`. -/
structure ObjectMeta where
  name : String := ""
  ns : String := ""
  uid : String := ""
  resourceVersion : String := ""
  labels : Dict String String := ∅
  createdAtUnix : Int64 := 0
  deriving DecidableEq

/-- `labels[k]`: the empty string when the label is not there. -/
def ObjectMeta.label (m : ObjectMeta) (k : String) : String := (m.labels.lookup k).getD ""

/-- `ResourceList`. -/
structure ResourceList where
  cpuMillis : Int64 := 0
  memoryBytes : Int64 := 0
  accelerators : Dict String Int64 := ∅
  deriving DecidableEq

/-- `ResourceRequirements`. -/
structure ResourceRequirements where
  requests : Option ResourceList := none
  limits : Option ResourceList := none
  deriving DecidableEq

/-- `Condition`. -/
structure Condition where
  type : String := ""
  status : String := ""
  reason : String := ""
  message : String := ""
  lastTransitionUnix : Int64 := 0
  deriving DecidableEq

/-- `SecurityContext`. -/
structure SecurityContext where
  seccompProfile : String := ""
  addCapabilities : List String := []
  privileged : Bool := false
  allowPrivilegeEscalation : Bool := false
  runAsNonRoot : Bool := false
  deriving DecidableEq

/-- `BuildSource`. -/
structure BuildSource where
  repoUrl : String := ""
  branch : String := ""
  dockerfilePath : String := ""
  contextPath : String := ""
  deriving DecidableEq

/-- `Container`. -/
structure Container where
  name : String := ""
  image : String := ""
  resources : Option ResourceRequirements := none
  securityContext : Option SecurityContext := none
  command : List String := []
  wasmModulePath : String := ""
  containerPorts : List Int32 := []
  env : Dict String String := ∅
  buildSource : Option BuildSource := none
  deriving DecidableEq

/-- `GetResources().GetRequests()`. -/
def Container.requests (c : Container) : ResourceList := ((c.resources.getD {}).requests).getD {}

/-- `RestartPolicy`. -/
inductive RestartPolicy where
  | unspecified
  | always
  | onFailure
  | never
  | unrecognized (code : Int32)
  deriving DecidableEq

/-- `VolumeMount`. -/
structure VolumeMount where
  volumeName : String := ""
  mountPath : String := ""
  readOnly : Bool := false
  deriving DecidableEq

/-- `PodSpec`. -/
structure PodSpec where
  containers : List Container := []
  nodeName : String := ""
  volumes : List VolumeMount := []
  restartPolicy : RestartPolicy := .unspecified
  deriving DecidableEq

/-- `PodPhase`. -/
inductive PodPhase where
  | unspecified
  | pending
  | running
  | succeeded
  | failed
  | unknown
  | unrecognized (code : Int32)
  deriving DecidableEq

/-- `PodStatus`. -/
structure PodStatus where
  phase : PodPhase := .unspecified
  message : String := ""
  conditions : List Condition := []
  restartCount : Int32 := 0
  memoryUsageBytes : Int64 := 0
  deriving DecidableEq

/-- `Pod`. -/
structure Pod where
  metadata : Option ObjectMeta := none
  spec : Option PodSpec := none
  status : Option PodStatus := none
  deriving DecidableEq

namespace Pod

def getMetadata (p : Pod) : ObjectMeta := p.metadata.getD {}
def getSpec (p : Pod) : PodSpec := p.spec.getD {}
def getStatus (p : Pod) : PodStatus := p.status.getD {}

end Pod

/-- `NodeSpec`. -/
structure NodeSpec where
  unschedulable : Bool := false
  deriving DecidableEq

/-- `NodeStatus`. -/
structure NodeStatus where
  capacity : Option ResourceList := none
  allocatable : Option ResourceList := none
  ready : Bool := false
  conditions : List Condition := []
  lastHeartbeatUnix : Int64 := 0
  internalIp : String := ""
  deriving DecidableEq

/-- `Node`. -/
structure Node where
  metadata : Option ObjectMeta := none
  spec : Option NodeSpec := none
  status : Option NodeStatus := none
  deriving DecidableEq

namespace Node

def getMetadata (n : Node) : ObjectMeta := n.metadata.getD {}
def getSpec (n : Node) : NodeSpec := n.spec.getD {}
def getStatus (n : Node) : NodeStatus := n.status.getD {}

/-- `GetStatus().GetAllocatable()`. -/
def allocatable (n : Node) : ResourceList := n.getStatus.allocatable.getD {}

end Node

/-- `VolumePhase`. -/
inductive VolumePhase where
  | unspecified
  | pending
  | bound
  | failed
  | unrecognized (code : Int32)
  deriving DecidableEq

/-- `VolumeSpec`. -/
structure VolumeSpec where
  requestedBytes : Int64 := 0
  deriving DecidableEq

/-- `VolumeStatus`. -/
structure VolumeStatus where
  phase : VolumePhase := .unspecified
  capacityBytes : Int64 := 0
  message : String := ""
  nodeName : String := ""
  deriving DecidableEq

/-- `Volume`. -/
structure Volume where
  metadata : Option ObjectMeta := none
  spec : Option VolumeSpec := none
  status : Option VolumeStatus := none
  deriving DecidableEq

namespace Volume

def getMetadata (v : Volume) : ObjectMeta := v.metadata.getD {}
def getSpec (v : Volume) : VolumeSpec := v.spec.getD {}
def getStatus (v : Volume) : VolumeStatus := v.status.getD {}

end Volume

/-- `DeploymentSpec`. -/
structure DeploymentSpec where
  replicas : Int32 := 0
  selector : Dict String String := ∅
  template : Option PodSpec := none
  minReplicas : Int32 := 0
  maxReplicas : Int32 := 0
  deriving DecidableEq

/-- `DeploymentStatus`. -/
structure DeploymentStatus where
  replicas : Int32 := 0
  readyReplicas : Int32 := 0
  deriving DecidableEq

/-- `Deployment`. -/
structure Deployment where
  metadata : Option ObjectMeta := none
  spec : Option DeploymentSpec := none
  status : Option DeploymentStatus := none
  deriving DecidableEq

namespace Deployment

def getMetadata (d : Deployment) : ObjectMeta := d.metadata.getD {}
def getSpec (d : Deployment) : DeploymentSpec := d.spec.getD {}

/-- `GetSpec().GetTemplate()`, through whose getters nil reads as the empty template. -/
def getTemplate (d : Deployment) : PodSpec := d.getSpec.template.getD {}

end Deployment

/-- `ServiceSpec`. -/
structure ServiceSpec where
  selector : Dict String String := ∅
  port : Int32 := 0
  targetPort : Int32 := 0
  nodePort : Int32 := 0
  deriving DecidableEq

/-- `ServiceEndpoint`. -/
structure ServiceEndpoint where
  podName : String := ""
  nodeIp : String := ""
  nodePort : Int32 := 0
  deriving DecidableEq

/-- `ServiceStatus`. -/
structure ServiceStatus where
  endpoints : List ServiceEndpoint := []
  deriving DecidableEq

/-- `Service`. -/
structure Service where
  metadata : Option ObjectMeta := none
  spec : Option ServiceSpec := none
  status : Option ServiceStatus := none
  deriving DecidableEq

namespace Service

def getMetadata (s : Service) : ObjectMeta := s.metadata.getD {}
def getSpec (s : Service) : ServiceSpec := s.spec.getD {}
def getStatus (s : Service) : ServiceStatus := s.status.getD {}

end Service

/-- `PolicySpec`. -/
structure PolicySpec where
  expression : String := ""
  message : String := ""
  deriving DecidableEq

/-- `Policy`. -/
structure Policy where
  metadata : Option ObjectMeta := none
  spec : Option PolicySpec := none
  deriving DecidableEq

namespace Policy

def getMetadata (p : Policy) : ObjectMeta := p.metadata.getD {}
def getSpec (p : Policy) : PolicySpec := p.spec.getD {}

end Policy

/-- `Secret`. -/
structure Secret where
  metadata : Option ObjectMeta := none
  data : Dict String (List UInt8) := ∅
  deriving DecidableEq

def Secret.getMetadata (s : Secret) : ObjectMeta := s.metadata.getD {}

/-- `Namespace`. -/
structure Namespace where
  metadata : Option ObjectMeta := none
  deriving DecidableEq

def Namespace.getMetadata (n : Namespace) : ObjectMeta := n.metadata.getD {}

/-- `NetworkPolicyPort`. -/
structure NetworkPolicyPort where
  protocol : String := ""
  port : Int32 := 0
  deriving DecidableEq

/-- `NetworkPolicyPeer`. -/
structure NetworkPolicyPeer where
  podSelector : Dict String String := ∅
  deriving DecidableEq

/-- `NetworkPolicyIngressRule`. -/
structure NetworkPolicyIngressRule where
  sources : List NetworkPolicyPeer := []
  ports : List NetworkPolicyPort := []
  deriving DecidableEq

/-- `NetworkPolicySpec`. -/
structure NetworkPolicySpec where
  podSelector : Dict String String := ∅
  ingress : List NetworkPolicyIngressRule := []
  deriving DecidableEq

/-- `NetworkPolicy`. -/
structure NetworkPolicy where
  metadata : Option ObjectMeta := none
  spec : Option NetworkPolicySpec := none
  deriving DecidableEq

def NetworkPolicy.getMetadata (p : NetworkPolicy) : ObjectMeta := p.metadata.getD {}

def NetworkPolicy.getSpec (p : NetworkPolicy) : NetworkPolicySpec := p.spec.getD {}

/-- `ImageRecord`. -/
structure ImageRecord where
  reference : String := ""
  signature : List UInt8 := []
  pushedAtUnix : Int64 := 0
  deriving DecidableEq

end NimbusCore.Api
