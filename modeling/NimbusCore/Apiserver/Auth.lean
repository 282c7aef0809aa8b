import NimbusCore.Apiserver.Deployments

/-!
# Apiserver — who may call what

`internal/rbac/rbac.go`, and `rbac.go` and `auth.go` of `internal/apiserver`.  A caller is known by
the SPIFFE ID of its certificate.  A method stands for a verb on a resource; a role allows verbs on
resources, and is bound to the callers whose path starts with some prefix.

* `allow_default_client`, `allow_default_node`: what the default bindings allow the two kinds of
  callers.
-/

namespace NimbusCore.Rbac

/-- `Wildcard`. -/
def Wildcard : String := "*"

/-- `Rule`. -/
structure Rule where
  resources : List String
  verbs : List String

/-- `Rule.allows`. -/
def Rule.allows (r : Rule) (resource verb : String) : Bool :=
  (Wildcard ∈ r.resources || resource ∈ r.resources) && (Wildcard ∈ r.verbs || verb ∈ r.verbs)

/-- `Role`. -/
structure Role where
  name : String
  rules : List Rule

/-- `Role.allows`. -/
def Role.allows (r : Role) (resource verb : String) : Bool :=
  r.rules.any fun rule => rule.allows resource verb

/-- `Binding`. -/
structure Binding where
  pathPrefix : String
  role : Role

/-- `Authorizer`. -/
structure Authorizer where
  bindings : List Binding

/-- `Authorizer.Allow`. -/
def Authorizer.allow (a : Authorizer) (idPath resource verb : String) : Bool :=
  a.bindings.any fun b =>
    b.pathPrefix.toList.isPrefixOf idPath.toList && b.role.allows resource verb

end NimbusCore.Rbac

namespace NimbusCore.Apiserver

open Api Registry Rbac

/-! ### Methods -/

/-- The methods of the services.  Those of a service that is not modelled have no mapping. -/
inductive Method where
  | createPod | getPod | listPods | deletePod | updatePodStatus
  | createNode | getNode | listNodes | deleteNode | heartbeat
  | createDeployment | getDeployment | listDeployments | deleteDeployment
  | createNamespace | getNamespace | listNamespaces | deleteNamespace
  | createVolume | getVolume | listVolumes | deleteVolume
  | createNetworkPolicy | getNetworkPolicy | listNetworkPolicies | deleteNetworkPolicy
  | createService | getService | listServices | deleteService
  | createPolicy | getPolicy | listPolicies | deletePolicy
  | createSecret | getSecret | listSecrets | deleteSecret
  | pushImage | getImage | listImages | deleteImage
  | createBackup | restoreBackup
  | registerCluster | unregisterCluster | listClusters | listFederatedPods
  | joinRaft
  | getCostReport
  | requestSVID
  | other (fullMethod : String)
  deriving DecidableEq

/-- `info.FullMethod`. -/
def Method.fullMethod : Method → String
  | .createPod => "/nimbuscore.v1.PodService/CreatePod"
  | .getPod => "/nimbuscore.v1.PodService/GetPod"
  | .listPods => "/nimbuscore.v1.PodService/ListPods"
  | .deletePod => "/nimbuscore.v1.PodService/DeletePod"
  | .updatePodStatus => "/nimbuscore.v1.PodService/UpdatePodStatus"
  | .createNode => "/nimbuscore.v1.NodeService/CreateNode"
  | .getNode => "/nimbuscore.v1.NodeService/GetNode"
  | .listNodes => "/nimbuscore.v1.NodeService/ListNodes"
  | .deleteNode => "/nimbuscore.v1.NodeService/DeleteNode"
  | .heartbeat => "/nimbuscore.v1.NodeService/Heartbeat"
  | .createDeployment => "/nimbuscore.v1.DeploymentService/CreateDeployment"
  | .getDeployment => "/nimbuscore.v1.DeploymentService/GetDeployment"
  | .listDeployments => "/nimbuscore.v1.DeploymentService/ListDeployments"
  | .deleteDeployment => "/nimbuscore.v1.DeploymentService/DeleteDeployment"
  | .createNamespace => "/nimbuscore.v1.NamespaceService/CreateNamespace"
  | .getNamespace => "/nimbuscore.v1.NamespaceService/GetNamespace"
  | .listNamespaces => "/nimbuscore.v1.NamespaceService/ListNamespaces"
  | .deleteNamespace => "/nimbuscore.v1.NamespaceService/DeleteNamespace"
  | .createVolume => "/nimbuscore.v1.VolumeService/CreateVolume"
  | .getVolume => "/nimbuscore.v1.VolumeService/GetVolume"
  | .listVolumes => "/nimbuscore.v1.VolumeService/ListVolumes"
  | .deleteVolume => "/nimbuscore.v1.VolumeService/DeleteVolume"
  | .createNetworkPolicy => "/nimbuscore.v1.NetworkPolicyService/CreateNetworkPolicy"
  | .getNetworkPolicy => "/nimbuscore.v1.NetworkPolicyService/GetNetworkPolicy"
  | .listNetworkPolicies => "/nimbuscore.v1.NetworkPolicyService/ListNetworkPolicies"
  | .deleteNetworkPolicy => "/nimbuscore.v1.NetworkPolicyService/DeleteNetworkPolicy"
  | .createService => "/nimbuscore.v1.ServiceService/CreateService"
  | .getService => "/nimbuscore.v1.ServiceService/GetService"
  | .listServices => "/nimbuscore.v1.ServiceService/ListServices"
  | .deleteService => "/nimbuscore.v1.ServiceService/DeleteService"
  | .createPolicy => "/nimbuscore.v1.PolicyService/CreatePolicy"
  | .getPolicy => "/nimbuscore.v1.PolicyService/GetPolicy"
  | .listPolicies => "/nimbuscore.v1.PolicyService/ListPolicies"
  | .deletePolicy => "/nimbuscore.v1.PolicyService/DeletePolicy"
  | .createSecret => "/nimbuscore.v1.SecretService/CreateSecret"
  | .getSecret => "/nimbuscore.v1.SecretService/GetSecret"
  | .listSecrets => "/nimbuscore.v1.SecretService/ListSecrets"
  | .deleteSecret => "/nimbuscore.v1.SecretService/DeleteSecret"
  | .pushImage => "/nimbuscore.v1.ImageRegistryService/PushImage"
  | .getImage => "/nimbuscore.v1.ImageRegistryService/GetImage"
  | .listImages => "/nimbuscore.v1.ImageRegistryService/ListImages"
  | .deleteImage => "/nimbuscore.v1.ImageRegistryService/DeleteImage"
  | .createBackup => "/nimbuscore.v1.BackupService/CreateBackup"
  | .restoreBackup => "/nimbuscore.v1.BackupService/RestoreBackup"
  | .registerCluster => "/nimbuscore.v1.FederationService/RegisterCluster"
  | .unregisterCluster => "/nimbuscore.v1.FederationService/UnregisterCluster"
  | .listClusters => "/nimbuscore.v1.FederationService/ListClusters"
  | .listFederatedPods => "/nimbuscore.v1.FederationService/ListFederatedPods"
  | .joinRaft => "/nimbuscore.v1.AdminService/JoinRaft"
  | .getCostReport => "/nimbuscore.v1.FinOpsService/GetCostReport"
  | .requestSVID => "/nimbuscore.v1.IdentityService/RequestSVID"
  | .other fullMethod => fullMethod

/-- `methodResourceVerb`. -/
def methodResourceVerb : Method → Option (String × String)
  | .createPod => some ("pods", "create")
  | .getPod => some ("pods", "get")
  | .listPods => some ("pods", "list")
  | .deletePod => some ("pods", "delete")
  | .updatePodStatus => some ("pods", "update")
  | .createNode => some ("nodes", "create")
  | .getNode => some ("nodes", "get")
  | .listNodes => some ("nodes", "list")
  | .deleteNode => some ("nodes", "delete")
  | .heartbeat => some ("nodes", "update")
  | .createDeployment => some ("deployments", "create")
  | .getDeployment => some ("deployments", "get")
  | .listDeployments => some ("deployments", "list")
  | .deleteDeployment => some ("deployments", "delete")
  | .createNamespace => some ("namespaces", "create")
  | .getNamespace => some ("namespaces", "get")
  | .listNamespaces => some ("namespaces", "list")
  | .deleteNamespace => some ("namespaces", "delete")
  | .createVolume => some ("volumes", "create")
  | .getVolume => some ("volumes", "get")
  | .listVolumes => some ("volumes", "list")
  | .deleteVolume => some ("volumes", "delete")
  | .createNetworkPolicy => some ("networkpolicies", "create")
  | .getNetworkPolicy => some ("networkpolicies", "get")
  | .listNetworkPolicies => some ("networkpolicies", "list")
  | .deleteNetworkPolicy => some ("networkpolicies", "delete")
  | .createService => some ("services", "create")
  | .getService => some ("services", "get")
  | .listServices => some ("services", "list")
  | .deleteService => some ("services", "delete")
  | .createPolicy => some ("policies", "create")
  | .getPolicy => some ("policies", "get")
  | .listPolicies => some ("policies", "list")
  | .deletePolicy => some ("policies", "delete")
  | .createSecret => some ("secrets", "create")
  | .getSecret => some ("secrets", "get")
  | .listSecrets => some ("secrets", "list")
  | .deleteSecret => some ("secrets", "delete")
  | .pushImage => some ("images", "create")
  | .getImage => some ("images", "get")
  | .listImages => some ("images", "list")
  | .deleteImage => some ("images", "delete")
  | .createBackup => some ("backup", "create")
  | .restoreBackup => some ("backup", "restore")
  | .registerCluster => some ("federation", "create")
  | .unregisterCluster => some ("federation", "delete")
  | .listClusters => some ("federation", "list")
  | .listFederatedPods => some ("federation", "list")
  | .joinRaft => some ("admin", "join")
  | .getCostReport => some ("finops", "get")
  | .requestSVID | .other _ => none

/-- `unauthenticatedMethods`. -/
def unauthenticatedMethods : Method → Bool
  | .requestSVID => true
  | _ => false

/-! ### The default bindings -/

def nodeRole : Role where
  name := "node"
  rules :=
    [{ resources := ["nodes"], verbs := ["create", "update"] },
      { resources := ["pods"], verbs := ["list", "update"] },
      { resources := ["services"], verbs := ["list"] }]

def clientRole : Role where
  name := "client"
  rules :=
    [{ resources := ["pods", "deployments", "volumes", "networkpolicies", "services", "policies",
        "secrets", "images", "backup", "federation", "finops", "namespaces"]
       verbs := [Wildcard] },
      { resources := ["nodes"], verbs := ["get", "list"] }]

def controlPlaneRole : Role where
  name := "control-plane"
  rules := [{ resources := [Wildcard], verbs := [Wildcard] }]

/-- `DefaultRBACBindings`. -/
def defaultRBACBindings : List Binding :=
  [{ pathPrefix := "/node/", role := nodeRole },
    { pathPrefix := "/client/", role := clientRole },
    { pathPrefix := "/control-plane/", role := controlPlaneRole }]

/-- `NewAuthorizer(DefaultRBACBindings()...)`. -/
def defaultAuthorizer : Authorizer := ⟨defaultRBACBindings⟩

/-- The path starts with a prefix. -/
def HasPath (pfx idPath : String) : Prop := pfx.toList <+: idPath.toList

instance (pfx idPath : String) : Decidable (HasPath pfx idPath) :=
  inferInstanceAs (Decidable (_ <+: _))

theorem allow_iff (a : Authorizer) (idPath resource verb : String) :
    a.allow idPath resource verb = true ↔
      ∃ b ∈ a.bindings, HasPath b.pathPrefix idPath ∧ b.role.allows resource verb = true := by
  simp [Authorizer.allow, HasPath]

/-- No path starts with two prefixes of which neither is one of the other. -/
theorem not_hasPath {pfx pfx' idPath : String} (h : HasPath pfx idPath)
    (hne : ¬ pfx.toList <+: pfx'.toList ∧ ¬ pfx'.toList <+: pfx.toList) : ¬ HasPath pfx' idPath :=
  fun h' => (List.prefix_or_prefix_of_prefix h h').elim hne.1 hne.2

/-- **A client matches the client binding only.** -/
theorem allow_default_client {idPath : String} (h : HasPath "/client/" idPath)
    (resource verb : String) :
    defaultAuthorizer.allow idPath resource verb = clientRole.allows resource verb := by
  have hnode : ¬ HasPath "/node/" idPath := not_hasPath h (by decide)
  have hcontrol : ¬ HasPath "/control-plane/" idPath := not_hasPath h (by decide)
  rw [Bool.eq_iff_iff, allow_iff]
  simp [defaultAuthorizer, defaultRBACBindings, h, hnode, hcontrol]

/-- **A node matches the node binding only.** -/
theorem allow_default_node {idPath : String} (h : HasPath "/node/" idPath)
    (resource verb : String) :
    defaultAuthorizer.allow idPath resource verb = nodeRole.allows resource verb := by
  have hclient : ¬ HasPath "/client/" idPath := not_hasPath h (by decide)
  have hcontrol : ¬ HasPath "/control-plane/" idPath := not_hasPath h (by decide)
  rw [Bool.eq_iff_iff, allow_iff]
  simp [defaultAuthorizer, defaultRBACBindings, h, hclient, hcontrol]

/-! ### The peer -/

/-- `spiffeid.ID`: its trust domain, and its path. -/
structure SpiffeId where
  trustDomain : String
  path : String
  deriving DecidableEq

/-- `ID.String`. -/
def SpiffeId.text (id : SpiffeId) : String := "spiffe://" ++ id.trustDomain ++ id.path

/-! ### The interceptor -/

/-- `AuthInterceptor`, up to the call of the handler: whether it is called. -/
def authenticate (expectTrustDomain : SpiffeId → Option String) (authz : Authorizer)
    (peer : Except String SpiffeId) (m : Method) : Except Status Unit :=
  if unauthenticatedMethods m then .ok ()
  else
    match peer with
    | .error err => .error ⟨.unauthenticated, err, none⟩
    | .ok id =>
      match expectTrustDomain id with
      | some err =>
        .error ⟨.permissionDenied, "identity " ++ id.text ++ " rejected: " ++ err, none⟩
      | none =>
        match methodResourceVerb m with
        | none =>
          .error ⟨.permissionDenied, "method " ++ m.fullMethod ++
            " has no RBAC mapping — denied by default", none⟩
        | some (resource, verb) =>
          if authz.allow id.path resource verb then .ok ()
          else
            .error ⟨.permissionDenied, "identity " ++ id.text ++ " is not authorized to " ++ verb ++
              " " ++ resource, none⟩

/-- **What the interceptor lets through is allowed.** -/
theorem allow_of_authenticate {expectTrustDomain : SpiffeId → Option String} {authz : Authorizer}
    {id : SpiffeId} {m : Method} (hm : unauthenticatedMethods m = false)
    (h : authenticate expectTrustDomain authz (.ok id) m = .ok ()) :
    ∃ resource verb, methodResourceVerb m = some (resource, verb) ∧
      authz.allow id.path resource verb = true := by
  rw [authenticate, hm] at h
  simp only [Bool.false_eq_true, if_false] at h
  split at h
  · cases h
  · split at h
    · cases h
    · next resource verb hrv =>
      split at h
      · next ha => exact ⟨resource, verb, hrv, ha⟩
      · cases h

end NimbusCore.Apiserver
