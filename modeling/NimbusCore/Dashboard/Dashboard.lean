import NimbusCore.Apiserver.Volumes

/-!
# Dashboard — the requests of the web page

`internal/dashboard/dashboard.go`.  `handleScaleDeployment` reads a deployment, sets its replica
count and creates it again.  `handleCreateDeployment` creates a deployment, with a volume of the
same name if it asks for storage; if there was such a deployment before, its pods are deleted, for
the controller to make them anew.  A body that does not parse is the text of its error.  The service
that is made for a port is returned, and what becomes of it left out.
-/

namespace NimbusCore.Dashboard

open Api Registry Admission Apiserver

/-- `scaleDeploymentRequest`. -/
structure ScaleDeploymentRequest where
  ns : String
  name : String
  replicas : Int32

/-- What `http.Error` is called with: the code, the text, and the status the text ends in. -/
structure HttpError where
  code : Nat
  text : String
  cause : Option Status := none

/-- The namespace of a request, with its default. -/
def ScaleDeploymentRequest.namespaceOf (req : ScaleDeploymentRequest) : String :=
  if req.ns = "" then "default" else req.ns

/-- `handleScaleDeployment`. -/
def handleScaleDeployment (validators : List Validator)
    (body : Except String ScaleDeploymentRequest) : Reg (Except HttpError Deployment) := do
  match body with
  | .error err => return .error ⟨400, "invalid request body: " ++ err, none⟩
  | .ok req =>
    if req.name = "" then return .error ⟨400, "name is required", none⟩
    else if req.replicas < 0 then return .error ⟨400, "replicas must be >= 0", none⟩
    else
      match ← getDeployment req.namespaceOf req.name with
      | .error err => return .error ⟨404, "", some err⟩
      | .ok current =>
        if 0 < current.getTemplate.volumes.length ∧ 1 < req.replicas then
          return .error ⟨400, "deployments with persistent storage must have replicas <= 1", none⟩
        else
          match current.spec with
          | none => .stop (.panic .nilDereference)
          | some spec =>
            let current : Deployment :=
              { current with spec := some { spec with replicas := req.replicas } }
            match ← createDeployment validators current with
            | .error err => return .error ⟨400, "", some err⟩
            | .ok updated => return .ok updated

/-! ### Creating and editing -/

/-- `createDeploymentRequest`. -/
structure CreateDeploymentRequest where
  name : String
  ns : String := ""
  image : String := ""
  gitRepoURL : String := ""
  gitBranch : String := ""
  gitDockerfile : String := ""
  gitContext : String := ""
  replicas : Int32 := 0
  port : Int32 := 0
  command : List String := []
  env : Dict String String := ∅
  cpuMillis : Int64 := 0
  memoryBytes : Int64 := 0
  addPersistentStorage : Bool := false
  mountPath : String := ""
  links : List String := []

/-- `Service`, as far as it is made here. -/
structure Service where
  metadata : ObjectMeta
  selector : Dict String String
  port : Int32
  targetPort : Int32

/-- `linksToLabel`. -/
def linksToLabel : String := "nimbuscore.io/links-to"

namespace CreateDeploymentRequest

/-- The request with the defaults of its namespace and its replica count. -/
def withDefaults (req : CreateDeploymentRequest) : CreateDeploymentRequest :=
  { req with
    ns := if req.ns = "" then "default" else req.ns
    replicas := if req.replicas ≤ 0 then 1 else req.replicas }

/-- The source of the image, if it is to be built. -/
def buildSource (req : CreateDeploymentRequest) : Option BuildSource :=
  if req.gitRepoURL = "" then none
  else some
    { repoUrl := req.gitRepoURL
      branch := req.gitBranch
      dockerfilePath := req.gitDockerfile
      contextPath := req.gitContext }

/-- The container of the template. -/
def container (req : CreateDeploymentRequest) : Container :=
  { name := req.name
    image := if req.gitRepoURL = "" then req.image else ""
    command := req.command
    containerPorts := if 0 < req.port then [req.port] else []
    env := req.env
    buildSource := req.buildSource
    resources :=
      if 0 < req.cpuMillis ∨ 0 < req.memoryBytes then
        some { requests := some { cpuMillis := req.cpuMillis, memoryBytes := req.memoryBytes } }
      else none }

/-- The selector, which is a label of the deployment too. -/
def selector (req : CreateDeploymentRequest) : Dict String String :=
  (∅ : Dict String String).insert "app" req.name

/-- The deployment, with the volumes of its template. -/
def deployment (req : CreateDeploymentRequest) (volumes : List VolumeMount) : Deployment :=
  { metadata := some
      { name := req.name
        ns := req.ns
        labels :=
          if 0 < req.links.length then
            req.selector.insert linksToLabel (String.intercalate "," req.links)
          else req.selector }
    spec := some
      { replicas := req.replicas
        selector := req.selector
        template := some { containers := [req.container], volumes := volumes } } }

/-- The volume of the deployment. -/
def volume (req : CreateDeploymentRequest) : Volume :=
  { metadata := some { name := req.name, ns := req.ns }
    spec := some { requestedBytes := 1073741824 } }

/-- The service of the deployment, if it has a port. -/
def service (req : CreateDeploymentRequest) : Option Service :=
  if 0 < req.port then
    some
      { metadata := { name := req.name, ns := req.ns, labels := req.selector }
        selector := req.selector
        port := req.port
        targetPort := req.port }
  else none

end CreateDeploymentRequest

/-- What `handleCreateDeployment` answers. -/
structure Created where
  deployment : Deployment
  service : Option Service

/-- The volumes of the template: the one that is asked for, which is made unless it can be read, or
those that the deployment has already. -/
def storage (csi : CsiController) (req : CreateDeploymentRequest)
    (existing : Except Status Deployment) : Reg (Except HttpError (List VolumeMount)) :=
  if req.addPersistentStorage then do
    match ← getVolume req.ns req.name with
    | .ok _ => return .ok [{ volumeName := req.name, mountPath := req.mountPath }]
    | .error _ =>
      match ← createVolume csi req.volume with
      | .error err => return .error ⟨500, "create volume: ", some err⟩
      | .ok _ => return .ok [{ volumeName := req.name, mountPath := req.mountPath }]
  else match existing with
    | .error _ => return .ok []
    | .ok d => return .ok d.getTemplate.volumes

/-- The loop of `restartOwnedPods`, whose errors are ignored. -/
def restartLoop (name : String) : List Pod → Reg Unit
  | [] => return ()
  | p :: pods => do
    if p.getMetadata.label Controller.OwnerDeploymentLabel ≠ name then restartLoop name pods
    else
      let _ ← Registry.delete .pods p.getMetadata.ns p.getMetadata.name
      restartLoop name pods

/-- `restartOwnedPods`. -/
def restartOwnedPods (ns name : String) : Reg Unit := do
  match ← Registry.list .pods ns with
  | .error _ => return ()
  | .ok pods => restartLoop name pods

/-- `handleCreateDeployment`, of a request with its defaults. -/
def createOrEdit (validators : List Validator) (csi : CsiController)
    (req : CreateDeploymentRequest) :
    Reg (Except HttpError Created) := do
  if req.addPersistentStorage = true ∧ 1 < req.replicas then
    return .error ⟨400, "deployments with persistent storage must have replicas = 1", none⟩
  else if req.addPersistentStorage = true ∧ req.mountPath = "" then
    return .error ⟨400, "mountPath is required when addPersistentStorage is set", none⟩
  else
    let existing ← getDeployment req.ns req.name
    match ← storage csi req existing with
    | .error err => return .error err
    | .ok volumes =>
      match ← createDeployment validators (req.deployment volumes) with
      | .error err => return .error ⟨400, "", some err⟩
      | .ok created =>
        match existing with
        | .error _ => return .ok ⟨created, req.service⟩
        | .ok _ =>
          restartOwnedPods req.ns req.name
          return .ok ⟨created, req.service⟩

/-- `handleCreateDeployment`. -/
def handleCreateDeployment (validators : List Validator) (csi : CsiController)
    (body : Except String CreateDeploymentRequest) : Reg (Except HttpError Created) := do
  match body with
  | .error err => return .error ⟨400, "invalid request body: " ++ err, none⟩
  | .ok req =>
    if req.name = "" then return .error ⟨400, "name is required", none⟩
    else if req.image = "" ∧ req.gitRepoURL = "" then
      return .error ⟨400, "image or gitRepoUrl is required", none⟩
    else createOrEdit validators csi req.withDefaults

end NimbusCore.Dashboard
