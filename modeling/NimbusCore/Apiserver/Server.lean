import NimbusCore.Apiserver.Objects

/-!
# Apiserver — a call, from the interceptor to the store

A request goes through the interceptor (`authenticate`) and then to the handler of its method.  The
registries of all kinds and the backup service share one store, of bytes (`serveServer`).

* `serving_handle`: **what a handler writes.**  It puts and deletes objects of the kinds of its
  request (`ApiRequest.kinds`), and puts the keys that its request names (`ApiRequest.keys`).
* `lookup_serveServer`: what a command leaves at a key.
-/

namespace NimbusCore.Apiserver

open Api Registry Admission Rbac Prog

/-! ### Requests -/

/-- A request, by its method. -/
inductive ApiRequest where
  | createPod (pod : Pod)
  | getPod (ns name : String)
  | listPods (ns : String)
  | deletePod (ns name : String)
  | updatePodStatus (req : UpdatePodStatusRequest)
  | createNode (node : Node)
  | getNode (name : String)
  | listNodes
  | deleteNode (name : String)
  | heartbeat (req : HeartbeatRequest)
  | createDeployment (d : Deployment)
  | getDeployment (ns name : String)
  | listDeployments (ns : String)
  | deleteDeployment (ns name : String)
  | createNamespace (ns : Namespace)
  | getNamespace (name : String)
  | listNamespaces
  | deleteNamespace (name : String)
  | createVolume (vol : Volume)
  | getVolume (ns name : String)
  | listVolumes (ns : String)
  | deleteVolume (ns name : String)
  | createNetworkPolicy (np : NetworkPolicy)
  | getNetworkPolicy (ns name : String)
  | listNetworkPolicies (ns : String)
  | deleteNetworkPolicy (ns name : String)
  | createService (s : Service)
  | getService (ns name : String)
  | listServices (ns : String)
  | deleteService (ns name : String)
  | createPolicy (pol : Policy)
  | getPolicy (name : String)
  | listPolicies
  | deletePolicy (name : String)
  | createSecret (secret : Secret)
  | getSecret (ns name : String)
  | listSecrets (ns : String)
  | deleteSecret (ns name : String)
  | pushImage (reference : String) (signature : Store.Bytes)
  | getImage (reference : String)
  | listImages
  | deleteImage (reference : String)
  | createBackup
  | restoreBackup (entries : List BackupEntry)
  | registerCluster (req : RegisterClusterRequest)
  | unregisterCluster (name : String)
  | listClusters
  | listFederatedPods (ns : String)
  | joinRaft (nodeId raftAddr : String)
  | getCostReport (ns labelKey : String)

namespace ApiRequest

/-- The method of a request. -/
def method : ApiRequest → Method
  | .createPod _ => .createPod
  | .getPod _ _ => .getPod
  | .listPods _ => .listPods
  | .deletePod _ _ => .deletePod
  | .updatePodStatus _ => .updatePodStatus
  | .createNode _ => .createNode
  | .getNode _ => .getNode
  | .listNodes => .listNodes
  | .deleteNode _ => .deleteNode
  | .heartbeat _ => .heartbeat
  | .createDeployment _ => .createDeployment
  | .getDeployment _ _ => .getDeployment
  | .listDeployments _ => .listDeployments
  | .deleteDeployment _ _ => .deleteDeployment
  | .createNamespace _ => .createNamespace
  | .getNamespace _ => .getNamespace
  | .listNamespaces => .listNamespaces
  | .deleteNamespace _ => .deleteNamespace
  | .createVolume _ => .createVolume
  | .getVolume _ _ => .getVolume
  | .listVolumes _ => .listVolumes
  | .deleteVolume _ _ => .deleteVolume
  | .createNetworkPolicy _ => .createNetworkPolicy
  | .getNetworkPolicy _ _ => .getNetworkPolicy
  | .listNetworkPolicies _ => .listNetworkPolicies
  | .deleteNetworkPolicy _ _ => .deleteNetworkPolicy
  | .createService _ => .createService
  | .getService _ _ => .getService
  | .listServices _ => .listServices
  | .deleteService _ _ => .deleteService
  | .createPolicy _ => .createPolicy
  | .getPolicy _ => .getPolicy
  | .listPolicies => .listPolicies
  | .deletePolicy _ => .deletePolicy
  | .createSecret _ => .createSecret
  | .getSecret _ _ => .getSecret
  | .listSecrets _ => .listSecrets
  | .deleteSecret _ _ => .deleteSecret
  | .pushImage _ _ => .pushImage
  | .getImage _ => .getImage
  | .listImages => .listImages
  | .deleteImage _ => .deleteImage
  | .createBackup => .createBackup
  | .restoreBackup _ => .restoreBackup
  | .registerCluster _ => .registerCluster
  | .unregisterCluster _ => .unregisterCluster
  | .listClusters => .listClusters
  | .listFederatedPods _ => .listFederatedPods
  | .joinRaft _ _ => .joinRaft
  | .getCostReport _ _ => .getCostReport

/-- A request is of a method that the interceptor looks up. -/
theorem authenticated (req : ApiRequest) : unauthenticatedMethods req.method = false := by
  cases req <;> rfl

/-- The kinds of which its handler may put or delete objects. -/
def kinds : ApiRequest → List Kind
  | .createPod _ | .deletePod _ _ | .updatePodStatus _ => [.pods]
  | .createNode _ | .deleteNode _ | .heartbeat _ => [.nodes]
  | .createDeployment _ => [.deployments]
  -- the pods go with their deployment
  | .deleteDeployment _ _ => [.deployments, .pods]
  | .createNamespace _ | .deleteNamespace _ => [.namespaces]
  | .createVolume _ | .deleteVolume _ _ => [.volumes]
  | .createNetworkPolicy _ | .deleteNetworkPolicy _ _ => [.networkpolicies]
  | .createService _ | .deleteService _ _ => [.services]
  | .createPolicy _ | .deletePolicy _ => [.policies]
  | .createSecret _ | .deleteSecret _ _ => [.secrets]
  | .pushImage _ _ | .deleteImage _ => [.images]
  | _ => []

/-- The keys that its handler may put, of any kind. -/
def keys : ApiRequest → List String
  | .restoreBackup entries => entries.map BackupEntry.key
  | _ => []

end ApiRequest

/-! ### Handlers -/

/-- What the services were made with, and what is outside the repository. -/
structure Deps where
  texts : Texts
  storeErrorText : Store.StoreError → String
  /-- `admission.Chain`. -/
  chain : List PackageValidator
  csi : CsiController
  engine : Engine
  /-- `imagesign.Verify`, with the public key. -/
  verifySignature : String → Store.Bytes → Option String
  /-- `finops.Estimate`, with the cost model. -/
  estimate : List Pod → String → Time → CostReport

/-- The answer without the message in it. -/
def discard {α : Type} (p : Srv (Except Status α)) : Srv (Except Status Unit) := do
  match ← p with
  | .error err => return .error err
  | .ok _ => return .ok ()

/-- The handlers. -/
def handle (deps : Deps) (peer : Except String SpiffeId) : ApiRequest → Srv (Except Status Unit)
  | .createPod pod =>
    discard (overRegistry (createPod (packageChain deps.texts deps.chain) pod))
  | .getPod ns name => discard (overRegistry (getPod ns name))
  | .listPods ns => discard (overRegistry (listPods ns))
  | .deletePod ns name => discard (overRegistry (deletePod ns name))
  | .updatePodStatus req =>
    discard (overRegistry (updatePodStatus deps.texts.quote (peer.toOption.map (·.path)) req))
  | .createNode node => discard (overRegistry (createNode node))
  | .getNode name => discard (overRegistry (getNode name))
  | .listNodes => discard (overRegistry listNodes)
  | .deleteNode name => discard (overRegistry (deleteNode name))
  | .heartbeat req => discard (overClock (heartbeat req))
  | .createDeployment d =>
    discard (overRegistry (createDeployment (packageChain deps.texts deps.chain) d))
  | .getDeployment ns name => discard (overRegistry (getDeployment ns name))
  | .listDeployments ns => discard (overRegistry (listDeployments ns))
  | .deleteDeployment ns name => discard (overRegistry (deleteDeployment ns name))
  | .createNamespace ns => discard (overRegistry (createNamespace deps.texts.quote ns))
  | .getNamespace name => discard (overRegistry (getNamespace name))
  | .listNamespaces => discard (overRegistry listNamespaces)
  | .deleteNamespace name => discard (overRegistry (deleteNamespace name))
  | .createVolume vol => discard (overRegistry (createVolume deps.csi vol))
  | .getVolume ns name => discard (overRegistry (getVolume ns name))
  | .listVolumes ns => discard (overRegistry (listVolumes ns))
  | .deleteVolume ns name => discard (overRegistry (deleteVolume deps.csi ns name))
  | .createNetworkPolicy np => discard (overRegistry (createNetworkPolicy np))
  | .getNetworkPolicy ns name => discard (overRegistry (getNetworkPolicy ns name))
  | .listNetworkPolicies ns => discard (overRegistry (listNetworkPolicies ns))
  | .deleteNetworkPolicy ns name => discard (overRegistry (deleteNetworkPolicy ns name))
  | .createService s => discard (overRegistry (createService s))
  | .getService ns name => discard (overRegistry (getService ns name))
  | .listServices ns => discard (overRegistry (listServices ns))
  | .deleteService ns name => discard (overRegistry (deleteService ns name))
  | .createPolicy pol => discard (overRegistry (createPolicy deps.engine pol))
  | .getPolicy name => discard (overRegistry (getPolicy name))
  | .listPolicies => discard (overRegistry listPolicies)
  | .deletePolicy name => discard (overRegistry (deletePolicy name))
  | .createSecret secret => discard (overRegistry (createSecret secret))
  | .getSecret ns name => discard (overRegistry (getSecret ns name))
  | .listSecrets ns => discard (overRegistry (listSecrets ns))
  | .deleteSecret ns name => discard (overRegistry (deleteSecret ns name))
  | .pushImage reference signature =>
    discard (overClock (pushImage deps.verifySignature reference signature))
  | .getImage reference => discard (overRegistry (getImage reference))
  | .listImages => discard (overRegistry listImages)
  | .deleteImage reference => discard (overRegistry (deleteImage reference))
  | .createBackup => discard (createBackup deps.storeErrorText)
  | .restoreBackup entries => discard (restoreBackup deps.storeErrorText entries)
  | .registerCluster req => discard (registerCluster deps.texts.quote req)
  | .unregisterCluster name => discard (unregisterCluster name)
  | .listClusters => discard listClusters
  | .listFederatedPods ns => discard (listFederatedPods ns)
  | .joinRaft nodeId raftAddr => joinRaft peer nodeId raftAddr
  | .getCostReport ns labelKey => discard (overClock (getCostReport deps.estimate ns labelKey))

/-- A call: the interceptor, and the handler. -/
def serverCall (deps : Deps) (expectTrustDomain : SpiffeId → Option String) (authz : Authorizer)
    (peer : Except String SpiffeId) (req : ApiRequest) : Srv (Except Status Unit) :=
  match authenticate expectTrustDomain authz peer req.method with
  | .error err => return .error err
  | .ok () => handle deps peer req

/-! ### What a handler writes -/

/-- The command writes objects of some kinds only. -/
def WritesAmong (ks : List Kind) (c : Cmd) : Prop := ∀ k ∈ c.writes, k ∈ ks

/-- Whatever the answers are, the program writes objects of some kinds only. -/
abbrev Writing {α : Type} (ks : List Kind) (p : Reg α) : Prop :=
  p.Ensures (fun _ _ => True) (WritesAmong ks) fun _ => True

section

variable {α : Type} {k : Kind} {ks : List Kind}

theorem writesAmong_put (hk : k ∈ ks) (ns name : String) (obj : k.Obj) :
    WritesAmong ks (.put k ns name obj) := by
  rintro _ ⟨⟩
  exact hk

theorem writesAmong_delete (hk : k ∈ ks) (ns name : String) :
    WritesAmong ks (.delete k ns name) := by
  rintro _ ⟨⟩
  exact hk

theorem writesAmong_of_reads {c : Cmd} (h : c.Reads) : WritesAmong ks c := by
  intro k hk
  rw [h] at hk
  cases hk

theorem writing_of_readsOnly {p : Reg α} (h : ReadsOnly p) : Writing ks p :=
  Within.ensures (Within.weaken (fun _ => writesAmong_of_reads) (fun _ he => he) h)

/-- A program of one command. -/
theorem writing_ask {c : Cmd} (hc : WritesAmong ks c) {f : c.Answer → Reg α}
    (hf : ∀ x, (f x).busy = false) : Writing ks (Prog.ask c >>= f) :=
  ensures_ask_bind.mpr ⟨hc, fun x _ => ensures_of_not_busy (hf x)⟩

theorem writing_read {c : Cmd} (hc : c.writes = none) {f : c.Answer → Reg α}
    (hf : ∀ x, (f x).busy = false) : Writing ks (Prog.ask c >>= f) :=
  writing_ask (writesAmong_of_reads hc) hf

theorem writing_fetch (what ns name : String) : Writing ks (fetch k what ns name) :=
  writing_read rfl fun x => by cases x <;> rfl

theorem writing_listing (what ns : String) : Writing ks (listing k what ns) :=
  writing_read rfl fun x => by cases x <;> rfl

theorem writing_store (what ns name : String) (obj : k.Obj) :
    Writing [k] (store k what ns name obj) :=
  writing_ask (writesAmong_put (by simp) ns name obj) fun x => by cases x <;> rfl

theorem writing_removal (what ns name : String) : Writing [k] (removal k what ns name) :=
  writing_ask (writesAmong_delete (by simp) ns name) fun x => by cases x <;> rfl

theorem writing_required (what name : String) {p : Reg (Except Status α)} (hp : Writing ks p) :
    Writing ks (required what name p) := by
  rw [required]
  split
  · trivial
  · exact hp

/-- Admission only reads. -/
theorem writing_chainAdmit (t : Texts) (vs : List PackageValidator) (req : Request) :
    Writing ks (chainAdmit (packageChain t vs) req) :=
  (reads_packageChain t vs req).mono (fun _ _ h => h) (fun _ => writesAmong_of_reads) fun _ h => h

end

section

variable (t : Texts) (vs : List PackageValidator)

theorem writing_createPod (pod : Pod) : Writing [.pods] (createPod (packageChain t vs) pod) := by
  rw [createPod]
  split
  · trivial
  · refine Ensures.bind (writing_chainAdmit t vs _) fun r _ => ?_
    obtain ⟨req, _ | err⟩ := r
    · exact writing_ask (writesAmong_put (by simp) _ _ _) fun x => by cases x <;> rfl
    · trivial

theorem writing_createDeployment (d : Deployment) :
    Writing [.deployments] (createDeployment (packageChain t vs) d) := by
  rw [createDeployment]
  split
  · trivial
  · refine Ensures.bind (writing_chainAdmit t vs _) fun r _ => ?_
    obtain ⟨req, _ | err⟩ := r
    · exact writing_ask (writesAmong_put (by simp) _ _ _) fun x => by cases x <;> rfl
    · trivial

end

theorem writing_updatePodStatus (quote : String → String) (peer : Option String)
    (req : UpdatePodStatusRequest) : Writing [.pods] (updatePodStatus quote peer req) := by
  refine ensures_ask_bind.mpr ⟨writesAmong_of_reads rfl, fun x _ => ?_⟩
  rcases x with err | pod
  · trivial
  dsimp only
  split
  · trivial
  · exact writing_ask (writesAmong_put (by simp) _ _ _) fun x => by cases x <;> rfl

theorem writing_createNode (node : Node) : Writing [.nodes] (createNode node) := by
  rw [createNode]
  split
  · trivial
  · exact writing_ask (writesAmong_put (by simp) _ _ _) fun x => by cases x <;> rfl

theorem writing_deleteOwned (name : String) :
    ∀ pods, Writing [.deployments, .pods] (deleteOwned name pods)
  | [] => trivial
  | p :: pods => by
    rw [deleteOwned]
    split
    · exact writing_deleteOwned name pods
    · refine ensures_ask_bind.mpr ⟨writesAmong_delete (by simp) _ _, fun x _ => ?_⟩
      cases x with
      | error err => trivial
      | ok _ => exact writing_deleteOwned name pods

theorem writing_deleteDeployment (ns name : String) :
    Writing [.deployments, .pods] (deleteDeployment ns name) := by
  refine ensures_ask_bind.mpr ⟨writesAmong_delete (by simp) _ _, fun x _ => ?_⟩
  rcases x with err | _
  · trivial
  refine ensures_ask_bind.mpr ⟨writesAmong_of_reads rfl, fun x _ => ?_⟩
  cases x with
  | error err => trivial
  | ok pods => exact writing_deleteOwned name pods

theorem writing_createNamespace (quote : String → String) (ns : Namespace) :
    Writing [.namespaces] (createNamespace quote ns) := by
  refine writing_required _ _ (ensures_ask_bind.mpr ⟨writesAmong_of_reads rfl, fun x _ => ?_⟩)
  cases x with
  | error err => exact writing_store _ _ _ _
  | ok _ => trivial

theorem writing_createNetworkPolicy (np : NetworkPolicy) :
    Writing [.networkpolicies] (createNetworkPolicy np) :=
  writing_required _ _ (writing_store ..)

theorem writing_createSecret (secret : Secret) : Writing [.secrets] (createSecret secret) :=
  writing_required _ _ (writing_store ..)

theorem writing_createPolicy (engine : Engine) (pol : Policy) :
    Writing [.policies] (createPolicy engine pol) := by
  refine writing_required _ _ (writing_required _ _ ?_)
  split
  · trivial
  · exact writing_store ..

theorem writing_createVolume (csi : CsiController) (vol : Volume) :
    Writing [.volumes] (createVolume csi vol) := by
  simp only [createVolume]
  split
  · trivial
  · split
    · trivial
    · exact writing_ask (writesAmong_put (by simp) _ _ _) fun x => by cases x <;> rfl

theorem writing_deleteVolume (csi : CsiController) (ns name : String) :
    Writing [.volumes] (deleteVolume csi ns name) := by
  simp only [deleteVolume]
  split
  · trivial
  · split
    · trivial
    · exact writing_ask (writesAmong_delete (by simp) _ _) fun x => by cases x <;> rfl

theorem readsOnly_choosePort (s : Service) : ReadsOnly (choosePort s) := by
  rw [choosePort]
  split
  · refine Within.bind (within_ask_bind.mpr ⟨rfl, fun x => ?_⟩) fun x => ?_
    · cases x <;> trivial
    · rcases x with ⟨text, cause⟩ | port <;> trivial
  · refine Within.bind (within_ask_bind.mpr ⟨rfl, fun x => ?_⟩) fun x => ?_
    · cases x <;> trivial
    · rcases x with err | _ | _ <;> trivial

theorem writing_createService (s : Service) : Writing [.services] (createService s) := by
  rw [createService]
  split
  · trivial
  · refine Ensures.bind (writing_of_readsOnly (readsOnly_choosePort s)) fun x _ => ?_
    rcases x with err | port
    · trivial
    refine ensures_ask_bind.mpr ⟨writesAmong_put (by simp) _ _ _, fun x _ => ?_⟩
    cases x with
    | error err => trivial
    | ok _ => exact writing_of_readsOnly (readsOnly_resolve _)

theorem writing_getService (ns name : String) : Writing [] (getService ns name) := by
  refine ensures_ask_bind.mpr ⟨writesAmong_of_reads rfl, fun x _ => ?_⟩
  cases x with
  | error err => trivial
  | ok s => exact writing_of_readsOnly (readsOnly_resolve s)

theorem writing_listServices (ns : String) : Writing [] (listServices ns) := by
  refine ensures_ask_bind.mpr ⟨writesAmong_of_reads rfl, fun x _ => ?_⟩
  cases x with
  | error err => trivial
  | ok items => exact writing_of_readsOnly (readsOnly_resolveLoop items)

/-- The command writes objects of some kinds only, or puts one of some keys. -/
def ServerCmd.WritesAmong (ks : List Kind) (keys : List String) : ServerCmd → Prop
  | .clock (.reg c) => Apiserver.WritesAmong ks c
  | .putStore key _ => key ∈ keys
  | .clock .now | .listStore _ | .outside _ => True

/-- Whatever the answers are, the handler writes objects of some kinds only, and some keys. -/
abbrev Serving {α : Type} (ks : List Kind) (keys : List String) (p : Srv α) : Prop :=
  p.Ensures (fun _ _ => True) (ServerCmd.WritesAmong ks keys) fun _ => True

section

variable {α : Type} {ks : List Kind} {keys : List String}

theorem serving_discard {p : Srv (Except Status α)} (h : Serving ks keys p) :
    Serving ks keys (discard p) :=
  Ensures.bind h fun x _ => by cases x <;> trivial

/-- A handler over the registries writes what the program does. -/
theorem serving_overRegistry {p : Reg (Except Status α)} (h : Writing ks p) :
    Serving ks keys (discard (overRegistry p)) := by
  refine serving_discard (Ensures.expand (fun c hc => ?_) h)
  exact ⟨hc, fun _ _ => trivial⟩

theorem serving_overClock {p : Clocked (Except Status α)}
    (h : p.Ensures (fun _ _ => True) (fun c => ServerCmd.WritesAmong ks keys (.clock c))
      fun _ => True) : Serving ks keys (discard (overClock p)) := by
  refine serving_discard (Ensures.expand (fun c hc => ?_) h)
  exact ⟨hc, fun _ _ => trivial⟩

theorem serving_outside (c : OutsideCmd) {f : c.Answer → Srv α}
    (hf : ∀ x, Serving ks keys (f x)) : Serving ks keys (outside c >>= f) :=
  ensures_ask_bind.mpr ⟨trivial, fun x _ => hf x⟩

end

theorem serving_heartbeat (req : HeartbeatRequest) :
    Serving [.nodes] [] (discard (overClock (heartbeat req))) := by
  refine serving_overClock (ensures_ask_bind.mpr ⟨writesAmong_of_reads rfl, fun x _ => ?_⟩)
  rcases x with err | node
  · trivial
  refine ensures_ask_bind.mpr ⟨trivial, fun t _ => ?_⟩
  refine ensures_ask_bind.mpr ⟨writesAmong_put (by simp) _ _ _, fun x _ => ?_⟩
  cases x <;> trivial

theorem serving_pushImage (verify : String → Store.Bytes → Option String) (reference : String)
    (signature : Store.Bytes) :
    Serving [.images] [] (discard (overClock (pushImage verify reference signature))) := by
  refine serving_overClock ?_
  rw [pushImage]
  split
  · trivial
  · split
    · trivial
    · refine ensures_ask_bind.mpr ⟨trivial, fun t _ => ?_⟩
      refine ensures_ask_bind.mpr ⟨writesAmong_put (by simp) _ _ _, fun x _ => ?_⟩
      cases x <;> trivial

theorem serving_getCostReport (estimate : List Pod → String → Time → CostReport)
    (ns labelKey : String) :
    Serving [] [] (discard (overClock (getCostReport estimate ns labelKey))) := by
  refine serving_overClock (ensures_ask_bind.mpr ⟨writesAmong_of_reads rfl, fun x _ => ?_⟩)
  cases x with
  | error err => trivial
  | ok pods => exact ensures_ask_bind.mpr ⟨trivial, fun t _ => trivial⟩

/-- The loop of a restore puts the keys of the entries. -/
theorem serving_restoreLoop (errorText : Store.StoreError → String) {keys : List String} :
    ∀ {entries : List BackupEntry}, (∀ e ∈ entries, e.key ∈ keys) →
      Serving [] keys (restoreLoop errorText entries)
  | [], _ => trivial
  | e :: entries, h => by
    obtain ⟨he, hes⟩ := List.forall_mem_cons.mp h
    refine ensures_ask_bind.mpr ⟨he, fun x _ => ?_⟩
    cases x with
    | error err => trivial
    | ok _ => exact serving_restoreLoop errorText hes

theorem serving_restoreBackup (errorText : Store.StoreError → String) (entries : List BackupEntry) :
    Serving [] (entries.map BackupEntry.key) (discard (restoreBackup errorText entries)) := by
  refine serving_discard (Ensures.bind (serving_restoreLoop errorText fun e he =>
    List.mem_map_of_mem he) fun x _ => ?_)
  cases x <;> trivial

theorem serving_registerCluster (quote : String → String) (req : RegisterClusterRequest) :
    Serving [] [] (registerCluster quote req) := by
  rw [registerCluster]
  split
  · trivial
  · refine serving_outside _ fun x => ?_
    rcases x with err | svid
    · trivial
    · refine serving_outside _ fun x => ?_
      rcases x with err | selfID
      · trivial
      · refine serving_outside _ fun x => ?_
        rcases x with err | conn
        · trivial
        · exact serving_outside _ fun _ => serving_outside _ fun _ => trivial

theorem serving_joinRaft (peer : Except String SpiffeId) (nodeId raftAddr : String) :
    Serving [] [] (joinRaft peer nodeId raftAddr) := by
  rcases peer with err | id
  · trivial
  · simp only [joinRaft]
    split
    · trivial
    · split
      · trivial
      · refine serving_outside _ fun x => ?_
        rcases x with err | _ <;> trivial

/-- **What a handler writes.** -/
theorem serving_handle (deps : Deps) (peer : Except String SpiffeId) (req : ApiRequest) :
    Serving req.kinds req.keys (handle deps peer req) := by
  cases req with
  | createPod pod => exact serving_overRegistry (writing_createPod _ _ pod)
  | getPod ns name | getNetworkPolicy ns name | getSecret ns name =>
    exact serving_overRegistry (writing_fetch _ ns name)
  | listPods ns | listNetworkPolicies ns | listSecrets ns =>
    exact serving_overRegistry (writing_listing _ ns)
  | deletePod ns name | deleteNode name | deleteService ns name =>
    exact serving_overRegistry (writing_ask (writesAmong_delete (List.mem_singleton_self _) _ _)
      fun x => by cases x <;> rfl)
  | updatePodStatus req => exact serving_overRegistry (writing_updatePodStatus _ _ req)
  | createNode node => exact serving_overRegistry (writing_createNode node)
  | getNode name | getNamespace name | getPolicy name =>
    exact serving_overRegistry (writing_fetch _ _ name)
  | listNodes | listNamespaces | listPolicies | listImages =>
    exact serving_overRegistry (writing_listing _ _)
  | heartbeat req => exact serving_heartbeat req
  | createDeployment d => exact serving_overRegistry (writing_createDeployment _ _ d)
  | getDeployment ns name | listDeployments ns | getVolume ns name | listVolumes ns =>
    exact serving_overRegistry (writing_read rfl fun x => by cases x <;> rfl)
  | deleteDeployment ns name => exact serving_overRegistry (writing_deleteDeployment ns name)
  | createNamespace ns => exact serving_overRegistry (writing_createNamespace _ ns)
  | deleteNamespace name | deletePolicy name =>
    exact serving_overRegistry (writing_removal _ _ name)
  | createVolume vol => exact serving_overRegistry (writing_createVolume _ vol)
  | deleteVolume ns name => exact serving_overRegistry (writing_deleteVolume _ ns name)
  | createNetworkPolicy np => exact serving_overRegistry (writing_createNetworkPolicy np)
  | deleteNetworkPolicy ns name | deleteSecret ns name =>
    exact serving_overRegistry (writing_removal _ ns name)
  | createService s => exact serving_overRegistry (writing_createService s)
  | getService ns name => exact serving_overRegistry (writing_getService ns name)
  | listServices ns => exact serving_overRegistry (writing_listServices ns)
  | createPolicy pol => exact serving_overRegistry (writing_createPolicy _ pol)
  | createSecret secret => exact serving_overRegistry (writing_createSecret secret)
  | pushImage reference signature => exact serving_pushImage _ reference signature
  | getImage reference => exact serving_overRegistry (writing_fetch _ _ reference)
  | deleteImage reference => exact serving_overRegistry (writing_removal _ _ reference)
  | createBackup =>
    refine serving_discard (ensures_ask_bind.mpr ⟨trivial, fun x _ => ?_⟩)
    cases x <;> trivial
  | restoreBackup entries => exact serving_restoreBackup _ entries
  | registerCluster req => exact serving_discard (serving_registerCluster _ req)
  | unregisterCluster name =>
    exact serving_discard (serving_outside _ fun _ => serving_outside _ fun _ => trivial)
  | listClusters | listFederatedPods ns =>
    exact serving_discard (serving_outside _ fun _ => trivial)
  | joinRaft nodeId raftAddr => exact serving_joinRaft peer nodeId raftAddr
  | getCostReport ns labelKey => exact serving_getCostReport _ ns labelKey

/-- **What a call writes**, if the interceptor lets it through, and otherwise nothing. -/
theorem serving_serverCall {deps : Deps} {expectTrustDomain : SpiffeId → Option String}
    {authz : Authorizer} {peer : Except String SpiffeId} {req : ApiRequest} {ks : List Kind}
    {keys : List String} (hks : authenticate expectTrustDomain authz peer req.method = .ok () →
      req.kinds ⊆ ks ∧ req.keys ⊆ keys) :
    Serving ks keys (serverCall deps expectTrustDomain authz peer req) := by
  rw [serverCall]
  split
  · trivial
  · next hauth =>
    obtain ⟨hkinds, hkeys⟩ := hks hauth
    refine (serving_handle deps peer req).mono (fun _ _ h => h) (fun c hc => ?_) fun _ h => h
    rcases c with (c | _) | _ | _ | _
    · exact fun k hk => hkinds (hc k hk)
    · trivial
    · trivial
    · exact hkeys hc
    · trivial

/-! ### The store -/

section

variable {ε : Type} (C : (k : Kind) → Codec k.Obj ε)

/-- One store under the registries and the backup service.  It may fail at any call, which then
changes nothing; the clock and what is outside answer anything. -/
def serveServer : Handler ServerCmd ServerCmd.Answer Store.MemStore
  | .clock (.reg c), t, x, t' => serveBytes C c t x t' ∨ t' = t ∧ x = c.failure
  | .clock .now, t, _, t' => t' = t
  | .listStore pfx, t, x, t' => t' = t ∧
      ((∃ order, Finmap.IsOrder order (t.list (Store.goString pfx)) ∧
        x = .ok ((t.list (Store.goString pfx)).range order)) ∨ ∃ err, x = .error err)
  | .putStore key value, t, x, t' => (t' = t.put (Store.goString key) value ∧ x = .ok ()) ∨
      t' = t ∧ ∃ err, x = .error err
  | .outside _, t, _, t' => t' = t

end

section

variable {ε : Type} {C : (k : Kind) → Codec k.Obj ε} {k : Kind} {ns name : String} {obj : k.Obj}
  {t t' : Store.MemStore}

/-- What is fetched is what the bytes there say. -/
theorem get_serveServer (h : serveServer C (.clock (.reg (.get k ns name))) t (.ok obj) t') :
    t' = t ∧ ∃ b, t.data.lookup (k.storeKey (path ns name)) = some b ∧
      (C k).unmarshal b = .ok obj := by
  rcases h with ⟨ht, h⟩ | ⟨-, h⟩
  · refine ⟨ht, ?_⟩
    rw [TypedRegistry.get, key_typed, Store.MemStore.get] at h
    cases hl : t.data.lookup (k.storeKey (path ns name)) with
    | none => rw [hl] at h; cases h
    | some b =>
      rw [hl] at h
      refine ⟨b, rfl, ?_⟩
      have hu : (typed C k).codec.unmarshal b = (C k).unmarshal b := rfl
      cases hb : (C k).unmarshal b with
      | error err => rw [hb] at hu; simp only [hu] at h; cases h
      | ok obj' => rw [hb] at hu; simp only [hu] at h; cases h; rfl
  · cases h

/-- What is put is there, or nothing has changed. -/
theorem put_serveServer {x : Except RegistryError Unit}
    (h : serveServer C (.clock (.reg (.put k ns name obj))) t x t') :
    t' = t ∨ ∃ b, (C k).marshal obj = .ok b ∧ t' = t.put (k.storeKey (path ns name)) b := by
  rcases h with h | ⟨ht, -⟩
  · simp only [serveBytes, TypedRegistry.put, key_typed] at h
    cases hb : (C k).marshal obj with
    | error err =>
      have hm : (typed C k).codec.marshal obj = .error err := hb
      rw [hm] at h
      exact .inl h.1
    | ok b =>
      have hm : (typed C k).codec.marshal obj = .ok b := hb
      rw [hm] at h
      exact .inr ⟨b, rfl, h.1⟩
  · exact .inl ht

/-- What marshals can be put. -/
theorem serveServer_put {b : Store.Bytes} (hb : (C k).marshal obj = .ok b) (t : Store.MemStore) :
    serveServer C (.clock (.reg (.put k ns name obj))) t (.ok ())
      (t.put (k.storeKey (path ns name)) b) := by
  have hm : (typed C k).codec.marshal obj = .ok b := hb
  refine .inl ?_
  simp only [serveBytes, TypedRegistry.put, hm, key_typed]
  exact ⟨trivial, rfl⟩

end

/-- The key that a command writes. -/
def ServerCmd.writesKey : ServerCmd → Option Store.GoString
  | .clock (.reg (.put k ns name _)) | .clock (.reg (.delete k ns name)) =>
    some (k.storeKey (path ns name))
  | .putStore key _ => some (Store.goString key)
  | _ => none

/-- **What a command leaves at a key** it does not write is what there was. -/
theorem lookup_serveServer {ε : Type} {C : (k : Kind) → Codec k.Obj ε} {c : ServerCmd}
    {t t' : Store.MemStore} {x : c.Answer} (h : serveServer C c t x t') {key : Store.GoString}
    (hkey : c.writesKey ≠ some key) : t'.data.lookup key = t.data.lookup key := by
  rcases c with (c | _) | pfx | ⟨key', value⟩ | c
  · cases c with
    | get k ns name | list k ns => rcases h with ⟨rfl, -⟩ | ⟨rfl, -⟩ <;> rfl
    | put k ns name obj =>
      have hne : key ≠ k.storeKey (path ns name) := fun he => hkey (congrArg some he.symm)
      rcases put_serveServer h with rfl | ⟨b, -, rfl⟩
      · rfl
      · exact Finmap.lookup_insert_of_ne _ hne
    | delete k ns name =>
      have hne : key ≠ k.storeKey (path ns name) := fun he => hkey (congrArg some he.symm)
      rcases h with ⟨rfl, -⟩ | ⟨rfl, -⟩
      · rw [TypedRegistry.delete, key_typed]
        exact Finmap.lookup_erase_ne hne
      · rfl
  · rw [show t' = t from h]
  · rw [h.1]
  · have hne : key ≠ Store.goString key' := fun he => hkey (congrArg some he.symm)
    rcases h with ⟨rfl, -⟩ | ⟨rfl, -⟩
    · exact Finmap.lookup_insert_of_ne _ hne
    · rfl
  · rw [show t' = t from h]

/-! ### Small instances -/

/-- Services that refuse nothing of themselves. -/
def sampleDeps : Deps where
  texts := ⟨id, fun _ => ""⟩
  storeErrorText _ := ""
  chain := []
  csi := ⟨fun _ n => .ok n, fun _ => .ok ()⟩
  engine := ⟨fun _ => .error ""⟩
  verifySignature _ _ := none
  estimate _ _ _ := ⟨0, ∅, ∅⟩

/-- The empty messages, and one node and one pod. -/
def fewCodecs (node : Node) (pod : Pod) : (k : Kind) → Codec k.Obj Unit
  | .deployments => pairCodec {} {}
  | .pods => pairCodec {} pod
  | .nodes => pairCodec {} node
  | .volumes => pairCodec {} {}
  | .services => pairCodec {} {}
  | .policies => pairCodec {} {}
  | .secrets => pairCodec {} {}
  | .networkpolicies => pairCodec {} {}
  | .namespaces => pairCodec {} {}
  | .images => pairCodec {} {}

/-- A node that marshals is stored. -/
theorem interleaving_put :
    ∃ Q tr s', Prog.Interleaves Prog.unguarded (serveMessages (fewCodecs {} {}))
        (fun _ : Unit => Registry.put .nodes "" "n1" {}) State.empty tr Q s' ∧
      Holds (fewCodecs {} {})
        ((typed (fewCodecs {} {}) .nodes).put Store.newMemStore [] (Store.goString "n1") {}).2 s' ∧
      tr.map Prog.Event.done = [((), ⟨.put .nodes "" "n1" {}, .ok ()⟩)] := by
  obtain ⟨tr, s', h, hs, htr⟩ := Holds.interleaving (holds_new (fewCodecs {} {}))
    (P := fun _ : Unit => Registry.put .nodes "" "n1" {})
    (.cons (c := Cmd.put .nodes "" "n1" {}) (k := .ret) () .nil rfl ⟨rfl, rfl⟩ trivial)
  obtain ⟨e, tr, ⟨he, -⟩, hnil, rfl⟩ := List.forall₂_cons_left_iff.mp htr
  obtain rfl := List.forall₂_nil_left_iff.mp hnil
  exact ⟨_, [e], s', h, hs, congrArg (fun d => [d]) he.symm⟩

end NimbusCore.Apiserver
