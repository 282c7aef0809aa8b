import NimbusCore.Admission.Chain
import NimbusCore.Controller.Scheduling

/-!
# Apiserver — the deployment service

`internal/apiserver/deployment_service.go`.  Each call is a program over the registry that answers
with a value or with a status of gRPC.  `CreateDeployment` stores the deployment it was given, with
the template as the validators have left it: nothing of what the chain does to the replica count
comes back.
-/

namespace NimbusCore.Apiserver

open Api Registry Admission Controller

/-- The codes the services answer with. -/
inductive Code where
  | invalidArgument
  | failedPrecondition
  | permissionDenied
  | notFound
  | internal
  | alreadyExists
  | unauthenticated
  deriving DecidableEq

/-- A status: its code, its text, and the error the text ends in. -/
structure Status where
  code : Code
  text : String
  cause : Option RegistryError := none
  deriving DecidableEq

/-- The request of `CreateDeployment` to the chain. -/
def admitReq (d : Deployment) : Request :=
  { ns := d.getMetadata.ns
    name := d.getMetadata.name
    labels := d.getMetadata.labels
    spec := d.getSpec.template
    replicas := d.getSpec.replicas }

/-- The deployment with its template as the validators have left it. -/
def withTemplate (d : Deployment) (req : Request) : Deployment :=
  { d with spec := d.spec.map fun spec => { spec with template := req.spec } }

/-- `CreateDeployment`. -/
def createDeployment (validators : List Validator) (d : Deployment) :
    Reg (Except Status Deployment) := do
  if d.getMetadata.name = "" then
    return .error ⟨.invalidArgument, "deployment.metadata.name is required", none⟩
  else
    match ← chainAdmit validators (admitReq d) with
    | (_, some err) => return .error ⟨.failedPrecondition, err, none⟩
    | (req, none) =>
      let d := withTemplate d req
      match ← Registry.put .deployments d.getMetadata.ns d.getMetadata.name d with
      | .error err => return .error ⟨.internal, "create deployment: ", some err⟩
      | .ok () => return .ok d

/-- `GetDeployment`. -/
def getDeployment (ns name : String) : Reg (Except Status Deployment) := do
  match ← Registry.get .deployments ns name with
  | .error err => return .error ⟨.notFound, "deployment " ++ ns ++ "/" ++ name ++ ": ", some err⟩
  | .ok d => return .ok d

/-- `ListDeployments`. -/
def listDeployments (ns : String) : Reg (Except Status (List Deployment)) := do
  match ← Registry.list .deployments ns with
  | .error err => return .error ⟨.internal, "list deployments: ", some err⟩
  | .ok deployments => return .ok deployments

/-- The loop of `DeleteDeployment` over the pods. -/
def deleteOwned (name : String) : List Pod → Reg (Except Status Unit)
  | [] => return .ok ()
  | p :: pods => do
    if p.getMetadata.label OwnerDeploymentLabel ≠ name then deleteOwned name pods
    else
      match ← Registry.delete .pods p.getMetadata.ns p.getMetadata.name with
      | .error err =>
        return .error ⟨.internal, "delete owned pod " ++ p.getMetadata.name ++ ": ", some err⟩
      | .ok () => deleteOwned name pods

/-- `DeleteDeployment`. -/
def deleteDeployment (ns name : String) : Reg (Except Status Unit) := do
  match ← Registry.delete .deployments ns name with
  | .error err => return .error ⟨.internal, "delete deployment: ", some err⟩
  | .ok () =>
    match ← Registry.list .pods ns with
    | .error err => return .error ⟨.internal, "list pods for cascade delete: ", some err⟩
    | .ok pods => deleteOwned name pods

/-- **What the chain lets pass is stored as it was given**, whatever the chain made of the replica
count. -/
theorem yields_createDeployment {validators : List Validator} {d : Deployment} {s : State}
    (hname : d.getMetadata.name ≠ "") (h : ∀ v ∈ validators, Passes (normalise (admitReq d)) v) :
    (createDeployment validators d).Yields serve s (.ok d)
      (s.set .deployments ((s .deployments).insert
        (path d.getMetadata.ns d.getMetadata.name) d)) := by
  have hspec : (normalise (admitReq d)).spec = d.getSpec.template := by
    simp only [normalise]
    split <;> rfl
  have hd : withTemplate d (normalise (admitReq d)) = d := by
    rcases d with ⟨md, _ | spec, status⟩
    · rfl
    · simp only [withTemplate, Option.map_some, hspec]
      rfl
  rw [createDeployment, if_neg hname, chainAdmit, admitLoop_pass h, pure_bind_reg]
  simp only [hd]
  exact Prog.Yields.bind yields_put Prog.yields_pure

end NimbusCore.Apiserver
