import NimbusCore.Admission.Chain
import NimbusCore.Controller.Scheduling
import NimbusCore.Support.Contracts

/-!
# Admission — the volume policies

`internal/admission/volume.go`.  A deployment that mounts a volume may have one replica
(`VolumeReplicasPolicy`), and may not mount a volume that carries the owner label of another
deployment (`VolumeOwnershipPolicy`).  A volume that cannot be read is passed over.  `quote` is what
`%q` makes of a string.
-/

namespace NimbusCore.Admission

open Api Registry Controller

/-- `req.Spec.GetVolumes()`. -/
def Request.volumes (req : Request) : List VolumeMount := (req.spec.getD {}).volumes

/-- `VolumeReplicasPolicy.Admit`. -/
def volumeReplicasPolicy : Validator := fun req =>
  if req.volumes.length = 0 then return (req, none)
  else if 1 < req.replicas then
    return (req, some ("volume-backed deployments must have replicas <= 1, got " ++
      toString req.replicas))
  else return (req, none)

/-- The owner of a volume. -/
def ownerOf (vol : Volume) : String := vol.getMetadata.label OwnerDeploymentLabel

/-- The volume is owned by another deployment than the one that is named. -/
def OwnedByOther (name : String) (vol : Volume) : Prop :=
  ownerOf vol ≠ "" ∧ name ≠ "" ∧ ownerOf vol ≠ name

instance (name : String) (vol : Volume) : Decidable (OwnedByOther name vol) :=
  inferInstanceAs (Decidable (_ ∧ _ ∧ _))

/-- The loop of `VolumeOwnershipPolicy.Admit`. -/
def ownershipLoop (quote : String → String) (ns name : String) :
    List VolumeMount → Reg (Option String)
  | [] => return none
  | m :: mounts => do
    match ← Registry.get .volumes ns m.volumeName with
    | .error _ => ownershipLoop quote ns name mounts
    | .ok vol =>
      if OwnedByOther name vol then
        return some ("volume " ++ quote m.volumeName ++ " is already owned by deployment " ++
          quote (ownerOf vol))
      else ownershipLoop quote ns name mounts

theorem reads_ownershipLoop (quote : String → String) (ns name : String) :
    ∀ mounts, (ownershipLoop quote ns name mounts).Ensures (fun _ _ => True) Cmd.Reads fun _ => True
  | [] => trivial
  | m :: mounts => by
    refine Prog.ensures_ask_bind.mpr ⟨rfl, fun x _ => ?_⟩
    rcases x with err | vol
    · exact reads_ownershipLoop quote ns name mounts
    simp only
    split
    · trivial
    · exact reads_ownershipLoop quote ns name mounts

/-- `VolumeOwnershipPolicy.Admit`. -/
def volumeOwnershipPolicy (quote : String → String) : Validator := fun req => do
  let err ← ownershipLoop quote req.ns req.name req.volumes
  return (req, err)

end NimbusCore.Admission
