import NimbusCore.Apiserver.Deployments

/-!
# Apiserver — the volume service

`internal/apiserver/volume_service.go`.  `CreateVolume` has the volume made by the CSI driver and
then stores it, with a status of its own: whatever was stored there before, and whatever status
comes with the request, is gone.  What the driver answers is a parameter of the calls
(`CsiController`).
-/

namespace NimbusCore.Apiserver

open Api Registry

/-- `CSIController`: what it answers, or the text of an error. -/
structure CsiController where
  /-- `CreateVolume`, of a name and the required bytes: the capacity. -/
  createVolume : String → Int64 → Except String Int64
  /-- `DeleteVolume`, of an ID. -/
  deleteVolume : String → Except String Unit

/-- The volume that is stored. -/
def boundVolume (vol : Volume) (capacityBytes : Int64) : Volume :=
  { vol with status := some { phase := .bound, capacityBytes := capacityBytes } }

/-- `CreateVolume`. -/
def createVolume (csi : CsiController) (vol : Volume) : Reg (Except Status Volume) := do
  let md := vol.getMetadata
  if md.name = "" then
    return .error ⟨.invalidArgument, "volume.metadata.name is required", none⟩
  else
    match csi.createVolume (md.ns ++ "/" ++ md.name) vol.getSpec.requestedBytes with
    | .error err => return .error ⟨.internal, "provision volume: " ++ err, none⟩
    | .ok capacityBytes =>
      match ← Registry.put .volumes md.ns md.name (boundVolume vol capacityBytes) with
      | .error err => return .error ⟨.internal, "create volume: ", some err⟩
      | .ok () => return .ok (boundVolume vol capacityBytes)

/-- `GetVolume`. -/
def getVolume (ns name : String) : Reg (Except Status Volume) := do
  match ← Registry.get .volumes ns name with
  | .error err => return .error ⟨.notFound, "volume " ++ ns ++ "/" ++ name ++ ": ", some err⟩
  | .ok vol => return .ok vol

/-- `ListVolumes`. -/
def listVolumes (ns : String) : Reg (Except Status (List Volume)) := do
  match ← Registry.list .volumes ns with
  | .error err => return .error ⟨.internal, "list volumes: ", some err⟩
  | .ok vols => return .ok vols

/-- `DeleteVolume`. -/
def deleteVolume (csi : CsiController) (ns name : String) : Reg (Except Status Unit) := do
  if ns = "" ∨ name = "" then
    return .error ⟨.invalidArgument, "namespace and name are required", none⟩
  else
    match csi.deleteVolume (ns ++ "/" ++ name) with
    | .error err => return .error ⟨.internal, "deprovision volume: " ++ err, none⟩
    | .ok () =>
      match ← Registry.delete .volumes ns name with
      | .error err => return .error ⟨.internal, "delete volume: ", some err⟩
      | .ok () => return .ok ()

end NimbusCore.Apiserver
