import NimbusCore.Apiserver.Deployments
import NimbusCore.Support.Interleaving

/-!
# Apiserver — the service service

`internal/apiserver/service_service.go`.  A service is created with a port of the nodes: the one it
asks for, if no other service has it, or else the first of a range that no service has.  For this
the services are listed, and then the service is put.  What is answered is the service with its
endpoints (`resolve`), which are not stored.

* `along_createService`: what is put has a port that no other service had in the listing.
-/

namespace NimbusCore.Apiserver

open Api Registry Prog

/-- `nodePortRangeMin`. -/
def nodePortRangeMin : Int32 := 30000

/-- `nodePortRangeMax`. -/
def nodePortRangeMax : Int32 := 32767

/-! ### Ports -/

/-- The ports of some services. -/
def usedPorts (all : List Service) : List Int32 :=
  (all.map fun s => s.getSpec.nodePort).filter fun p => p ≠ 0

/-- The loop of `allocateNodePort` over the range, from a port on. -/
def freePort (used : List Int32) : (rounds : Nat) → Int32 → Option Int32
  | 0, _ => none
  | rounds + 1, port => if port ∈ used then freePort used rounds (port + 1) else some port

/-- The number of ports in the range. -/
def nodePortRounds : Nat := 2768

/-- `allocateNodePort`, once the services are listed.  An error is a text, and the error that it
ends in. -/
def firstFreePort (all : List Service) : Except (String × Option RegistryError) Int32 :=
  match freePort (usedPorts all) nodePortRounds nodePortRangeMin with
  | some port => .ok port
  | none => .error ("no free node_port left in range " ++ toString nodePortRangeMin ++ "-" ++
      toString nodePortRangeMax, none)

/-- `allocateNodePort`. -/
def allocateNodePort : Reg (Except (String × Option RegistryError) Int32) := do
  match ← Registry.list .services "" with
  | .error err => return .error ("", some err)
  | .ok all => return firstFreePort all

/-- A service with the port, under another name. -/
def HoldsPort (port : Int32) (ns name : String) (s : Service) : Prop :=
  s.getSpec.nodePort = port ∧ ¬ (s.getMetadata.ns = ns ∧ s.getMetadata.name = name)

instance (port : Int32) (ns name : String) (s : Service) : Decidable (HoldsPort port ns name s) :=
  inferInstanceAs (Decidable (_ ∧ _))

/-- `nodePortInUse`. -/
def nodePortInUse (port : Int32) (ns name : String) : Reg (Except RegistryError Bool) := do
  match ← Registry.list .services "" with
  | .error err => return .error err
  | .ok all => return .ok (all.any fun s => HoldsPort port ns name s)

/-! ### Endpoints -/

/-- `labelsMatch`. -/
def labelsMatch (labels selector : Dict String String) : Bool :=
  decide (∀ k ∈ selector.keys, labels.getD k "" = selector.getD k "")

/-- A pod that the loop of `resolve` does not skip. -/
def Serves (selector : Dict String String) (p : Pod) : Prop :=
  p.getStatus.phase = .running ∧ labelsMatch p.getMetadata.labels selector = true ∧
    p.getSpec.nodeName ≠ ""

instance (selector : Dict String String) (p : Pod) : Decidable (Serves selector p) :=
  inferInstanceAs (Decidable (_ ∧ _ ∧ _))

/-- The loop of `resolve`. -/
def endpointLoop (s : Service) : List Pod → Reg (List ServiceEndpoint)
  | [] => return []
  | p :: pods => do
    if Serves s.getSpec.selector p then
      match ← Registry.get .nodes "" p.getSpec.nodeName with
      | .error _ => endpointLoop s pods
      | .ok node =>
        let endpoints ← endpointLoop s pods
        return ⟨p.getMetadata.name, node.getStatus.internalIp, s.getSpec.nodePort⟩ :: endpoints
    else endpointLoop s pods

/-- `resolve`. -/
def resolve (s : Service) : Reg (Except Status Service) := do
  if s.getSpec.selector = ∅ then return .ok { s with status := some {} }
  else
    match ← Registry.list .pods s.getMetadata.ns with
    | .error err =>
      return .error ⟨.internal, "resolve service endpoints: list pods: ", some err⟩
    | .ok allPods =>
      let endpoints ← endpointLoop s allPods
      return .ok { s with status := some { endpoints := endpoints } }

/-! ### The calls -/

/-- The service with a spec, and the port in it. -/
def withNodePort (s : Service) (port : Int32) : Service :=
  { s with spec := some { s.getSpec with nodePort := port } }

/-- The port that a service is created with. -/
def choosePort (s : Service) : Reg (Except Status Int32) := do
  if s.getSpec.nodePort = 0 then
    match ← allocateNodePort with
    | .error (text, cause) => return .error ⟨.internal, "allocate node_port: " ++ text, cause⟩
    | .ok port => return .ok port
  else
    match ← nodePortInUse s.getSpec.nodePort s.getMetadata.ns s.getMetadata.name with
    | .error err => return .error ⟨.internal, "check node_port availability: ", some err⟩
    | .ok true =>
      return .error ⟨.alreadyExists, "node_port " ++ toString s.getSpec.nodePort ++
        " is already allocated to another service", none⟩
    | .ok false => return .ok s.getSpec.nodePort

/-- `CreateService`. -/
def createService (s : Service) : Reg (Except Status Service) := do
  if s.getMetadata.name = "" then
    return .error ⟨.invalidArgument, "service.metadata.name is required", none⟩
  else
    match ← choosePort s with
    | .error err => return .error err
    | .ok port =>
      let s := withNodePort s port
      match ← Registry.put .services s.getMetadata.ns s.getMetadata.name s with
      | .error err => return .error ⟨.internal, "create service: ", some err⟩
      | .ok () => resolve s

/-- `GetService`. -/
def getService (ns name : String) : Reg (Except Status Service) := do
  match ← Registry.get .services ns name with
  | .error err => return .error ⟨.notFound, "service " ++ ns ++ "/" ++ name ++ ": ", some err⟩
  | .ok s => resolve s

/-- The loop of `ListServices`. -/
def resolveLoop : List Service → Reg (Except Status (List Service))
  | [] => return .ok []
  | s :: items => do
    match ← resolve s with
    | .error err => return .error err
    | .ok r =>
      match ← resolveLoop items with
      | .error err => return .error err
      | .ok resolved => return .ok (r :: resolved)

/-- `ListServices`. -/
def listServices (ns : String) : Reg (Except Status (List Service)) := do
  match ← Registry.list .services ns with
  | .error err => return .error ⟨.internal, "list services: ", some err⟩
  | .ok items => resolveLoop items

/-- `DeleteService`. -/
def deleteService (ns name : String) : Reg (Except Status Unit) := do
  match ← Registry.delete .services ns name with
  | .error err => return .error ⟨.internal, "delete service: ", some err⟩
  | .ok () => return .ok ()

/-! ### Resolving only reads -/

theorem readsOnly_endpointLoop (s : Service) : ∀ pods, ReadsOnly (endpointLoop s pods)
  | [] => trivial
  | p :: pods => by
    rw [endpointLoop]
    split
    · refine within_ask_bind.mpr ⟨rfl, fun x => ?_⟩
      cases x with
      | error err => exact readsOnly_endpointLoop s pods
      | ok node => exact Within.bind (readsOnly_endpointLoop s pods) fun _ => trivial
    · exact readsOnly_endpointLoop s pods

theorem readsOnly_resolve (s : Service) : ReadsOnly (resolve s) := by
  rw [resolve]
  split
  · trivial
  · refine Within.bind_ok (within_ask.mpr rfl) fun allPods => ?_
    exact Within.bind (readsOnly_endpointLoop s allPods) fun _ => trivial

theorem readsOnly_resolveLoop : ∀ items, ReadsOnly (resolveLoop items)
  | [] => trivial
  | s :: items => by
    refine Within.bind_ok (readsOnly_resolve s) fun r => ?_
    refine Within.bind (readsOnly_resolveLoop items) fun x => ?_
    cases x <;> trivial

/-! ### What is put -/

/-- What was listed of all services. -/
def listedServices : (c : Cmd) → c.Answer → Option (List Service)
  | .list .services ns, .ok all => if ns = "" then some all else none
  | _, _ => none

/-- A service is put under its own name, with a port that is not zero and that no other service had
when they were last listed. -/
def PutsFreePort (h : List (Prog.Done Cmd Cmd.Answer)) : Cmd → Prop
  | .put .services ns name s => (ns = s.getMetadata.ns ∧ name = s.getMetadata.name) ∧
      s.getSpec.nodePort ≠ 0 ∧ ∃ all, Prog.lastSeen listedServices h = some all ∧
        ∀ s' ∈ all, ¬ HoldsPort s.getSpec.nodePort ns name s'
  | _ => True

theorem freePort_notMem {used : List Int32} :
    ∀ {rounds : Nat} {start port : Int32}, freePort used rounds start = some port → port ∉ used
  | rounds + 1, start, port, h => by
    rw [freePort] at h
    split at h
    · exact freePort_notMem h
    · next hn => cases h; exact hn

theorem freePort_ne_zero {used : List Int32} :
    ∀ {rounds : Nat} {start port : Int32}, 0 < start.toInt → start.toInt + rounds < 2 ^ 31 →
      freePort used rounds start = some port → port ≠ 0
  | rounds + 1, start, port, h0, hlt, h => by
    rw [freePort] at h
    split at h
    · have hone : (1 : Int32).toInt = 1 := rfl
      have hsucc : (start + 1).toInt = start.toInt + 1 := by
        rw [Int32.toInt_add, hone, Int.bmod_eq_of_le (by omega) (by omega)]
      exact freePort_ne_zero (by omega) (by omega) h
    · cases h
      rintro rfl
      exact absurd h0 (by decide)

/-- A port that is chosen for `s`, among the services that were listed. -/
def ChosenFrom (s : Service) (all : List Service) (port : Int32) : Prop :=
  port ≠ 0 ∧ ∀ s' ∈ all, ¬ HoldsPort port s.getMetadata.ns s.getMetadata.name s'

theorem chosenFrom_firstFreePort {s : Service} {all : List Service} {port : Int32}
    (h : firstFreePort all = .ok port) : ChosenFrom s all port := by
  rw [firstFreePort] at h
  split at h
  · next hp =>
    cases h
    have hne := freePort_ne_zero (by decide) (by decide) hp
    refine ⟨hne, fun s' hs' hheld => freePort_notMem hp ?_⟩
    exact List.mem_filter.mpr ⟨List.mem_map.mpr ⟨s', hs', hheld.1⟩, decide_eq_true hne⟩
  · cases h

/-- What is chosen is chosen from one listing. -/
theorem along_choosePort {s : Service} {f : Except Status Int32 → Reg (Except Status Service)}
    (herr : ∀ err h, (f (.error err)).Along PutsFreePort h)
    (hok : ∀ all port, ChosenFrom s all port →
      (f (.ok port)).Along PutsFreePort [⟨.list .services "", .ok all⟩]) :
    (choosePort s >>= f).Along PutsFreePort [] := by
  rw [choosePort]
  split
  · refine ⟨trivial, fun x => ?_⟩
    rcases x with err | all
    · exact herr _ _
    change (Prog.bind (Prog.bind (.ret (firstFreePort all)) _) f).Along _ _
    cases hp : firstFreePort all with
    | error err => exact herr _ _
    | ok port => exact hok all port (chosenFrom_firstFreePort hp)
  · next hne =>
    refine ⟨trivial, fun x => ?_⟩
    rcases x with err | all
    · exact herr _ _
    change (Prog.bind (Prog.bind (.ret (Except.ok (all.any fun s' =>
      HoldsPort s.getSpec.nodePort s.getMetadata.ns s.getMetadata.name s'))) _) f).Along _ _
    cases hp : all.any fun s' =>
        HoldsPort s.getSpec.nodePort s.getMetadata.ns s.getMetadata.name s' with
    | true => exact herr _ _
    | false =>
      refine hok all _ ⟨hne, fun s' hs' hheld => ?_⟩
      have := List.any_eq_false.mp hp s' hs'
      exact this (decide_eq_true hheld)

/-- **What is put has a port that no other service had in the listing.** -/
theorem along_createService (s : Service) : (createService s).Along PutsFreePort [] := by
  rw [createService]
  split
  · trivial
  · refine along_choosePort (fun _ _ => trivial) fun all port hport => ?_
    refine along_ask_bind.mpr ⟨⟨⟨rfl, rfl⟩, hport.1, all, rfl, hport.2⟩, fun x => ?_⟩
    rcases x with err | _
    · trivial
    refine Within.along (J := fun _ => True) (fun _ _ _ _ _ => trivial) (fun _ c hc _ => ?_)
      (readsOnly_resolve _) trivial
    cases c with
    | put k ns name obj => cases hc
    | delete k ns name => cases hc
    | get _ _ _ | list _ _ => trivial

end NimbusCore.Apiserver
