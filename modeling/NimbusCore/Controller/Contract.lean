import NimbusCore.Controller.PodWrites

/-!
# Controller — what a reconcile may do

Every command `reconcileOne` may issue, whatever the store answers and whoever else writes to it in
the meantime.  It relies on two kinds of answers (`Trusts`): a pod that is listed and carries the
label is one of `Own`, and the deployment that is fetched at the end is one of `Cur`.  Then what it
puts and deletes (`Does`) are pods of `Own` that carry the label, each under its own metadata,
volumes, and a deployment of `Cur` with another status.

* `ensures_reconcileOne`: the contract of a pass.
* `ensures_reconcileAll`: the contract of the loop over all deployments.
-/

namespace NimbusCore.Controller

open Api Registry Scheduler Prog

/-! ### One deployment -/

section

variable (d : Deployment) (Own : ObjectMeta → Prop) (Cur : Deployment → Prop)

/-- What `reconcileOne d` relies on. -/
def Trusts : (c : Cmd) → c.Answer → Prop
  | .list .pods ns, .ok all =>
    ns = d.getMetadata.ns → ∀ p ∈ all, OwnedBy d p → Own p.getMetadata
  | .get .deployments ns name, .ok cur =>
    ns = d.getMetadata.ns → name = d.getMetadata.name → Cur cur
  | _, _ => True

/-- What `reconcileOne d` issues. -/
def Does : Cmd → Prop
  | .get _ _ _ | .list _ _ => True
  | .put .pods ns name p =>
    (ns = p.getMetadata.ns ∧ name = p.getMetadata.name) ∧ Own p.getMetadata ∧ OwnedBy d p
  | .delete .pods ns name =>
    ∃ p, (ns = p.getMetadata.ns ∧ name = p.getMetadata.name) ∧ Own p.getMetadata ∧ OwnedBy d p
  | .put .deployments ns name d' => (ns = d'.getMetadata.ns ∧ name = d'.getMetadata.name) ∧
    ∃ cur status, Cur cur ∧ d' = { cur with status := status }
  | .put .volumes _ _ _ | .delete .volumes _ _ => True
  | .put _ _ _ _ | .delete _ _ _ => False

variable {d Own Cur}

theorem does_of_reads {c : Cmd} (h : c.Reads) : Does d Own Cur c := by
  cases c with
  | get k ns name => trivial
  | list k ns => trivial
  | put k ns name obj => cases h
  | delete k ns name => cases h

theorem does_of_volumes {c : Cmd} (h : c.OnlyWrites .volumes) : Does d Own Cur c := by
  cases c with
  | get k ns name => trivial
  | list k ns => trivial
  | put k ns name obj | delete k ns name => cases h k rfl; trivial

/-- The label of a created pod, whatever the selector says. -/
theorem ownedBy_newPod (d : Deployment) (i : Nat) : OwnedBy d (newPod d i) := by
  simp [OwnedBy, newPod, Pod.getMetadata, ObjectMeta.label]

theorem assign_metadata (nodeName : String) (p : Pod) :
    (assign nodeName p).getMetadata = p.getMetadata := by
  simp only [assign]
  split <;> rfl

theorem assign_containers (nodeName : String) (p : Pod) :
    (assign nodeName p).getSpec.containers = p.getSpec.containers := by
  simp only [assign]
  split <;> rfl

/-- The pods that are put and deleted are those that are made or were listed, with their
metadata. -/
theorem replicates_does (hnew : ∀ i, Own (newPod d i).getMetadata) :
    Replicates d (Trusts d Own Cur) (Does d Own Cur) (fun p => OwnedBy d p → Own p.getMetadata)
      (fun p => Own p.getMetadata ∧ OwnedBy d p) fun _ => True where
  reads _ := does_of_reads
  puts _ hp := ⟨⟨rfl, rfl⟩, hp⟩
  lists _ hall := hall rfl
  assigns p nodeName hp ho _ := by
    rw [OwnedBy, assign_metadata]
    exact ⟨hp ho, ho⟩
  marks _ _ hp ho _ := ⟨hp ho, ho⟩
  deletes p hp ho := ⟨p, ⟨rfl, rfl⟩, hp ho, ho⟩
  resolves := Within.ensures (Within.weaken (fun _ => does_of_reads) (fun _ he => he)
    (readsOnly_resolveVolumeNode _ _))
  creates node i _ _ := by
    rw [OwnedBy, created_metadata]
    exact ⟨hnew i, ownedBy_newPod d i⟩

theorem ensures_claimVolumes (owned : List Pod) :
    (claimVolumes d owned).Ensures (Trusts d Own Cur) (Does d Own Cur) fun _ => True :=
  Within.ensures (Within.weaken (fun _ hc => does_of_volumes hc) (fun _ he => he)
    (claimVolumes_inBounds d owned))

theorem ensures_writeStatus (owned : List Pod) :
    (writeStatus d owned).Ensures (Trusts d Own Cur) (Does d Own Cur) fun _ => True := by
  refine Ensures.bind_ok (ensures_asked trivial) fun cur hx => ?_
  refine ensures_ask_bind.mpr ⟨⟨⟨rfl, rfl⟩, cur, _, hx rfl rfl, rfl⟩, fun x _ => ?_⟩
  cases x <;> trivial

/-- **The contract of a pass.** -/
theorem ensures_reconcileOne (hnew : ∀ i, Own (newPod d i).getMetadata) :
    (reconcileOne d).Ensures (Trusts d Own Cur) (Does d Own Cur) fun _ => True := by
  rw [reconcileOne_eq]
  refine Ensures.bind (replicates_does hnew).ensures_podStage fun owned _ => ?_
  exact Ensures.bind (ensures_claimVolumes owned.1) fun _ _ => ensures_writeStatus owned.1

end

/-! ### All deployments -/

section

variable {A : (c : Cmd) → c.Answer → Prop} {P : Cmd → Prop}

theorem ensures_reconcileEach : ∀ {deployments : List Deployment},
    (∀ d ∈ deployments, (reconcileOne d).Ensures A P fun _ => True) →
      (reconcileEach deployments).Ensures A P fun _ => True
  | [], _ => trivial
  | d :: deployments, h => by
    obtain ⟨hd, hrest⟩ := List.forall_mem_cons.mp h
    exact Ensures.bind hd.attempt fun _ _ => ensures_reconcileEach hrest

/-- **The contract of the loop over all deployments**, from those of the passes. -/
theorem ensures_reconcileAll (hP : P (.list .deployments ""))
    (h : ∀ deployments, A (.list .deployments "") (.ok deployments) →
      ∀ d ∈ deployments, (reconcileOne d).Ensures A P fun _ => True) :
    reconcileAll.Ensures A P fun _ => True := by
  refine ⟨hP, fun r hr => ?_⟩
  cases r with
  | error e => trivial
  | ok deployments => exact ensures_reconcileEach (h deployments hr)

end

end NimbusCore.Controller
