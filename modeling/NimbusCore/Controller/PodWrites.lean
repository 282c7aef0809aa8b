import NimbusCore.Controller.PodController
import NimbusCore.Controller.Safety
import NimbusCore.Support.Expansion

/-!
# Controller — the pods that are written

The controllers write a pod when it is made, from the template and on the node of its volumes, and
when it is scheduled: a pod that waits for a node is assigned to one, or told why it still waits.
The contracts here say what is written (`W`), given what is listed (`L`), which pods the controller
picks (`Q`) and which nodes the volumes may be on (`N`).

* `podStage`: `reconcileOne` up to the point where it claims the volumes.
* `ensures_podStage`: the contract of the deployment controller.
* `ensures_podPass`: the contract of the pod controller.
-/

namespace NimbusCore.Controller

open Api Registry Scheduler Prog

/-- A pod that waits for a node. -/
def Waiting (p : Pod) : Prop := p.getSpec.nodeName = "" ∧ ¬ Terminal p

instance (p : Pod) : Decidable (Waiting p) := inferInstanceAs (Decidable (_ ∧ _))

/-! ### Scheduling -/

/-- What is written when the pods of `Q` are scheduled, of those that are listed in `ns`. -/
structure Schedules (ns : String) (Q : Pod → Prop) (A : (c : Cmd) → c.Answer → Prop)
    (P : Cmd → Prop) (L W : Pod → Prop) : Prop where
  reads : ∀ c : Cmd, c.Reads → P c
  puts : ∀ p, W p → P (.put .pods p.getMetadata.ns p.getMetadata.name p)
  lists : ∀ all, A (.list .pods ns) (.ok all) → ∀ p ∈ all, L p
  assigns : ∀ p nodeName, L p → Q p → Waiting p → W (assign nodeName p)
  marks : ∀ p msg, L p → Q p → Waiting p → W (setMessage msg p)

section

variable {A : (c : Cmd) → c.Answer → Prop} {P : Cmd → Prop} {L W Q : Pod → Prop}

namespace Schedules

variable {ns : String} (h : Schedules ns Q A P L W)

include h

theorem ensures_of_readsOnly {α : Type} {p : Reg α} (hp : ReadsOnly p) :
    p.Ensures A P fun _ => True :=
  Within.ensures (Within.weaken h.reads (fun _ he => he) hp)

theorem ensures_writeBack {p : Pod} (hp : W p) (text : String) :
    (writeBack p text).Ensures A P fun _ => True := by
  refine ensures_ask_bind.mpr ⟨h.puts p hp, fun x _ => ?_⟩
  cases x <;> trivial

/-- What is done with the candidates, once they are known. -/
theorem ensures_candidates {α : Type}
    {f : Except RegistryError (Dict String NodeResourceUsage) → Reg α}
    {g : Except RegistryError (List NodeCandidate) → Reg α}
    (hf : ∀ err, (f (.error err)).Ensures A P fun _ => True)
    (hfg : ∀ usage, f (.ok usage) = buildNodeCandidates usage >>= g)
    (hg : ∀ err, (g (.error err)).Ensures A P fun _ => True)
    (hok : ∀ candidates, (g (.ok candidates)).Ensures A P fun _ => True) :
    (computeNodeUsage >>= f).Ensures A P fun _ => True := by
  refine Ensures.bind (h.ensures_of_readsOnly readsOnly_computeNodeUsage) fun x _ => ?_
  rcases x with err | usage
  · exact hf err
  rw [hfg]
  refine Ensures.bind (h.ensures_of_readsOnly (readsOnly_buildNodeCandidates usage))
    fun x _ => ?_
  cases x with
  | error err => exact hg err
  | ok candidates => exact hok candidates

theorem ensures_schedulePod (candidates : List NodeCandidate) {p : Pod} (hp : L p) (hq : Q p)
    (hw : Waiting p) : (schedulePod candidates p).Ensures A P fun _ => True := by
  rw [schedulePod]
  split
  · dsimp only
    split
    · trivial
    · exact h.ensures_writeBack (h.marks p _ hp hq hw) _
  · exact h.ensures_writeBack (h.assigns p _ hp hq hw) _

theorem ensures_scheduleEach (candidates : List NodeCandidate) :
    ∀ {pods : List Pod}, (∀ p ∈ pods, L p ∧ Q p ∧ Waiting p) →
      (PodReconciler.scheduleEach candidates pods).Ensures A P fun _ => True
  | [], _ => trivial
  | p :: pods, hall => by
    obtain ⟨⟨hp, hq, hw⟩, hrest⟩ := List.forall_mem_cons.mp hall
    exact Ensures.bind (h.ensures_schedulePod candidates hp hq hw) fun _ _ =>
      ensures_scheduleEach candidates hrest

/-- **The contract of the pod controller.** -/
theorem ensures_podPass (hns : ns = "") (hQ : ∀ p, Unassigned p → Q p) :
    PodReconciler.reconcileAll.Ensures A P fun _ => True := by
  subst hns
  refine Ensures.bind_ok (ensures_asked (h.reads _ rfl)) fun all hx => ?_
  simp only [PodReconciler.reconcileListed]
  split
  · trivial
  · refine h.ensures_candidates (fun _ => trivial) (fun _ => rfl) (fun _ => trivial)
      fun candidates => ?_
    refine h.ensures_scheduleEach candidates fun p hp => ?_
    have hu := List.mem_filter.mp hp
    have hw := of_decide_eq_true hu.2
    exact ⟨h.lists all hx p hu.1, hQ p hw, hw.2⟩

theorem ensures_scheduleLoop (candidates : List NodeCandidate) :
    ∀ {pods : List Pod}, (∀ p ∈ pods, L p ∧ Q p ∧ ¬ Terminal p) →
      (scheduleLoop candidates pods).Ensures A P fun _ => True
  | [], _ => trivial
  | p :: pods, hall => by
    obtain ⟨⟨hp, hq, ht⟩, hrest⟩ := List.forall_mem_cons.mp hall
    have ih := ensures_scheduleLoop candidates hrest
    simp only [scheduleLoop]
    split
    · exact Ensures.bind ih fun _ _ => trivial
    · next hn =>
      refine Ensures.bind (h.ensures_schedulePod candidates hp hq ⟨not_not.mp hn, ht⟩)
        fun r _ => ?_
      rcases r with ⟨p', _ | err⟩
      · exact Ensures.bind ih fun _ _ => trivial
      · trivial

theorem ensures_scheduleUnassigned {pods : List Pod} (hall : ∀ p ∈ pods, L p ∧ Q p ∧ ¬ Terminal p) :
    (scheduleUnassigned pods).Ensures A P fun _ => True := by
  simp only [scheduleUnassigned]
  split
  · trivial
  · exact h.ensures_candidates (fun _ => trivial) (fun _ => rfl) (fun _ => trivial)
      fun candidates => h.ensures_scheduleLoop candidates hall

end Schedules

/-! ### One deployment -/

/-- `reconcileOne`, up to the point where it claims the volumes. -/
def podStage (d : Deployment) : Reg (List Pod × Option Failure) := do
  let owned ← wrap "list owned pods" (ownedPods d)
  scale d owned
  let owned ← wrap "re-list owned pods" (ownedPods d)
  scheduleUnassigned owned

theorem reconcileOne_eq (d : Deployment) : reconcileOne d = podStage d >>= fun r =>
    claimVolumes d r.1 >>= fun _ => writeStatus d r.1 := by
  simp only [podStage, Prog.bind_assoc]
  rfl

/-- What is written when the pods of a deployment are made and scheduled. -/
structure Replicates (d : Deployment) (A : (c : Cmd) → c.Answer → Prop) (P : Cmd → Prop)
    (L W : Pod → Prop) (N : String → Prop) : Prop
    extends Schedules d.getMetadata.ns (OwnedBy d) A P L W where
  deletes : ∀ p, L p → OwnedBy d p → P (.delete .pods p.getMetadata.ns p.getMetadata.name)
  resolves : (resolveVolumeNode d.getMetadata.ns d.getTemplate.volumes).Ensures A P N
  creates : ∀ node (i : Nat), N node → (i : Int) < wanted d → W (created d node i)

namespace Replicates

variable {d : Deployment} {N : String → Prop} (h : Replicates d A P L W N) {owned : List Pod}

include h

theorem ensures_deletePod {p : Pod} (hp : L p) (ho : OwnedBy d p) (text : String) :
    (deletePod p text).Ensures A P fun _ => True := by
  refine ensures_ask_bind.mpr ⟨h.deletes p hp ho, fun x _ => ?_⟩
  cases x <;> trivial

theorem ensures_ownedLoop : ∀ {all : List Pod}, (∀ p ∈ all, L p) →
    (ownedLoop d all).Ensures A P fun owned => ∀ p ∈ owned, L p ∧ OwnedBy d p ∧ ¬ Terminal p
  | [], _ => fun p hp => by cases hp
  | p :: all, hall => by
    obtain ⟨hp, hrest⟩ := List.forall_mem_cons.mp hall
    have ih := ensures_ownedLoop hrest
    simp only [ownedLoop]
    split
    · exact ih
    · next ho =>
      have hdelete := h.ensures_deletePod hp (not_not.mp ho) ""
      refine Ensures.bind (h.ensures_of_readsOnly (readsOnly_onDeadNode p)) fun dead _ => ?_
      split
      · exact Ensures.bind hdelete fun _ _ => ih
      · split
        · exact Ensures.bind hdelete fun _ _ => ih
        · next ht =>
          exact Ensures.bind ih fun owned hall =>
            List.forall_mem_cons.mpr ⟨⟨hp, not_not.mp ho, ht⟩, hall⟩

theorem ensures_ownedPods :
    (ownedPods d).Ensures A P fun owned => ∀ p ∈ owned, L p ∧ OwnedBy d p ∧ ¬ Terminal p := by
  refine Ensures.bind_ok (ensures_asked (h.reads _ rfl)) fun all hx => ?_
  exact h.ensures_ownedLoop (h.lists all hx)

omit h in
theorem ensures_index {i : Int} :
    (index owned i).Ensures A P fun p => p ∈ owned := by
  simp only [index]
  split
  · trivial
  · cases hp : owned[i.toNat]? with
    | none => trivial
    | some p => exact List.mem_of_getElem? hp

theorem ensures_deleteLoop (hall : ∀ p ∈ owned, L p ∧ OwnedBy d p ∧ ¬ Terminal p) :
    ∀ (rounds : Nat) (i : Int), (deleteLoop owned rounds i).Ensures A P fun _ => True
  | 0, _ => trivial
  | rounds + 1, i => by
    refine Ensures.bind ensures_index fun p hp => ?_
    obtain ⟨hp, ho, -⟩ := hall p hp
    exact Ensures.bind (h.ensures_deletePod hp ho _) fun _ _ =>
      ensures_deleteLoop hall rounds (i + 1)

omit h in
/-- A pod is made on the node that it is pinned to. -/
theorem ensures_pin (node : String) (i : Nat) :
    (pin node (newPod d i)).Ensures A P fun pod => pod = created d node i := by
  rw [pin, created]
  split
  · rfl
  · cases hs : (newPod d i).spec with
    | none => trivial
    | some spec =>
      simp only [setNodeName, Pod.getSpec, hs]
      rfl

/-- Every round takes one index, so none beyond the rounds is used. -/
theorem ensures_createLoop {node : String} (hnode : N node) (occ : List Int) :
    ∀ fuel toCreate i : Nat, (i + fuel : Int) ≤ wanted d →
      (createLoop d node occ fuel toCreate i).Ensures A P fun _ => True
  | 0, 0, _, _ => trivial
  | 0, _ + 1, _, _ => trivial
  | _ + 1, 0, _, _ => trivial
  | fuel + 1, toCreate + 1, i, hle => by
    rw [createLoop]
    split
    · exact ensures_createLoop hnode occ fuel (toCreate + 1) (i + 1) (by omega)
    · refine Ensures.bind (ensures_pin node i) fun pod hpod => ?_
      have hput := h.puts pod (hpod ▸ h.creates node i hnode (by omega))
      refine Ensures.bind_ok (ensures_asked hput) fun _ _ => ?_
      exact ensures_createLoop hnode occ fuel toCreate (i + 1) (by omega)

theorem ensures_scale (hall : ∀ p ∈ owned, L p ∧ OwnedBy d p ∧ ¬ Terminal p) :
    (scale d owned).Ensures A P fun _ => True := by
  simp only [scale]
  split
  · next hlt =>
    have hrounds : ((0 : Nat) + ((wanted d - owned.length).toNat + owned.length : Nat) : Int) ≤
        wanted d := by omega
    simp only [scaleUp]
    split
    · exact Ensures.bind h.resolves.mapStop fun node hnode =>
        h.ensures_createLoop hnode _ _ _ _ hrounds
    · next hm =>
      -- a deployment without volumes resolves to no node
      have hN := h.resolves
      rw [List.length_eq_zero_iff.mp (Nat.le_zero.mp (Nat.not_lt.mp hm))] at hN
      exact h.ensures_createLoop (show N "" from hN) _ _ _ _ hrounds
  · split
    · exact h.ensures_deleteLoop hall _ _
    · trivial

/-- **The contract of the deployment controller**, up to its claims. -/
theorem ensures_podStage : (podStage d).Ensures A P fun _ => True := by
  refine Ensures.bind h.ensures_ownedPods.mapStop fun owned ho => ?_
  refine Ensures.bind (h.ensures_scale ho) fun _ _ => ?_
  refine Ensures.bind h.ensures_ownedPods.mapStop fun owned ho => ?_
  exact h.ensures_scheduleUnassigned ho

end Replicates

end

end NimbusCore.Controller
