import NimbusCore.Controller.Safety
import NimbusCore.Controller.Stages

/-!
# Controller — one reconcile converges

After one pass without store errors a deployment has the pods it asks for, none of them doomed, and
a status that says so (`reconcileOne_converges`), whatever the orders of the listings.

`Deployed` is what is asked of the deployment and of the pods; `WellNamed` is what is asked of the
names in the rest of the store.  None of its three conditions can be left out
(`convergence_needs_names`): a node that is stored under another name takes pods that the next
eviction deletes, a mounted volume without metadata stops the pass with a panic, and a pod whose
namespace has a slash is counted for a namespace that it is not in.
-/

namespace NimbusCore.Controller

open Api Registry Scheduler List Finmap

/-! ### Statement -/

/-- The number of pods the deployment should have. -/
def goal (d : Deployment) : Nat :=
  if d.getTemplate.volumes = [] then d.getSpec.replicas.toInt.toNat
  else min d.getSpec.replicas.toInt.toNat 1

/-- The pods in the deployment's namespace that carry its label. -/
def ownedIn (d : Deployment) (s : State) : Dict String Pod :=
  (s .pods).filter fun _ p => p.getMetadata.ns = d.getMetadata.ns ∧ OwnedBy d p

/-- What is asked of the deployment and of the pods. -/
structure Deployed (d : Deployment) (s : State) : Prop where
  stored : (s .deployments).lookup (path d.getMetadata.ns d.getMetadata.name) = some d
  ns_ne_empty : d.getMetadata.ns ≠ ""
  noSlash : NoSlash d.getMetadata.ns ∧ NoSlash d.getMetadata.name
  replicas : 0 ≤ d.getSpec.replicas.toInt
  no_preset : d.getTemplate.nodeName = ""
  claims_ready : ∀ m ∈ d.getTemplate.volumes, ∀ vol,
    (s .volumes).lookup (path d.getMetadata.ns m.volumeName) = some vol →
      vol.getStatus.nodeName ≠ "" → isReady s vol.getStatus.nodeName = true
  pods_keyed : ∀ k p, (s .pods).lookup k = some p → podPath p = k

/-- What is asked of the names in the rest of the store. -/
structure WellNamed (d : Deployment) (s : State) : Prop where
  nodes_named : NodesNamed s
  mounts_named : MountsNamed d.getMetadata.ns d.getTemplate.volumes (s .volumes)
  pods_noSlash : ∀ k p, (s .pods).lookup k = some p →
    NoSlash p.getMetadata.ns ∧ NoSlash p.getMetadata.name

/-- What a pass from `s` to `s'` achieves. -/
structure Converged (d : Deployment) (s s' : State) : Prop where
  count : (ownedIn d s').keys.card = goal d
  healthy : ∀ k p, (ownedIn d s').lookup k = some p → ¬ Doomed s' p
  spec_kept : ∀ k p p', (ownedIn d s).lookup k = some p → ¬ Doomed s p →
    (s' .pods).lookup k = some p' →
      { p'.getSpec with nodeName := "" } = { p.getSpec with nodeName := "" }
  status : ∃ d', (s' .deployments).lookup (path d.getMetadata.ns d.getMetadata.name) = some d' ∧
    d'.spec = d.spec ∧ ∃ status, d'.status = some status ∧ status.replicas.toInt = goal d ∧
      status.readyReplicas.toInt =
        ((ownedIn d s').filter fun _ p => p.getStatus.phase = .running).keys.card

/-! ### Created pods are not doomed -/

section

variable {d : Deployment} {s : State}

theorem goal_eq (h : 0 ≤ d.getSpec.replicas.toInt) : (goal d : Int) = wanted d := by
  simp only [goal, wanted]
  rcases hv : d.getTemplate.volumes with _ | ⟨m, mounts⟩
  · simp only [if_true, length_nil, lt_irrefl, false_and, if_false]
    exact Int.toNat_of_nonneg h
  · simp only [reduceCtorEq, if_false, length_cons, Nat.zero_lt_succ, true_and]
    split <;> omega

theorem lookup_ownedIn {k : String} {p : Pod} :
    (ownedIn d s).lookup k = some p ↔
      (s .pods).lookup k = some p ∧ p.getMetadata.ns = d.getMetadata.ns ∧ OwnedBy d p := by
  rw [ownedIn, Finmap.lookup_filter, Option.filter_eq_some_iff, decide_eq_true_eq]

/-- A claimed node is ready if every claim is. -/
theorem claimedNode_ready {ns : String} :
    ∀ {mounts : List VolumeMount}, (∀ m ∈ mounts, ∀ vol,
      (s .volumes).lookup (path ns m.volumeName) = some vol →
        vol.getStatus.nodeName ≠ "" → isReady s vol.getStatus.nodeName = true) →
      claimedNode s ns mounts ≠ "" → isReady s (claimedNode s ns mounts) = true
  | [], _, h => absurd rfl h
  | m :: mounts, hc, h => by
    obtain ⟨hm, hrest⟩ := forall_mem_cons.mp hc
    rcases s.find_cases .volumes ns m.volumeName with ⟨vol, hl, hf⟩ | ⟨-, hf⟩
    · simp only [claimedNode, hf] at h ⊢
      split at h
      · next hn =>
        rw [if_pos hn]
        exact hm vol hl hn
      · next hn =>
        rw [if_neg hn]
        exact claimedNode_ready hrest h
    · simp only [claimedNode, hf] at h ⊢
      exact claimedNode_ready hrest h

end

/-! ### Counting -/

/-- The entries of a map of pods, counted on a list of them. -/
theorem card_keys_eq_length {m : Dict String Pod} {ps : List Pod} (hn : (ps.map podPath).Nodup)
    (h : ∀ k p, m.lookup k = some p ↔ p ∈ ps ∧ podPath p = k) : m.keys.card = ps.length := by
  have hk : m.keys = (ps.map podPath).toFinset := by
    ext k
    rw [Finmap.mem_keys, List.mem_toFinset, List.mem_map, ← Finmap.lookup_isSome,
      Option.isSome_iff_exists]
    exact exists_congr fun p => h k p
  rw [hk, toFinset_card_of_nodup hn, length_map]

/-! ### The pass -/

section

variable {d : Deployment} {s : State}

theorem Deployed.sound (h : Deployed d s) (hw : WellNamed d s) :
    Sound d.getMetadata.ns (s .pods) where
  keyed := h.pods_keyed
  confined k p hl hk := by
    obtain ⟨h₁, h₂⟩ := hw.pods_noSlash k p hl
    rw [← h.pods_keyed k p hl] at hk
    exact ns_eq_of_listed h.ns_ne_empty h₁ h₂ hk

namespace Pass

variable (π : Pass d s) (h : Deployed d s) (hw : WellNamed d s)

include h hw

/-- No pod of the target is doomed: the created ones have no node or a claimed one. -/
theorem target_not_doomed {p : Pod} (hp : p ∈ π.target) : ¬ Doomed s p := by
  have hs := h.sound hw
  have hown : ∀ p ∈ π.owned₁, ¬ Doomed s p := fun p hp =>
    ((mem_healthy hs π.first_isOrder).mp hp).2
  simp only [target] at hp
  split at hp
  · rcases mem_append.mp hp with hp | hp
    · exact hown p hp
    · obtain ⟨i, -, rfl⟩ := mem_map.mp hp
      rw [doomed_created, created_nodeName, claimedNode_congr (π.frame₁ (by decide)),
        h.no_preset]
      rintro ⟨hne, hready⟩
      split at hne
      · exact hne rfl
      · next hnode =>
        rw [if_neg hnode, claimedNode_ready h.claims_ready hnode] at hready
        cases hready
  · exact hown p (mem_of_mem_take hp)

theorem length_owned : π.owned.length = goal d := by
  have hs := h.sound hw
  have hg := goal_eq h.replicas
  have hf : (π.target.filter fun p => ¬ Doomed s p) = π.target :=
    filter_eq_self.mpr fun p hp => decide_eq_true (π.target_not_doomed h hw hp)
  rw [owned, length_map, (π.owned₂_perm hs h.ns_ne_empty).length_eq, hf, target]
  split
  · rw [length_append, length_creations]
    omega
  · rw [length_take]
    omega

theorem lookup_ownedIn_final {k : String} {p : Pod} :
    (ownedIn d π.final).lookup k = some p ↔ p ∈ π.owned ∧ podPath p = k := by
  have hs := h.sound hw
  rw [lookup_ownedIn, π.pods_final, π.mem_owned hs]
  constructor
  · rintro ⟨hl, hns, ho⟩
    have he := (π.sound₄ hs).keyed k p hl
    refine ⟨⟨by rwa [he], ?_, ho⟩, he⟩
    rw [podPath, hns]
    exact listed_path h.ns_ne_empty _
  · rintro ⟨⟨hl, hk, ho⟩, rfl⟩
    exact ⟨hl, (π.sound₄ hs).confined _ p hl hk, ho⟩

/-- **A healthy pod that stays keeps its spec**, but for the node name. -/
theorem final_spec_kept {k : String} {p p' : Pod} (hp : (ownedIn d s).lookup k = some p)
    (hd : ¬ Doomed s p) (hl : (π.final .pods).lookup k = some p') :
    { p'.getSpec with nodeName := "" } = { p.getSpec with nodeName := "" } := by
  have hs := h.sound hw
  obtain ⟨hlp, hns, ho⟩ := lookup_ownedIn.mp hp
  have hk := h.pods_keyed k p hlp
  subst hk
  have hlisted : Listed d.getMetadata.ns (podPath p) := by
    rw [podPath, hns]
    exact listed_path h.ns_ne_empty _
  have hmem : p ∈ π.owned₁ := (mem_healthy hs π.first_isOrder).mpr ⟨⟨hlp, hlisted, ho⟩, hd⟩
  rw [π.pods_final] at hl
  obtain ⟨q, hq, -, rfl⟩ := π.of_lookup_state₄ hs hl
  -- what is at its path after the switch can only be the pod itself
  have hq₂ : (π.state₂ .pods).lookup (podPath p) = some q := by
    rw [π.state₃_eq hs, State.set_self, lookup_spared, Option.filter_eq_some_iff] at hq
    exact hq.1
  have hqp : q = p := by
    have hl₁ := ((π.mem_owned₁ hs).mp hmem).1
    rw [state₂_eq, scaled] at hq₂
    split at hq₂
    · next hlt =>
      rw [State.set_self, lookup_write_of_notMem, hl₁] at hq₂
      · exact (Option.some.inj hq₂).symm
      · intro hm
        obtain ⟨c, hc, he⟩ := mem_map.mp hm
        exact creations_disjoint (fun _ => π.owned₁_ns hs) hlt hmem hc he.symm
    · rw [State.set_self, Finmap.lookup_eraseAll, hl₁] at hq₂
      split at hq₂
      · cases hq₂
      · exact (Option.some.inj hq₂).symm
  subst hqp
  rw [if_pos ⟨hlisted, ho⟩]
  exact placed_spec

omit hw in
theorem final_status :
    ∃ d', (π.final .deployments).lookup (path d.getMetadata.ns d.getMetadata.name) = some d' ∧
      d'.spec = d.spec ∧ d'.status = some (statusOf π.owned) := by
  have hd : (π.state₅ .deployments).lookup (path d.getMetadata.ns d.getMetadata.name) = some d := by
    rw [π.deployments₅]
    exact h.stored
  refine ⟨{ d with status := some (statusOf π.owned) }, ?_, rfl, rfl⟩
  simp only [final, statusWritten, hd, State.set_self, lookup_insert]

theorem converged : Converged d s π.final where
  count := by
    rw [← π.length_owned h hw]
    exact card_keys_eq_length (π.nodup_owned (h.sound hw)) fun _ _ => π.lookup_ownedIn_final h hw
  healthy k p hl := by
    have hp := ((π.lookup_ownedIn_final h hw).mp hl).1
    rw [doomed_congr π.nodes_final]
    exact π.owned_not_doomed (h.sound hw) hw.nodes_named hp
  spec_kept _ _ _ hp hd hl := π.final_spec_kept h hw hp hd hl
  status := by
    obtain ⟨d', hl, hspec, hst⟩ := π.final_status h
    have hlt : goal d < 2 ^ 31 := by
      have := wanted_lt d
      have := goal_eq h.replicas
      omega
    have hlen := π.length_owned h hw
    refine ⟨d', hl, hspec, _, hst, ?_, ?_⟩
    · rw [statusOf, hlen]
      exact Int32.toInt_ofNat_of_lt hlt
    · have hc : ((ownedIn d π.final).filter fun _ p => p.getStatus.phase = .running).keys.card =
          (π.owned.filter fun p => p.getStatus.phase = .running).length := by
        refine card_keys_eq_length
          ((π.nodup_owned (h.sound hw)).sublist (filter_sublist.map _)) fun k p => ?_
        rw [Finmap.lookup_filter, Option.filter_eq_some_iff, π.lookup_ownedIn_final h hw,
          mem_filter]
        tauto
      rw [hc, ← countP_eq_length_filter]
      have hle : π.owned.countP (fun p => p.getStatus.phase = .running) ≤ π.owned.length :=
        countP_le_length
      exact Int32.toInt_ofNat_of_lt (by omega)

end Pass

end

/-- **One reconcile converges.**  Every run of `reconcileOne` without a store error returns without
an error, and leaves the pods and the status that the deployment asks for. -/
theorem reconcileOne_converges {d : Deployment} {s s' : State} {r : Except Stop Unit}
    (h : Deployed d s) (hw : WellNamed d s) (hr : (reconcileOne d).Runs serve s r s') :
    r = .ok () ∧ Converged d s s' := by
  obtain ⟨π, rfl, rfl⟩ :=
    (runs_iff_final (wanted_nonneg_iff.mpr h.replicas) hw.mounts_named h.stored).mp hr
  exact ⟨rfl, π.converged h hw⟩

/-! ### Samples -/

/-- A state with given objects, and none of the kinds that the controllers do not use. -/
def stateOf (deployments : Dict String Deployment) (pods : Dict String Pod)
    (nodes : Dict String Node) (volumes : Dict String Volume) : State
  | .deployments => deployments
  | .pods => pods
  | .nodes => nodes
  | .volumes => volumes
  | .services | .policies | .secrets | .networkpolicies | .namespaces | .images => ∅

/-- One replica of a pod that asks for nothing. -/
def single : Deployment :=
  { metadata := some { name := "web", ns := "a" }
    spec := some { replicas := 1 } }

/-- A node that is ready. -/
def readyNode (name : String) : Node :=
  { metadata := some { name := name }
    status := some { ready := true } }

/-- The deployment alone, and a node stored at `at`. -/
def oneNode (at_ name : String) : State :=
  stateOf (Finmap.singleton "a/web" single) ∅ (Finmap.singleton at_ (readyNode name)) ∅

theorem deployed_oneNode (at_ name : String) : Deployed single (oneNode at_ name) where
  stored := Finmap.lookup_singleton_iff.mpr ⟨rfl, rfl⟩
  ns_ne_empty := by decide
  noSlash := by decide
  replicas := by decide
  no_preset := rfl
  claims_ready _ hm := absurd hm (by simp [single, Deployment.getTemplate, Deployment.getSpec])
  pods_keyed _ _ hl := by cases hl

theorem mountsNamed_single (vols : Dict String Volume) :
    MountsNamed single.getMetadata.ns single.getTemplate.volumes vols :=
  fun _ hm => absurd hm (by simp [single, Deployment.getTemplate, Deployment.getSpec])

theorem wellNamed_oneNode (name : String) : WellNamed single (oneNode name name) where
  nodes_named k n hl := by
    obtain ⟨rfl, rfl⟩ := Finmap.lookup_singleton_iff.mp hl
    rfl
  mounts_named := mountsNamed_single _
  pods_noSlash _ _ hl := by cases hl

/-- A pod is created and scheduled on the node. -/
def namedPass : Pass single (oneNode "y" "y") :=
  .ofOrders [] ["a/web-0"] ["a/web-0"] ["y"] (by decide)

theorem namedPass_runs :
    (reconcileOne single).Runs serve (oneNode "y" "y") (.ok ()) namedPass.final :=
  (runs_iff_final (by decide) (mountsNamed_single _)
    (deployed_oneNode "y" "y").stored).mpr ⟨namedPass, rfl, rfl⟩

/-- A pod of `web` in the namespace `a`. -/
def webPod (name nodeName : String) : Pod :=
  { metadata := some
      { name := name, ns := "a", labels := Finmap.singleton OwnerDeploymentLabel "web" }
    spec := some { nodeName := nodeName } }

/-- Two replicas are wanted.  Of two pods one is on a node that is gone. -/
def halfGone : State :=
  stateOf (Finmap.singleton "a/web" { single with spec := some { replicas := 2 } })
    ((Finmap.singleton "a/web-0" (webPod "web-0" "x")).insert "a/web-1" (webPod "web-1" "y"))
    (Finmap.singleton "y" (readyNode "y")) ∅

/-- The pod on that node is deleted, and created anew. -/
def replacing : Pass { single with spec := some { replicas := 2 } } halfGone :=
  .ofOrders ["a/web-0", "a/web-1"] ["a/web-0", "a/web-1"] ["a/web-0", "a/web-1"] ["y"] (by decide)

theorem reconcileOne_converges_sample :
    Converged { single with spec := some { replicas := 2 } } halfGone replacing.final := by
  have hd : Deployed { single with spec := some { replicas := 2 } } halfGone := by
    refine ⟨by decide, by decide, by decide, by decide, rfl, fun m hm => ?_, by decide⟩
    cases hm
  have hw : WellNamed { single with spec := some { replicas := 2 } } halfGone :=
    ⟨(wellNamed_oneNode "y").nodes_named, by decide, by decide⟩
  have hr := (runs_iff_final (by decide) hw.mounts_named hd.stored).mpr ⟨replacing, rfl, rfl⟩
  exact (reconcileOne_converges hd hw hr).2

/-- The same, where the node is stored under another name. -/
def misnamedPass : Pass single (oneNode "x" "y") :=
  .ofOrders [] ["a/web-0"] ["a/web-0"] ["x"] (by decide)

theorem misnamedPass_runs :
    (reconcileOne single).Runs serve (oneNode "x" "y") (.ok ()) misnamedPass.final :=
  (runs_iff_final (by decide) (mountsNamed_single _)
    (deployed_oneNode "x" "y").stored).mpr ⟨misnamedPass, rfl, rfl⟩

/-- The pod is on a node that is not there. -/
theorem misnamedPass_not_converged : ¬ Converged single (oneNode "x" "y") misnamedPass.final := by
  intro h
  have hp : ((ownedIn single misnamedPass.final).lookup "a/web-0").any
      fun p => Doomed misnamedPass.final p := by decide
  obtain ⟨p, hl, hd⟩ := (Option.any_eq_true _ _).mp hp
  exact h.healthy _ p hl (of_decide_eq_true hd)

/-- The volume has no metadata. -/
def namelessVolume : State :=
  stateOf (Finmap.singleton "a/web" mounting) ∅ (Finmap.singleton "y" (readyNode "y"))
    (Finmap.singleton "a/v" {})

theorem deployed_namelessVolume : Deployed mounting namelessVolume where
  stored := Finmap.lookup_singleton_iff.mpr ⟨rfl, rfl⟩
  ns_ne_empty := by decide
  noSlash := by decide
  replicas := by decide
  no_preset := rfl
  claims_ready m _ vol hl hne := by
    obtain ⟨-, rfl⟩ := Finmap.lookup_singleton_iff.mp hl
    exact absurd rfl hne
  pods_keyed _ _ hl := by cases hl

def namelessPass : Pass mounting namelessVolume :=
  .ofOrders [] ["a/web-0"] ["a/web-0"] ["y"] (by decide)

theorem namelessPass_runs :
    (reconcileOne mounting).Runs serve namelessVolume (.error (.panic .nilDereference))
      namelessPass.state₄ := by
  have hl : (namelessPass.state₄ .volumes).lookup "a/v" = some {} := by
    rw [namelessPass.volumes₄]
    exact Finmap.lookup_singleton_iff.mpr ⟨rfl, rfl⟩
  refine (runs_reconcileOne (by decide)).mpr ⟨namelessPass, ?_⟩
  refine Prog.runs_bind.mpr (.inr ⟨_, rfl, ?_⟩)
  exact claimVolumes_panics rfl (by decide) hl rfl rfl

/-- The status is not written. -/
theorem namelessPass_not_converged : ¬ Converged mounting namelessVolume namelessPass.state₄ := by
  intro h
  obtain ⟨d', hl, -, status, hst, -⟩ := h.status
  rw [namelessPass.frame₄ (by decide)] at hl
  obtain ⟨-, rfl⟩ := Finmap.lookup_singleton_iff.mp hl
  cases hst

/-- A pod whose namespace has a slash. -/
def slashedPod : Pod :=
  { metadata := some
      { name := "x", ns := "a/b", labels := Finmap.singleton OwnerDeploymentLabel "web" } }

def slashed : State :=
  stateOf (Finmap.singleton "a/web" single) (Finmap.singleton "a/b/x" slashedPod) ∅ ∅

theorem deployed_slashed : Deployed single slashed where
  stored := Finmap.lookup_singleton_iff.mpr ⟨rfl, rfl⟩
  ns_ne_empty := by decide
  noSlash := by decide
  replicas := by decide
  no_preset := rfl
  claims_ready _ hm := absurd hm (by simp [single, Deployment.getTemplate, Deployment.getSpec])
  pods_keyed k p hl := by
    obtain ⟨rfl, rfl⟩ := Finmap.lookup_singleton_iff.mp hl
    decide

def slashedPass : Pass single slashed :=
  .ofOrders ["a/b/x"] ["a/b/x"] ["a/b/x"] [] (by decide)

theorem slashedPass_runs : (reconcileOne single).Runs serve slashed (.ok ()) slashedPass.final :=
  (runs_iff_final (by decide) (mountsNamed_single _)
    deployed_slashed.stored).mpr ⟨slashedPass, rfl, rfl⟩

/-- The deployment has no pod in its namespace. -/
theorem slashedPass_not_converged : ¬ Converged single slashed slashedPass.final := by
  intro h
  have hc := h.count
  exact absurd hc (by decide)

/-- **The names are needed.**  With all that is asked of the deployment and of the pods: a node
stored under another name, a mounted volume without metadata, and a pod whose namespace has a slash
each have a run after which the deployment has not converged. -/
theorem convergence_needs_names :
    (Deployed single (oneNode "x" "y") ∧ ∃ r s', (reconcileOne single).Runs serve
      (oneNode "x" "y") r s' ∧ ¬ Converged single (oneNode "x" "y") s') ∧
    (Deployed mounting namelessVolume ∧ ∃ r s', (reconcileOne mounting).Runs serve
      namelessVolume r s' ∧ ¬ Converged mounting namelessVolume s') ∧
    (Deployed single slashed ∧ ∃ r s', (reconcileOne single).Runs serve slashed r s' ∧
      ¬ Converged single slashed s') :=
  ⟨⟨deployed_oneNode "x" "y", _, _, misnamedPass_runs, misnamedPass_not_converged⟩,
    ⟨deployed_namelessVolume, _, _, namelessPass_runs, namelessPass_not_converged⟩,
    ⟨deployed_slashed, _, _, slashedPass_runs, slashedPass_not_converged⟩⟩

end NimbusCore.Controller
