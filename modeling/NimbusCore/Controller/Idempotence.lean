import Mathlib.Data.Fintype.Defs
import NimbusCore.Controller.Convergence
import NimbusCore.Controller.Outcome

/-!
# Controller — a second reconcile changes nothing

Two passes in a row, with no other writer and no store error between them, end in the state the
first one ends in (`reconcileOne_idempotent`), whatever the orders of their listings.

The second pass finds no doomed pod (`state₁_again`).  If the first one came to the number wanted,
it has nothing to create or delete.  Otherwise the pods the first one created were doomed at once,
by a claimed or a preset node that is not ready (`full_or_stuck`); then the second creates the same
ones (`creations_again`) and evicts them again (`state₃_again`).  Nothing is left to schedule
(`owned_settled`), the volumes are claimed, and the status is the same.

None of the conditions on the names in the store can be left out (`idempotence_needs_names`).
-/

namespace NimbusCore.Controller

open Api Registry Scheduler List State

/-! ### Evictions that change nothing -/

section

variable {d : Deployment} {s : State} (hs : Sound d.getMetadata.ns (s .pods))
  (h : ∀ p, Owns d (s .pods) p → ¬ Doomed s p)

include hs h

theorem spared_eq : spared d s = s .pods := by
  refine Finmap.ext_lookup fun k => ?_
  rw [lookup_spared]
  cases hl : (s .pods).lookup k with
  | none => rfl
  | some p =>
    refine (Option.filter_some ..).trans (if_pos (decide_eq_true ?_))
    rintro ⟨hk, ho, hd⟩
    have he := hs.keyed k p hl
    exact h p ⟨by rwa [he], by rwa [he], ho⟩ hd

/-- Doomed pods that are written where nothing was are evicted again. -/
theorem spared_write {ps : List Pod} (hn : (ps.map podPath).Nodup)
    (hps : ∀ p ∈ ps, Listed d.getMetadata.ns (podPath p) ∧ OwnedBy d p ∧ Doomed s p)
    (hnone : ∀ p ∈ ps, (s .pods).lookup (podPath p) = none) :
    spared d (s.set .pods ((s .pods).insertAll (ps.map podEntry))) = s .pods := by
  have hd : ∀ p, Doomed (s.set .pods ((s .pods).insertAll (ps.map podEntry))) p ↔ Doomed s p :=
    doomed_congr (by simp)
  refine Finmap.ext_lookup fun k => ?_
  simp only [lookup_spared, set_self, hd]
  by_cases hk : k ∈ ps.map podPath
  · obtain ⟨p, hp, rfl⟩ := mem_map.mp hk
    rw [lookup_write hn hp, Option.filter_some, if_neg (by simpa using hps p hp), hnone p hp]
  · rw [lookup_write_of_notMem hk, ← lookup_spared, spared_eq hs h]

end

/-! ### Pods that are created again -/

section

variable {d : Deployment} {s s' : State}

theorem freeIndices_congr {occ occ' : List Int} (h : ∀ x, x ∈ occ' ↔ x ∈ occ) :
    ∀ fuel toCreate i : Nat, freeIndices occ' fuel toCreate i = freeIndices occ fuel toCreate i
  | _, 0, _ | 0, _ + 1, _ => by simp [freeIndices]
  | fuel + 1, toCreate + 1, i => by
    rw [freeIndices, freeIndices, freeIndices_congr h fuel (toCreate + 1) (i + 1),
      freeIndices_congr h fuel toCreate (i + 1)]
    simp only [h]

/-- Which pods are created depends on the number of pods there are, on their names, and on the
claimed node. -/
theorem creations_congr {owned owned' : List Pod} (hlen : owned'.length = owned.length)
    (hnames : ∀ n, n ∈ owned'.map (fun p => p.getMetadata.name) ↔
      n ∈ owned.map (fun p => p.getMetadata.name))
    (hnode : claimedNode s' d.getMetadata.ns d.getTemplate.volumes =
      claimedNode s d.getMetadata.ns d.getTemplate.volumes) :
    creations d owned' s' = creations d owned s := by
  have hocc : ∀ x, x ∈ occupied d owned' ↔ x ∈ occupied d owned := by
    intro x
    have hx : ∀ l : List Pod, x ∈ occupied d l ↔ ∃ n ∈ l.map (fun p => p.getMetadata.name),
        atoi (trimPrefix n (d.getMetadata.name ++ "-")) = some x := by
      intro l
      simp [occupied]
    rw [hx, hx]
    exact exists_congr fun n => and_congr_left fun _ => hnames n
  simp only [creations, hlen, hnode, freeIndices_congr hocc]

theorem wanted_le_one (h : d.getTemplate.volumes ≠ []) : wanted d ≤ 1 := by
  have := length_pos_of_ne_nil h
  simp only [wanted]
  split <;> omega

end

/-! ### The second pass -/

theorem firstNode_ne_empty {owned : List Pod} :
    firstNode owned ≠ "" ↔ ∃ p ∈ owned, p.getSpec.nodeName ≠ "" := by
  induction owned with
  | nil => simp [firstNode]
  | cons p owned ih =>
    by_cases hp : p.getSpec.nodeName = ""
    · have he : firstNode (p :: owned) = firstNode owned := by simp [firstNode, hp]
      simp [he, ih, hp]
    · simp [firstNode, hp]

variable {q : Pod}

namespace Pass

variable {d : Deployment} {s : State} (π : Pass d s) (ho : Orderly d s)

include ho in
/-- **A pass comes to the number wanted, or every pod it creates is doomed.** -/
theorem full_or_stuck (h : Accountable d s) :
    (π.owned₂.length : Int) = wanted d ∨
      ((π.owned₁.length : Int) < wanted d ∧ π.owned₂.Perm π.owned₁ ∧
        ∀ c ∈ creations d π.owned₁ π.state₁, Doomed s c) := by
  have hw : 0 ≤ wanted d := wanted_nonneg_iff.mpr h.replicas
  have hp := π.owned₂_perm ho.pods h.ns_ne_empty
  have h₁ : ∀ p ∈ π.owned₁, ¬ Doomed s p := fun p hp =>
    ((mem_healthy ho.pods π.first_isOrder).mp hp).2
  rw [target] at hp
  split at hp
  · next hlt =>
    rw [filter_append, filter_eq_self.mpr (by simpa using h₁)] at hp
    have hc : ∀ c ∈ creations d π.owned₁ π.state₁, (Doomed s c ↔
        Doomed s (created d (claimedNode π.state₁ d.getMetadata.ns d.getTemplate.volumes) 0)) := by
      intro c hc
      obtain ⟨i, -, rfl⟩ := mem_map.mp hc
      rw [doomed_created, doomed_created, created_nodeName, created_nodeName]
    by_cases hd : Doomed s
        (created d (claimedNode π.state₁ d.getMetadata.ns d.getTemplate.volumes) 0)
    · have hall : ∀ c ∈ creations d π.owned₁ π.state₁, Doomed s c := fun c hm => (hc c hm).mpr hd
      rw [filter_eq_nil_iff.mpr (by simpa using hall), append_nil] at hp
      exact .inr ⟨hlt, hp, hall⟩
    · have hall : ∀ c ∈ creations d π.owned₁ π.state₁, ¬ Doomed s c := fun c hm =>
        mt (hc c hm).mp hd
      rw [filter_eq_self.mpr (by simpa using hall)] at hp
      have hl := length_creations d π.owned₁ π.state₁
      rw [hp.length_eq, length_append, hl]
      omega
  · have hall : ∀ p ∈ π.owned₁.take (wanted d).toNat, ¬ Doomed s p := fun p hp =>
      h₁ p (mem_of_mem_take hp)
    rw [filter_eq_self.mpr (by simpa using hall)] at hp
    rw [hp.length_eq, length_take]
    omega

section

variable (hs : Sound d.getMetadata.ns (s .pods))

include hs

theorem sound_final : Sound d.getMetadata.ns (π.final .pods) := by
  rw [π.pods_final]
  exact π.sound₄ hs

theorem owns_final : Owns d (π.final .pods) q ↔ q ∈ π.owned := by
  rw [π.pods_final]
  exact (π.mem_owned hs).symm

/-- A doomed pod that was created is gone, and so is what it replaced. -/
theorem lookup_final_created (hlt : (π.owned₁.length : Int) < wanted d)
    (hns : d.getMetadata.ns ≠ "") {c : Pod} (hc : c ∈ creations d π.owned₁ π.state₁)
    (hd : Doomed s c) : (π.final .pods).lookup (podPath c) = none := by
  have hl : (π.state₂ .pods).lookup (podPath c) = some c := by
    rw [state₂_eq, scaled, if_pos hlt, set_self]
    exact lookup_write (nodup_creations d _ _) hc
  have hown : Owns d (π.state₂ .pods) c := by
    rw [π.owns_resized hs hns, target, if_pos hlt]
    exact mem_append_right _ hc
  rw [π.lookup_final hs, π.state₃_eq hs, set_self, lookup_spared, hl, Option.filter_some,
    if_neg, Option.map_none]
  have hd₂ : Doomed π.state₂ c := (doomed_congr π.nodes₂ c).mpr hd
  simpa using ⟨hown.2.1, hown.2.2, hd₂⟩

end

/-- A claimed node that dooms the created pods stays the claimed one. -/
theorem claimedNode_again (hlt : (π.owned₁.length : Int) < wanted d)
    (hsame : π.owned₂.Perm π.owned₁) :
    claimedNode π.final d.getMetadata.ns d.getTemplate.volumes =
      claimedNode π.state₁ d.getMetadata.ns d.getTemplate.volumes := by
  by_cases hm : d.getTemplate.volumes = []
  · rw [hm]
    rfl
  · -- with a mount one pod is wanted, and there is none that could claim
    have hw := wanted_le_one hm
    have hlen := hsame.length_eq
    have hnil : π.owned₂ = [] := eq_nil_of_length_eq_zero (by omega)
    have howned : π.owned = [] := by rw [owned, hnil]; rfl
    have hvols : π.final .volumes = s .volumes := by
      rw [π.volumes_final, state₅, howned]
      exact π.volumes₄
    exact claimedNode_congr (hvols.trans (π.frame₁ (by decide)).symm) _ _

variable (π' : Pass d π.final)

include ho

theorem final_not_doomed (hq : Owns d (π.final .pods) q) : ¬ Doomed π.final q := by
  rw [doomed_congr π.nodes_final]
  exact π.owned_not_doomed ho.pods ho.nodes_named ((π.owns_final ho.pods).mp hq)

/-- **Nothing is evicted.** -/
theorem state₁_again : π'.state₁ = π.final := by
  rw [π'.state₁_eq (π.sound_final ho.pods),
    spared_eq (π.sound_final ho.pods) fun _ => π.final_not_doomed ho, set_eq]

theorem owned₁_again : π'.owned₁.Perm π.owned := by
  rw [perm_ext_iff_of_nodup (List.Nodup.of_map _ (π'.nodup_owned₁ (π.sound_final ho.pods)))
    (List.Nodup.of_map _ (π.nodup_owned ho.pods))]
  intro q
  rw [π'.mem_owned₁ (π.sound_final ho.pods), π.state₁_again ho, π.owns_final ho.pods]

/-- **The same pods are created**, when those of the first pass were doomed. -/
theorem creations_again (hlt : (π.owned₁.length : Int) < wanted d)
    (hsame : π.owned₂.Perm π.owned₁) :
    creations d π'.owned₁ π.final = creations d π.owned₁ π.state₁ := by
  have hperm := π.owned₁_again ho π'
  refine creations_congr ?_ (fun n => ?_) (π.claimedNode_again hlt hsame)
  · rw [hperm.length_eq, owned, length_map, hsame.length_eq]
  · rw [(hperm.map _).mem_iff, ← (hsame.map _).mem_iff, owned, map_map]
    simp only [Function.comp_def, placed_metadata]

variable (h : Accountable d s)

include h

/-- **Eviction, scaling and eviction change nothing.** -/
theorem state₃_again : π'.state₃ = π.final := by
  have hst := π.sound_final ho.pods
  have hnd : ∀ q, Owns d (π.final .pods) q → ¬ Doomed π.final q := fun _ =>
    π.final_not_doomed ho
  have h₁ := π.state₁_again ho π'
  have hlen : π'.owned₁.length = π.owned₂.length := by
    rw [(π.owned₁_again ho π').length_eq, owned, length_map]
  rcases π.full_or_stuck ho h with hfull | ⟨hlt, hsame, hdoomed⟩
  · have h₂ : π'.state₂ = π.final := by
      rw [state₂_eq, h₁, scaled, if_neg (by omega), drop_of_length_le (by omega)]
      exact set_eq ..
    rw [π'.state₃_eq hst, h₂, spared_eq hst hnd, set_eq]
  · have h₂ : π'.state₂ = π.final.set .pods ((π.final .pods).insertAll
        ((creations d π.owned₁ π.state₁).map podEntry)) := by
      have := hsame.length_eq
      rw [state₂_eq, h₁, scaled, if_pos (by omega), π.creations_again ho π' hlt hsame]
    rw [π'.state₃_eq hst, h₂, State.set_set, spared_write hst hnd (nodup_creations d _ _),
      set_eq]
    · intro c hc
      rw [doomed_congr π.nodes_final]
      refine ⟨?_, ?_, hdoomed c hc⟩
      · obtain ⟨i, node, rfl, -⟩ := mem_creations hc
        rw [podPath_created]
        exact listed_path h.ns_ne_empty _
      · obtain ⟨i, node, rfl, -⟩ := mem_creations hc
        exact ownedBy_created i
    · exact fun c hc => π.lookup_final_created ho.pods hlt h.ns_ne_empty hc (hdoomed c hc)

theorem owned₂_again : π'.owned₂.Perm π.owned := by
  rw [perm_ext_iff_of_nodup (List.Nodup.of_map _ (π'.nodup_owned₂ (π.sound_final ho.pods)))
    (List.Nodup.of_map _ (π.nodup_owned ho.pods))]
  intro q
  rw [π'.mem_owned₂ (π.sound_final ho.pods), π.state₃_again ho π' h, π.owns_final ho.pods]

section

variable (hov : NoOverflow π.final)

include hov

/-- No pod of the second pass is rewritten. -/
theorem not_rewritten (hq : q ∈ π'.owned₂) : ¬ Rewritten π'.candidates q := by
  have h₃ := π.state₃_again ho π' h
  have hp := π'.podOrder_isOrder
  have hn := π'.nodeOrder_isOrder
  change Finmap.IsOrder _ (π'.state₃.listing _ _) at hp hn
  rw [h₃] at hp hn
  rw [candidates, h₃]
  exact π.owned_settled ho h hov hp hn ((π.owned₂_again ho π' h).mem_iff.mp hq)

theorem owned_again : π'.owned.Perm π.owned := by
  have he : π'.owned = π'.owned₂ := by
    refine (map_congr_left fun q hq => ?_).trans (map_id _)
    exact placed_of_not_rewritten (π.not_rewritten ho π' h hov hq)
  rw [he]
  exact π.owned₂_again ho π' h

/-- **Nothing is scheduled.** -/
theorem state₄_again : π'.state₄ = π.final := by
  have hr : rewrites π'.candidates π'.owned₂ = [] := by
    rw [rewrites, map_eq_nil_iff, filter_eq_nil_iff]
    exact fun q hq hr => π.not_rewritten ho π' h hov hq (of_decide_eq_true hr)
  rw [state₄, hr, π.state₃_again ho π' h]
  exact set_eq ..

/-- **Nothing is claimed.** -/
theorem state₅_again : π'.state₅ = π.final := by
  rw [state₅, π.state₄_again ho π' h hov, volumesClaimed]
  split
  · rfl
  · next hne =>
    have hfirst : firstNode π.owned ≠ "" := by
      obtain ⟨p, hp, hnode⟩ := firstNode_ne_empty.mp hne
      exact firstNode_ne_empty.mpr ⟨p, (π.owned_again ho π' h hov).mem_iff.mp hp, hnode⟩
    have hvols : π.final .volumes =
        claimAll d (firstNode π.owned) (s .volumes) d.getTemplate.volumes := by
      rw [π.volumes_final, state₅, volumesClaimed, if_neg hfirst, set_self, π.volumes₄]
    rw [claimAll_of_claimed, set_eq]
    rw [hvols]
    exact claimedAt_claimAll hfirst _ _ ho.mounts_keyed fun _ hm => hm

theorem final_again : π'.final = π.final := by
  rw [final, π.state₅_again ho π' h hov]
  exact statusWritten_twice (statusOf_perm (π.owned_again ho π' h hov))

end

end Pass

theorem MountsKeyed.named {ns : String} {mounts : List VolumeMount} {vols : Dict String Volume}
    (h : MountsKeyed ns mounts vols) : MountsNamed ns mounts vols :=
  fun m hm vol hl => (h m hm vol hl).1

variable {d : Deployment} {s : State}

theorem Pass.mountsKeyed_final (π : Pass d s)
    (h : MountsKeyed d.getMetadata.ns d.getTemplate.volumes (s .volumes)) :
    MountsKeyed d.getMetadata.ns d.getTemplate.volumes (π.final .volumes) := by
  rw [π.volumes_final, state₅, volumesClaimed]
  split
  · rwa [π.volumes₄]
  · rw [set_self, π.volumes₄]
    exact h.claimAll _ _ fun _ hm => hm

/-- **Reconcile is idempotent.**  After a run of `reconcileOne` every further run leaves the store
as it is. -/
theorem reconcileOne_idempotent {d : Deployment} {s s₁ s₂ : State} {r₁ r₂ : Except Stop Unit}
    (h : Accountable d s) (ho : Orderly d s) (h₁ : (reconcileOne d).Runs serve s r₁ s₁)
    (hov : NoOverflow s₁) (h₂ : (reconcileOne d).Runs serve s₁ r₂ s₂) : s₂ = s₁ := by
  have hw := wanted_nonneg_iff.mpr h.replicas
  obtain ⟨π, rfl⟩ := final_of_runs hw ho.mounts_keyed.named h₁
  obtain ⟨π', rfl⟩ := final_of_runs hw (π.mountsKeyed_final ho.mounts_keyed).named h₂
  exact π.final_again ho π' h hov

/-- A stored deployment stays stored. -/
theorem Pass.stored_final (π : Pass d s) {cur : Deployment}
    (hd : (s .deployments).lookup (path d.getMetadata.ns d.getMetadata.name) = some cur) :
    ∃ cur', (π.final .deployments).lookup (path d.getMetadata.ns d.getMetadata.name) =
      some cur' := by
  rw [← π.deployments₅] at hd
  rw [final, statusWritten_of_lookup hd, set_self, Finmap.lookup_insert_eq]
  split
  · exact ⟨_, rfl⟩
  · exact ⟨cur, hd⟩

/-- The conditions of `Orderly`, one by one. -/
inductive Naming where
  | podsKeyed
  | podsConfined
  | nodesNamed
  | noNamelessNode
  | mountsKeyed
  deriving DecidableEq

instance : Fintype Naming where
  elems := {.podsKeyed, .podsConfined, .nodesNamed, .noNamelessNode, .mountsKeyed}
  complete c := by cases c <;> decide

def Naming.Holds (d : Deployment) (s : State) : Naming → Prop
  | podsKeyed => ∀ k p, (s .pods).lookup k = some p → podPath p = k
  | podsConfined => ∀ k p, (s .pods).lookup k = some p → Listed d.getMetadata.ns k →
      p.getMetadata.ns = d.getMetadata.ns
  | nodesNamed => NodesNamed s
  | noNamelessNode => (s .nodes).lookup "" = none
  | mountsKeyed => MountsKeyed d.getMetadata.ns d.getTemplate.volumes (s .volumes)

theorem orderly_iff : Orderly d s ↔ ∀ c : Naming, c.Holds d s := by
  constructor
  · intro h c
    cases c with
    | podsKeyed => exact h.pods.keyed
    | podsConfined => exact h.pods.confined
    | nodesNamed => exact h.nodes_named
    | noNamelessNode => exact h.no_nameless_node
    | mountsKeyed => exact h.mounts_keyed
  · intro h
    exact ⟨⟨h .podsKeyed, h .podsConfined⟩, h .nodesNamed, h .noNamelessNode, h .mountsKeyed⟩

instance (d : Deployment) (s : State) : (c : Naming) → Decidable (c.Holds d s)
  | .podsKeyed => inferInstanceAs (Decidable (∀ _ _, _ → _))
  | .podsConfined => inferInstanceAs (Decidable (∀ _ _, _ → _))
  | .nodesNamed => inferInstanceAs (Decidable (∀ _ _, _ → _))
  | .noNamelessNode => inferInstanceAs (Decidable (_ = _))
  | .mountsKeyed => inferInstanceAs (Decidable (MountsKeyed _ _ _))

theorem orderly_oneNode : Orderly single (oneNode "y" "y") := orderly_iff.mpr (by decide)

/-- The pod that was created is found on its node. -/
def namedAgain : Pass single namedPass.final :=
  .ofOrders ["a/web-0"] ["a/web-0"] ["a/web-0"] ["y"] (by decide)

theorem namedAgain_runs :
    (reconcileOne single).Runs serve namedPass.final (.ok ()) namedAgain.final := by
  obtain ⟨cur, hcur⟩ := namedPass.stored_final (deployed_oneNode "y" "y").stored
  exact (runs_iff_final (by decide) (by decide) hcur).mpr ⟨namedAgain, rfl, rfl⟩

theorem reconcileOne_idempotent_sample : namedAgain.final = namedPass.final :=
  reconcileOne_idempotent (accountable_of_idle (by decide) (by decide) (by decide) rfl)
    orderly_oneNode namedPass_runs (noOverflow_of_idle (by decide)) namedAgain_runs

/-! ### The names are needed -/

/-- A store that meets all the conditions but `c`, with a stored deployment and a run of it that the
next run does not leave as it is. -/
structure Breaks (c : Naming) (d : Deployment) (s : State) : Prop where
  accountable : Accountable d s
  stored : (s .deployments).lookup (path d.getMetadata.ns d.getMetadata.name) = some d
  others : ∀ c', c' ≠ c → c'.Holds d s
  disturbed : ∃ r₁ s₁ r₂ s₂, (reconcileOne d).Runs serve s r₁ s₁ ∧ NoOverflow s₁ ∧
    (reconcileOne d).Runs serve s₁ r₂ s₂ ∧ s₂ ≠ s₁

/-- Two passes in a row, of a deployment that is stored and whose mounted volumes have metadata,
over pods that ask for nothing. -/
theorem breaks_of_passes {c : Naming} (π : Pass d s) (π' : Pass d π.final)
    (hd : (d.getMetadata.ns ≠ "" ∧ 0 ≤ d.getSpec.replicas.toInt) ∧
      (s .deployments).lookup (path d.getMetadata.ns d.getMetadata.name) = some d)
    (hidle : (∀ k p, (s .pods).lookup k = some p → p.getSpec.containers = []) ∧
      ∀ k p, (π.final .pods).lookup k = some p → p.getSpec.containers = [])
    (ht : d.getTemplate.containers = []) (ho : ∀ c', c' ≠ c → c'.Holds d s)
    (hv : MountsNamed d.getMetadata.ns d.getTemplate.volumes (s .volumes) ∧
      MountsNamed d.getMetadata.ns d.getTemplate.volumes (π.final .volumes)) (k : Kind)
    (key : String) (hne : (π'.final k).lookup key ≠ (π.final k).lookup key) : Breaks c d s := by
  have hw := wanted_nonneg_iff.mpr hd.1.2
  obtain ⟨cur, hcur⟩ := π.stored_final hd.2
  exact ⟨accountable_of_idle hd.1.1 hd.1.2 hidle.1 ht, hd.2, ho, _, _, _, _,
    (runs_iff_final hw hv.1 hd.2).mpr ⟨π, rfl, rfl⟩, noOverflow_of_idle hidle.2,
    (runs_iff_final hw hv.2 hcur).mpr ⟨π', rfl, rfl⟩, fun he => hne (by rw [he])⟩

/-- A pod on a node that is gone, stored at the key of another. -/
def strayed : State :=
  stateOf (Finmap.singleton "a/web" single) (Finmap.singleton "a/x" (webPod "web-0" "gone")) ∅ ∅

/-- The eviction of the stray pod deletes at the key `a/web-0`, where the new pod is; the scheduling
writes the new pod back. -/
def strayedPass : Pass single strayed :=
  .ofOrders ["a/x"] ["a/x", "a/web-0"] ["a/x"] [] (by decide)

/-- Now the new pod is counted and deleted, and not found again. -/
def strayedAgain : Pass single strayedPass.final :=
  .ofOrders ["a/x", "a/web-0"] ["a/x"] ["a/x"] [] (by decide)

theorem breaks_strayed : Breaks .podsKeyed single strayed :=
  breaks_of_passes strayedPass strayedAgain (by decide) (by decide) rfl (by decide) (by decide)
    .pods "a/web-0" (by decide)

/-- Two replicas of a pod that asks for nothing. -/
def double : Deployment :=
  { metadata := some { name := "web", ns := "a" }
    spec := some { replicas := 2 } }

/-- A pod without a namespace, whose name is a path in the namespace `a`. -/
def foreign : State :=
  stateOf (Finmap.singleton "a/web" double)
    (Finmap.singleton "a/web-0"
      { metadata := some
          { name := "a/web-0", labels := Finmap.singleton OwnerDeploymentLabel "web" } }) ∅ ∅

/-- The foreign pod is counted, and then overwritten by the one that is created. -/
def foreignPass : Pass double foreign :=
  .ofOrders ["a/web-0"] ["a/web-0"] ["a/web-0"] [] (by decide)

/-- So one is missing. -/
def foreignAgain : Pass double foreignPass.final :=
  .ofOrders ["a/web-0"] ["a/web-0", "a/web-1"] ["a/web-0", "a/web-1"] [] (by decide)

theorem breaks_foreign : Breaks .podsConfined double foreign :=
  breaks_of_passes foreignPass foreignAgain (by decide) (by decide) rfl (by decide) (by decide)
    .pods "a/web-1" (by decide)

/-- A pod without a node, and a node that is stored under another name. -/
def misnamed : State :=
  stateOf (Finmap.singleton "a/web" single) (Finmap.singleton "a/web-7" (webPod "web-7" ""))
    (Finmap.singleton "x" (readyNode "y")) ∅

/-- The pod goes to the node `y`. -/
def misnamedFirst : Pass single misnamed :=
  .ofOrders ["a/web-7"] ["a/web-7"] ["a/web-7"] ["x"] (by decide)

/-- There is no node `y`: the pod is evicted and another one created. -/
def misnamedAgain : Pass single misnamedFirst.final :=
  .ofOrders ["a/web-7"] ["a/web-0"] ["a/web-0"] ["x"] (by decide)

theorem breaks_misnamed : Breaks .nodesNamed single misnamed :=
  breaks_of_passes misnamedFirst misnamedAgain (by decide) (by decide) rfl (by decide) (by decide)
    .pods "a/web-7" (by decide)

/-- Two nodes, one without a name. -/
def nameless : State :=
  stateOf (Finmap.singleton "a/web" single) ∅
    ((Finmap.singleton "" (readyNode "")).insert "n" (readyNode "n")) ∅

/-- The pod goes to the node without a name, which is to say that it has no node. -/
def namelessFirst : Pass single nameless :=
  .ofOrders [] ["a/web-0"] ["a/web-0"] ["", "n"] (by decide)

/-- With another order of the nodes it goes to the other one. -/
def namelessAgain : Pass single namelessFirst.final :=
  .ofOrders ["a/web-0"] ["a/web-0"] ["a/web-0"] ["n", ""] (by decide)

theorem breaks_nameless : Breaks .noNamelessNode single nameless :=
  breaks_of_passes namelessFirst namelessAgain (by decide) (by decide) rfl (by decide) (by decide)
    .pods "a/web-0" (by decide)

/-- One replica that mounts three volumes. -/
def threeMounts : Deployment :=
  { metadata := some { name := "web", ns := "a" }
    spec := some
      { replicas := 1
        template := some
          { volumes := [{ volumeName := "u" }, { volumeName := "v" }, { volumeName := "w" }] } } }

def namedVolume (name : String) (bytes : Int64) : Volume :=
  { metadata := some { name := name, ns := "a" }
    spec := some { requestedBytes := bytes } }

/-- Volumes that are stored under other names than their own. -/
def crossed : State :=
  stateOf (Finmap.singleton "a/web" threeMounts) ∅ (Finmap.singleton "y" (readyNode "y"))
    (((Finmap.singleton "a/u" (namedVolume "t" 1)).insert "a/v" (namedVolume "t" 2)).insert "a/w"
      (namedVolume "v" 3))

/-- The claims of `u` and `v` are both written at `t`, the one of `w` at `v`. -/
def crossedPass : Pass threeMounts crossed :=
  .ofOrders [] ["a/web-0"] ["a/web-0"] ["y"] (by decide)

/-- Now `v` is claimed, and only the claim of `u` is written at `t`. -/
def crossedAgain : Pass threeMounts crossedPass.final :=
  .ofOrders ["a/web-0"] ["a/web-0"] ["a/web-0"] ["y"] (by decide)

theorem breaks_crossed : Breaks .mountsKeyed threeMounts crossed :=
  breaks_of_passes crossedPass crossedAgain (by decide) (by decide) rfl (by decide) (by decide)
    .volumes "a/t" (by decide)

/-- **The names are needed.**  For each condition on the names in the store there is a store that
meets the others, with a run that the next run does not leave as it is. -/
theorem idempotence_needs_names :
    Breaks .podsKeyed single strayed ∧ Breaks .podsConfined double foreign ∧
      Breaks .nodesNamed single misnamed ∧ Breaks .noNamelessNode single nameless ∧
      Breaks .mountsKeyed threeMounts crossed :=
  ⟨breaks_strayed, breaks_foreign, breaks_misnamed, breaks_nameless, breaks_crossed⟩

end NimbusCore.Controller
