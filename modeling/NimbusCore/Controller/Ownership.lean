import NimbusCore.Controller.Convergence

/-!
# Controller — which pods a pass may touch

A pass takes for its own the pods that are listed for its namespace and carry its label, and it puts
new pods at the first ordinals that none of the healthy ones has.  A put replaces whatever is stored
there.

When the pods it takes for its own are its own (`Confined`), a pass leaves every other pod as it is,
except at the ordinals it fills (`Fills`), which are known before it starts.  This is
`spared_iff`, for any pods that are not its own:

* `foreign_pods_kept_iff`: the pods without the label, or in another namespace.
* `other_namespaces_kept_iff`: the pods of other namespaces, for a pass and for `DeleteDeployment`.
-/

namespace NimbusCore.Controller

open Api Registry Scheduler Apiserver Prog List Finmap

/-! ### What a pass takes for its own -/

/-- The pod is one of `d`: it carries the label, in the namespace of `d`. -/
def Ours (d : Deployment) (p : Pod) : Prop :=
  OwnedBy d p ∧ p.getMetadata.ns = d.getMetadata.ns

instance (d : Deployment) (p : Pod) : Decidable (Ours d p) := inferInstanceAs (Decidable (_ ∧ _))

/-- A pod that is listed for the namespace of `d` and carries its label is in that namespace, and
stored under its own metadata. -/
def Confined (d : Deployment) (s : State) : Prop :=
  ∀ k p, (s .pods).lookup k = some p → Listed d.getMetadata.ns k → OwnedBy d p →
    podPath p = k ∧ p.getMetadata.ns = d.getMetadata.ns

instance (d : Deployment) (s : State) : Decidable (Confined d s) :=
  inferInstanceAs (Decidable (∀ k p, (s .pods).lookup k = some p → _ → _ → _))

section

variable {d : Deployment} {s : State} {order : List String}

/-- What is listed and carries the label is stored at its path. -/
theorem Confined.lookup (hc : Confined d s)
    (ho : Finmap.IsOrder order (s.listing .pods d.getMetadata.ns)) {p : Pod}
    (hp : p ∈ seen d s order) (hown : OwnedBy d p) :
    (s .pods).lookup (podPath p) = some p ∧ Ours d p := by
  rw [seen, State.mem_listed ho] at hp
  obtain ⟨k, hk, hl⟩ := hp
  obtain ⟨he, hns⟩ := hc k p hl hk hown
  exact ⟨he ▸ hl, hown, hns⟩

theorem mem_seen_of_mem_healthy {all : List Pod} {p : Pod} (hp : p ∈ healthy d all s) :
    p ∈ all ∧ OwnedBy d p := by
  rw [healthy, mem_filter, decide_eq_true_eq] at hp
  exact ⟨hp.1, hp.2.1⟩

end

/-! ### The ordinals that are filled -/

section

variable (d : Deployment) (s : State)

/-- The pods that are taken for its own, and not evicted. -/
def healthyPods : Dict String Pod :=
  (s .pods).filter fun k p => Listed d.getMetadata.ns k ∧ OwnedBy d p ∧ ¬ Doomed s p

/-- The ordinal in the name of a pod. -/
def ordinalOf (p : Pod) : Option Int :=
  atoi (trimPrefix p.getMetadata.name (d.getMetadata.name ++ "-"))

/-- No healthy pod has the ordinal. -/
def Free (i : Nat) : Prop := ∀ k p, (healthyPods d s).lookup k = some p → ordinalOf d p ≠ some i

instance : DecidablePred (Free d s) := fun i =>
  inferInstanceAs (Decidable (∀ k p, (healthyPods d s).lookup k = some p → ordinalOf d p ≠ some i))

/-- **The ordinal is filled**: it is free, and with the healthy pods and those at the free ordinals
before it there are still too few. -/
def Fills (i : Nat) : Prop :=
  Free d s i ∧
    ((healthyPods d s).keys.card : Int) + (List.range i).countP (fun j => Free d s j) < wanted d

instance : DecidablePred (Fills d s) := fun _ => inferInstanceAs (Decidable (_ ∧ _))

end

/-- **The indices at which pods are created**: those that are not occupied, and before which there
are not yet enough. -/
theorem mem_freeIndices {occ : List Int} {i : Nat} :
    ∀ {fuel toCreate j : Nat}, toCreate + ahead occ j ≤ fuel →
      (i ∈ freeIndices occ fuel toCreate j ↔ j ≤ i ∧ (i : Int) ∉ occ ∧
        (List.range' j (i - j)).countP (fun m => ((m : Nat) : Int) ∉ occ) < toCreate)
  | _, 0, _, _ => by simp [freeIndices]
  | 0, _ + 1, _, h => by omega
  | fuel + 1, toCreate + 1, j, h => by
    have hsucc : j < i → List.range' j (i - j) = j :: List.range' (j + 1) (i - (j + 1)) := by
      intro hlt
      rw [show i - j = (i - (j + 1)) + 1 by omega, range'_succ]
    rw [freeIndices]
    split
    · next hj =>
      have := ahead_succ_lt hj
      rw [mem_freeIndices (by omega)]
      constructor
      · rintro ⟨hle, hi, hcount⟩
        refine ⟨by omega, hi, ?_⟩
        rw [hsucc (by omega), countP_cons_of_neg (by simpa using hj)]
        exact hcount
      · rintro ⟨hle, hi, hcount⟩
        have hlt : j < i := lt_of_le_of_ne hle fun he => hi (he ▸ hj)
        rw [hsucc hlt, countP_cons_of_neg (by simpa using hj)] at hcount
        exact ⟨hlt, hi, hcount⟩
    · next hj =>
      have := ahead_succ_le occ j
      rw [mem_cons, mem_freeIndices (by omega)]
      constructor
      · rintro (rfl | ⟨hle, hi, hcount⟩)
        · exact ⟨le_refl _, hj, by simp⟩
        · refine ⟨by omega, hi, ?_⟩
          rw [hsucc (by omega), countP_cons_of_pos (by simpa using hj)]
          omega
      · rintro ⟨hle, hi, hcount⟩
        rcases Nat.eq_or_lt_of_le hle with he | hlt
        · exact .inl he.symm
        · rw [hsucc hlt, countP_cons_of_pos (by simpa using hj)] at hcount
          exact .inr ⟨hlt, hi, by omega⟩

section

variable {d : Deployment} {s : State} {order : List String}
  (ho : Finmap.IsOrder order (s.listing .pods d.getMetadata.ns))

include ho

/-- The healthy pods, in the order of the listing, by key. -/
theorem healthy_eq_map :
    ∃ es : List (String × Pod), es.map Prod.snd = healthy d (seen d s order) s ∧
      (es.map Prod.fst).Nodup ∧ ∀ k p, (k, p) ∈ es ↔ (healthyPods d s).lookup k = some p := by
  refine ⟨((s.listing .pods d.getMetadata.ns).range order).filter
    fun e => OwnedBy d e.2 ∧ ¬ Doomed s e.2, ?_, ?_, ?_⟩
  · rw [healthy, seen, State.listed, filter_map]
    rfl
  · refine List.Nodup.sublist (filter_sublist.map _) ?_
    rw [ho.map_fst_range]
    exact ho.1
  · intro k p
    rw [mem_filter, ho.mem_range, State.lookup_listing, healthyPods, Finmap.lookup_filter,
      Option.filter_eq_some_iff]
    by_cases hk : Listed d.getMetadata.ns k <;> simp [hk]

theorem mem_healthy_iff {p : Pod} :
    p ∈ healthy d (seen d s order) s ↔ ∃ k, (healthyPods d s).lookup k = some p := by
  obtain ⟨es, he, -, hmem⟩ := healthy_eq_map ho
  rw [← he, List.mem_map]
  constructor
  · rintro ⟨⟨k, p⟩, h, rfl⟩; exact ⟨k, (hmem k p).mp h⟩
  · rintro ⟨k, h⟩; exact ⟨(k, p), (hmem k p).mpr h, rfl⟩

theorem length_healthy : (healthy d (seen d s order) s).length = (healthyPods d s).keys.card := by
  obtain ⟨es, he, hn, hmem⟩ := healthy_eq_map ho
  have hkeys : (es.map Prod.fst).toFinset = (healthyPods d s).keys := by
    ext k
    rw [List.mem_toFinset, Finmap.mem_keys, List.mem_map]
    constructor
    · rintro ⟨⟨k, p⟩, h, rfl⟩; exact mem_of_lookup_eq_some ((hmem k p).mp h)
    · intro hk
      obtain ⟨p, hp⟩ := Finmap.mem_iff.mp hk
      exact ⟨(k, p), (hmem k p).mpr hp, rfl⟩
  rw [← he, length_map, ← hkeys, toFinset_card_of_nodup hn, length_map]

theorem mem_occupied_iff {i : Nat} :
    (i : Int) ∈ occupied d (healthy d (seen d s order) s) ↔ ¬ Free d s i := by
  simp only [occupied, mem_filterMap, mem_healthy_iff ho, Free, ordinalOf]
  push Not
  constructor
  · rintro ⟨p, ⟨k, hk⟩, hi⟩; exact ⟨k, p, hk, hi⟩
  · rintro ⟨k, p, hk, hi⟩; exact ⟨p, ⟨k, hk⟩, hi⟩

/-- **The paths of the created pods** are those of the ordinals that are filled. -/
theorem mem_creations_iff {t : State} {k : String} :
    k ∈ (creations d (healthy d (seen d s order) s) t).map podPath ↔
      ∃ i, Fills d s i ∧ k = path d.getMetadata.ns (podName d i) := by
  have hocc : ∀ i : Nat, (i : Int) ∉ occupied d (healthy d (seen d s order) s) ↔ Free d s i :=
    fun i => by rw [mem_occupied_iff ho, not_not]
  have hfuel := ahead_occupied_le d (healthy d (seen d s order) s)
  have hi : ∀ i, i ∈ freeIndices (occupied d (healthy d (seen d s order) s))
      ((wanted d - (healthy d (seen d s order) s).length).toNat +
        (healthy d (seen d s order) s).length)
      (wanted d - (healthy d (seen d s order) s).length).toNat 0 ↔ Fills d s i := by
    intro i
    rw [mem_freeIndices (by omega), Fills, length_healthy ho]
    simp only [hocc, Nat.zero_le, true_and, Nat.sub_zero, ← range_eq_range']
    refine and_congr_right fun _ => ?_
    omega
  simp only [creations, map_map, List.mem_map, hi, Function.comp_apply, podPath_created]
  exact exists_congr fun i => and_congr_right fun _ => eq_comm

end

/-! ### The pods through a pass -/

namespace Pass

variable {d : Deployment} {s : State} (π : Pass d s) {k : String}

/-- The paths at which the pass creates pods. -/
def createdPaths : List String := (creations d π.owned₁ π.state₁).map podPath

theorem mem_createdPaths :
    k ∈ π.createdPaths ↔ ∃ i, Fills d s i ∧ k = path d.getMetadata.ns (podName d i) :=
  mem_creations_iff π.first_isOrder

/-- What is written up to the second eviction is created, and each pod at its path. -/
theorem mem_edits₂ {p : Pod} (h : (k, some p) ∈ π.edits₂) :
    p ∈ creations d π.owned₁ π.state₁ ∧ k = podPath p := by
  have hnot : ∀ ks : List String, (k, some p) ∉ erasures ks := by
    intro ks hm
    obtain ⟨_, -, he⟩ := mem_map.mp hm
    cases he
  rcases mem_append.mp h with h | h
  · exact absurd h (hnot _)
  · simp only [resizing] at h
    split at h
    · obtain ⟨q, hq, he⟩ := mem_map.mp h
      cases he
      exact ⟨hq, rfl⟩
    · exact absurd h (hnot _)

theorem ours_of_created {p : Pod} (hp : p ∈ creations d π.owned₁ π.state₁) : Ours d p := by
  obtain ⟨i, node, rfl, -⟩ := mem_creations hp
  refine ⟨ownedBy_created i, ?_⟩
  rw [created_metadata]
  rfl

section

variable (hc : Confined d s)

include hc

theorem confined₂ : Confined d π.state₂ := by
  intro k p hl hk hown
  rw [π.pods₂, Finmap.lookup_edits] at hl
  split at hl
  · obtain ⟨hp, rfl⟩ := π.mem_edits₂ (Finmap.of_lookup_edits_empty hl)
    exact ⟨rfl, (π.ours_of_created hp).2⟩
  · exact hc k p hl hk hown

/-- What the pass erases or rewrites at first is its own. -/
theorem mem_keys_edits₂ (hk : k ∈ π.edits₂.map Prod.fst) :
    k ∈ π.createdPaths ∨ ∃ p, (s .pods).lookup k = some p ∧ Ours d p := by
  have hseen : ∀ p, p ∈ seen d s π.first → OwnedBy d p → podPath p = k →
      ∃ p, (s .pods).lookup k = some p ∧ Ours d p := by
    rintro p hp hown rfl
    exact ⟨p, hc.lookup π.first_isOrder hp hown⟩
  rw [edits₂, map_append, mem_append] at hk
  rcases hk with hk | hk
  · simp only [erasures, gone, map_map, List.mem_map, mem_filter, Function.comp_apply,
      decide_eq_true_eq] at hk
    obtain ⟨p, ⟨hp, hown, -⟩, he⟩ := hk
    exact .inr (hseen p hp hown he)
  · simp only [resizing] at hk
    split at hk
    · rw [writes, map_map] at hk
      exact .inl hk
    · simp only [erasures, map_map, List.mem_map, Function.comp_apply] at hk
      obtain ⟨p, hp, he⟩ := hk
      obtain ⟨hp, hown⟩ := mem_seen_of_mem_healthy (mem_of_mem_drop hp)
      exact .inr (hseen p hp hown he)

/-- **What is not the deployment's own stays**, where no pod is created. -/
theorem lookup₄_of_not_created (hk : k ∉ π.createdPaths)
    (hforeign : ∀ p, (s .pods).lookup k = some p → ¬ Ours d p) :
    (π.state₄ .pods).lookup k = (s .pods).lookup k := by
  have h₂ : (π.state₂ .pods).lookup k = (s .pods).lookup k := by
    rw [π.pods₂, Finmap.lookup_edits, if_neg]
    intro hm
    rcases π.mem_keys_edits₂ hc hm with hm | ⟨p, hl, hp⟩
    · exact hk hm
    · exact hforeign p hl hp
  -- what is listed the second time and carries the label is stored, so it is not at `k`
  have hseen : ∀ p, p ∈ seen d π.state₂ π.second → OwnedBy d p → podPath p ≠ k := by
    rintro p hp hown rfl
    obtain ⟨hl, hours⟩ := (π.confined₂ hc).lookup π.second_isOrder hp hown
    exact hforeign p (h₂.symm.trans hl) hours
  have h₃ : (π.state₃ .pods).lookup k = (π.state₂ .pods).lookup k := by
    rw [show π.state₃ = evict d (seen d π.state₂ π.second) π.state₂ from rfl, evict,
      State.set_self, Finmap.lookup_eraseAll, if_neg]
    intro hm
    obtain ⟨p, hp, he⟩ := mem_map.mp hm
    rw [mem_filter, decide_eq_true_eq] at hp
    exact hseen p hp.1 hp.2.1 he
  rw [state₄, State.set_self, lookup_write_of_notMem, h₃, h₂]
  intro hm
  obtain ⟨q, hq, he⟩ := mem_map.mp hm
  obtain ⟨p, hp, rfl⟩ := mem_map.mp hq
  obtain ⟨hp, hown⟩ := mem_seen_of_mem_healthy (mem_filter.mp hp).1
  rw [podPath_placed] at he
  exact hseen p hp hown he

/-- **Where a pod is created, whatever is left is the deployment's own.** -/
theorem ours₄_of_created (hk : k ∈ π.createdPaths) {q : Pod}
    (hq : (π.state₄ .pods).lookup k = some q) : Ours d q := by
  have h₂ : ∀ p, (π.state₂ .pods).lookup k = some p → Ours d p := by
    intro p hp
    obtain ⟨c, hcr, rfl⟩ := mem_map.mp hk
    have hlt : (π.owned₁.length : Int) < wanted d := by
      have := length_pos_of_mem hcr
      rw [length_creations] at this
      omega
    rw [state₂_eq, scaled, if_pos hlt, State.set_self,
      lookup_write (nodup_creations d _ _) hcr] at hp
    cases hp
    exact π.ours_of_created hcr
  have h₃ : ∀ p, (π.state₃ .pods).lookup k = some p → Ours d p := by
    intro p hp
    rw [show π.state₃ = evict d (seen d π.state₂ π.second) π.state₂ from rfl, evict,
      State.set_self, Finmap.lookup_eraseAll] at hp
    split at hp
    · cases hp
    · exact h₂ p hp
  rw [state₄, State.set_self, insertAll_podEntry, Finmap.lookup_edits] at hq
  split at hq
  · obtain ⟨q', hq', he⟩ := mem_map.mp (Finmap.of_lookup_edits_empty hq)
    cases he
    obtain ⟨p, hp, rfl⟩ := mem_map.mp hq'
    obtain ⟨hp, hown⟩ := mem_seen_of_mem_healthy (mem_filter.mp hp).1
    have hours := ((π.confined₂ hc).lookup π.second_isOrder hp hown).2
    rwa [Ours, OwnedBy, placed_metadata]
  · exact h₃ q hq

end

end Pass

/-! ### The runs of a pass -/

section

variable {d : Deployment} {s s' : State} {r : Except Stop Unit}

/-- The pods at the end of a run are those that a pass has scheduled, however the run ends. -/
theorem pods_of_runs (h : 0 ≤ wanted d) (hr : (reconcileOne d).Runs serve s r s') :
    ∃ π : Pass d s, s' .pods = π.state₄ .pods := by
  obtain ⟨π, hr⟩ := (runs_reconcileOne h).mp hr
  refine ⟨π, ?_⟩
  have hfail : ∀ (c : Cmd) (s : State) (x : c.Answer) (s' : State),
      serve c s x s' → serveOrFail c s x s' := fun _ _ _ _ h => .inl h
  have hr := hr.mono hfail
  have hvol : ∀ {r₁ s₁}, (claimVolumes d π.owned).Runs serveOrFail π.state₄ r₁ s₁ →
      s₁ .pods = π.state₄ .pods :=
    fun h => frame_of_within (claimVolumes_inBounds d π.owned) h (by decide)
  rcases runs_bind.mp hr with ⟨_, s₁, h₁, h₂⟩ | ⟨e, -, h₁⟩
  · exact (frame_of_within (quiet_writeStatus d π.owned) h₂ (by decide)).trans (hvol h₁)
  · exact hvol h₁

/-- **A pass spares the pods that are not its own, exactly if none of them is at an ordinal that it
fills**, when what it takes for its own is its own. -/
theorem spared_iff {F : Pod → Prop} (hF : ∀ p, F p → ¬ Ours d p) (hc : Confined d s) :
    (∀ r s', (reconcileOne d).Runs serve s r s' →
        ∀ k p, (s .pods).lookup k = some p → F p → (s' .pods).lookup k = some p) ↔
      ∀ i, Fills d s i →
        ∀ p, (s .pods).lookup (path d.getMetadata.ns (podName d i)) = some p → ¬ F p := by
  constructor
  · intro hkept i hi p hp hFp
    have hw : 0 ≤ wanted d := by
      have := hi.2
      omega
    obtain ⟨r, s', hr⟩ := exists_runs serve_total (reconcileOne d) s
    obtain ⟨π, hπ⟩ := pods_of_runs hw hr
    have hp' := hkept r s' hr _ p hp hFp
    rw [hπ] at hp'
    exact hF p hFp (π.ours₄_of_created hc (π.mem_createdPaths.mpr ⟨i, hi, rfl⟩) hp')
  · intro hfree r s' hr k p hp hFp
    have hforeign : ∀ q, (s .pods).lookup k = some q → ¬ Ours d q := by
      intro q hq
      rw [hp] at hq
      cases hq
      exact hF p hFp
    rcases lt_or_ge (wanted d) 0 with hw | hw
    · -- it evicts, and then panics
      obtain ⟨order, ho, -, rfl⟩ := (runs_reconcileOne_negative hw).mp hr
      rw [evict, State.set_self, Finmap.lookup_eraseAll, if_neg]
      · exact hp
      · intro hm
        obtain ⟨q, hq, rfl⟩ := mem_map.mp hm
        rw [mem_filter, decide_eq_true_eq] at hq
        obtain ⟨hl, hours⟩ := hc.lookup ho hq.1 hq.2.1
        exact hforeign q hl hours
    · obtain ⟨π, hπ⟩ := pods_of_runs hw hr
      rw [hπ, π.lookup₄_of_not_created hc _ hforeign]
      · exact hp
      · intro hm
        obtain ⟨i, hi, rfl⟩ := π.mem_createdPaths.mp hm
        exact hfree i hi p hp hFp

end

/-! ### Pods of others -/

section

variable {d : Deployment} {s : State}

/-- **A pass leaves alone every pod that does not carry its label in its namespace, exactly if none
of them is at an ordinal that it fills.** -/
theorem foreign_pods_kept_iff (hc : Confined d s) :
    (∀ r s', (reconcileOne d).Runs serve s r s' →
        ∀ k p, (s .pods).lookup k = some p → ¬ Ours d p → (s' .pods).lookup k = some p) ↔
      ∀ i, Fills d s i →
        ∀ p, (s .pods).lookup (path d.getMetadata.ns (podName d i)) = some p → Ours d p := by
  rw [spared_iff (fun p hp => hp) hc]
  simp only [not_not]

/-- A pod of its own, without an owner, in the namespace `a`. -/
def loosePod (name : String) : Pod :=
  { metadata := some { name := name, ns := "a" }
    spec := some { nodeName := "y" } }

/-- The deployment `web` beside such a pod. -/
def besidePod (name : String) : State :=
  stateOf (Finmap.singleton "a/web" single) (Finmap.singleton ("a/" ++ name) (loosePod name)) ∅ ∅

/-- Only the first ordinal is filled. -/
theorem fills_single {name : String} (hc : (healthyPods single (besidePod name)).keys.card = 0)
    (hfree : Free single (besidePod name) 0) {i : Nat} (hi : Fills single (besidePod name) i) :
    i = 0 := by
  by_contra h
  have hcount : 0 < (List.range i).countP fun j => Free single (besidePod name) j :=
    countP_pos_iff.mpr ⟨0, List.mem_range.mpr (Nat.pos_of_ne_zero h), decide_eq_true hfree⟩
  have hw : wanted single = 1 := by decide
  have := hi.2
  omega

theorem foreign_pods_kept_iff_sample :
    Confined single (besidePod "db-0") ∧
    ∀ r s', (reconcileOne single).Runs serve (besidePod "db-0") r s' →
      ∀ k p, (besidePod "db-0" .pods).lookup k = some p → ¬ Ours single p →
        (s' .pods).lookup k = some p := by
  have hc : Confined single (besidePod "db-0") := by decide
  refine ⟨hc, (foreign_pods_kept_iff hc).mpr fun i hi p hp => ?_⟩
  cases fills_single (by decide) (by decide) hi
  exact absurd hp (by decide +revert)

/-- The pod is named as the first replica would be. -/
def overwritingPass : Pass single (besidePod "web-0") :=
  .ofOrders ["a/web-0"] ["a/web-0"] ["a/web-0"] [] (by decide)

/-- **A pod that is not its own is overwritten**, because it has the name of a replica. -/
theorem foreign_pod_overwritten :
    single.getMetadata.ns ≠ "" ∧ Confined single (besidePod "web-0") ∧
    (besidePod "web-0" .pods).lookup "a/web-0" = some (loosePod "web-0") ∧
    ¬ Ours single (loosePod "web-0") ∧
    ∃ s', (reconcileOne single).Runs serve (besidePod "web-0") (.ok ()) s' ∧
      ∃ p, (s' .pods).lookup "a/web-0" = some p ∧ p ≠ loosePod "web-0" ∧ Ours single p := by
  have hstored : (besidePod "web-0" .deployments).lookup
      (path single.getMetadata.ns single.getMetadata.name) = some single := by decide
  have hrun : (reconcileOne single).Runs serve (besidePod "web-0") (.ok ())
      overwritingPass.final :=
    (runs_iff_final (by decide) (by decide) hstored).mpr ⟨overwritingPass, rfl, rfl⟩
  have hover : ∃ p ∈ (overwritingPass.final .pods).lookup "a/web-0",
      p ≠ loosePod "web-0" ∧ Ours single p := by decide
  exact ⟨by decide, by decide, by decide, by decide, _, hrun, hover⟩

end

/-! ### Pods of other namespaces -/

/-- The pods of other namespaces are as they were. -/
def OthersKept (ns : String) (s s' : State) : Prop :=
  ∀ k p, (s .pods).lookup k = some p → p.getMetadata.ns ≠ ns → (s' .pods).lookup k = some p

/-- The deployment is stored under `ns` and `name`, which are its own. -/
def StoredAs (s : State) (ns name : String) (d : Deployment) : Prop :=
  (s .deployments).lookup (path ns name) = some d ∧ d.getMetadata.ns = ns ∧
    d.getMetadata.name = name

instance (s : State) (ns name : String) (d : Deployment) : Decidable (StoredAs s ns name d) :=
  inferInstanceAs (Decidable (_ ∧ _))

section

variable {s : State} {ns name : String}

theorem yields_deleteOwned :
    ∀ (pods : List Pod) {s : State}, (deleteOwned name pods).Yields serve s (.ok ())
      (s.set .pods ((s .pods).eraseAll ((pods.filter fun p =>
        p.getMetadata.label OwnerDeploymentLabel = name).map podPath)))
  | [], s => by
    have : s.set .pods (s .pods) = s := State.set_eq s .pods
    simpa [deleteOwned, Finmap.eraseAll, this] using yields_pure
  | p :: pods, s => by
    rw [deleteOwned]
    split
    · next hl =>
      rw [filter_cons_of_neg (by simpa using hl)]
      exact yields_deleteOwned pods
    · next hl =>
      rw [filter_cons_of_pos (by simpa using hl)]
      have hrest := yields_deleteOwned pods (s := s.set .pods ((s .pods).erase (podPath p)))
      simp only [State.set_self, State.set_set] at hrest
      exact Yields.bind yields_delete hrest

/-- The state that `DeleteDeployment` leaves, after a listing in some order. -/
def withoutDeployment (ns name : String) (s : State) (order : List String) : State :=
  (s.set .deployments ((s .deployments).erase (path ns name))).set .pods
    ((s .pods).eraseAll (((s.listed .pods ns order).filter fun p =>
      p.getMetadata.label OwnerDeploymentLabel = name).map podPath))

theorem returns_deleteDeployment :
    (deleteDeployment ns name).Returns serve s fun x s' =>
      ∃ order, Finmap.IsOrder order (s.listing .pods ns) ∧ x = .ok () ∧
        s' = withoutDeployment ns name s order := by
  intro r s'
  rw [deleteDeployment, Yields.runs_bind yields_delete]
  exact returns_list_bind (fun _ => yields_deleteOwned _) r s'

section

variable (hk : ∀ k p, (s .pods).lookup k = some p → podPath p = k)

include hk

/-- **`DeleteDeployment` deletes what is listed with the label**, whatever namespace it is in. -/
theorem lookup_withoutDeployment {order : List String}
    (ho : Finmap.IsOrder order (s.listing .pods ns)) (k : String) :
    (withoutDeployment ns name s order .pods).lookup k = ((s .pods).lookup k).filter fun p =>
      ¬ (Listed ns k ∧ p.getMetadata.label OwnerDeploymentLabel = name) := by
  have hmem : k ∈ ((s.listed .pods ns order).filter fun p =>
      p.getMetadata.label OwnerDeploymentLabel = name).map podPath ↔
        ∃ p, (s .pods).lookup k = some p ∧ Listed ns k ∧
          p.getMetadata.label OwnerDeploymentLabel = name := by
    simp only [List.mem_map, mem_filter, decide_eq_true_eq, State.mem_listed ho]
    constructor
    · rintro ⟨p, ⟨⟨k', hl, hp⟩, hlab⟩, rfl⟩
      rw [hk k' p hp]
      exact ⟨p, hp, hl, hlab⟩
    · rintro ⟨p, hp, hl, hlab⟩
      exact ⟨p, ⟨⟨k, hl, hp⟩, hlab⟩, hk k p hp⟩
  rw [withoutDeployment, State.set_self, Finmap.lookup_eraseAll]
  simp only [hmem]
  cases hl : (s .pods).lookup k with
  | none => simp
  | some p =>
    by_cases h : Listed ns k ∧ p.getMetadata.label OwnerDeploymentLabel = name
    · rw [if_pos ⟨p, rfl, h⟩, Option.filter_some, if_neg (by simpa using h)]
    · rw [if_neg (by simpa using h), Option.filter_some, if_pos (decide_eq_true h)]

/-- `DeleteDeployment` stays in its namespace exactly if what is listed with the label is in it. -/
theorem deletion_kept_iff :
    (∀ r s', (deleteDeployment ns name).Runs serve s r s' → OthersKept ns s s') ↔
      ∀ k p, (s .pods).lookup k = some p → Listed ns k →
        p.getMetadata.label OwnerDeploymentLabel = name → p.getMetadata.ns = ns := by
  constructor
  · intro hkept k p hp hl hlab
    by_contra hns
    obtain ⟨order, ho⟩ := Finmap.exists_isOrder (s.listing .pods ns)
    have hp' :=
      hkept _ _ ((returns_deleteDeployment _ _).mpr ⟨_, rfl, order, ho, rfl, rfl⟩) k p hp hns
    rw [lookup_withoutDeployment hk ho, hp, Option.filter_some, if_neg (by simpa using ⟨hl, hlab⟩)]
      at hp'
    cases hp'
  · intro hall r s' hr k p hp hns
    obtain ⟨_, -, order, ho, -, rfl⟩ := (returns_deleteDeployment _ _).mp hr
    rw [lookup_withoutDeployment hk ho, hp, Option.filter_some, if_pos]
    exact decide_eq_true fun ⟨hl, hlab⟩ => hns (hall k p hp hl hlab)

/-- **`DeleteDeployment` and the passes over the deployment stay in its namespace, exactly if**
every pod that is listed for the namespace with the label is in it, and no pod of another namespace
is at an ordinal that a pass fills.  Pods are stored under their own metadata. -/
theorem other_namespaces_kept_iff :
    ((∀ r s', (deleteDeployment ns name).Runs serve s r s' → OthersKept ns s s') ∧
      ∀ d, StoredAs s ns name d →
        ∀ r s', (reconcileOne d).Runs serve s r s' → OthersKept ns s s') ↔
    (∀ k p, (s .pods).lookup k = some p → Listed ns k →
        p.getMetadata.label OwnerDeploymentLabel = name → p.getMetadata.ns = ns) ∧
      ∀ d, StoredAs s ns name d → ∀ i, Fills d s i →
        ∀ p, (s .pods).lookup (path ns (podName d i)) = some p → p.getMetadata.ns = ns := by
  rw [deletion_kept_iff hk]
  refine and_congr_right fun hall => forall_congr' fun d => forall_congr' fun hd => ?_
  obtain ⟨-, rfl, rfl⟩ := hd
  have hc : Confined d s := fun k p hp hl hown => ⟨hk k p hp, hall k p hp hl hown⟩
  have hiff := spared_iff (F := fun p => p.getMetadata.ns ≠ d.getMetadata.ns)
    (fun p hp hours => hp hours.2) hc
  simp only [not_not] at hiff
  exact hiff

end

/-- A deployment without a namespace. -/
def clusterWeb : Deployment :=
  { metadata := some { name := "web" }
    spec := some { replicas := 1 } }

/-- It is stored beside a pod of the deployment `web` in the namespace `default`. -/
def besideDefault : State :=
  stateOf (Finmap.singleton "web" clusterWeb)
    (Finmap.singleton "default/web-0"
      { metadata := some
          { name := "web-0", ns := "default"
            labels := Finmap.singleton OwnerDeploymentLabel "web" } }) ∅ ∅

theorem other_namespaces_kept_iff_sample :
    (∀ k p, (besidePod "db-0" .pods).lookup k = some p → podPath p = k) ∧
    StoredAs (besidePod "db-0") "a" "web" single ∧
    (∀ r s', (deleteDeployment "a" "web").Runs serve (besidePod "db-0") r s' →
      OthersKept "a" (besidePod "db-0") s') ∧
    ∀ d, StoredAs (besidePod "db-0") "a" "web" d →
      ∀ r s', (reconcileOne d).Runs serve (besidePod "db-0") r s' →
        OthersKept "a" (besidePod "db-0") s' := by
  have hk : ∀ k p, (besidePod "db-0" .pods).lookup k = some p → podPath p = k := by decide
  refine ⟨hk, by decide, (other_namespaces_kept_iff hk).mpr ⟨by decide, ?_⟩⟩
  intro d hd i hi p hp
  obtain rfl : single = d := Option.some.inj hd.1
  cases fills_single (by decide) (by decide) hi
  exact absurd hp (by decide +revert)

/-- The pass takes the pod for its own, and notes that it waits for a node. -/
def trespassingPass : Pass clusterWeb besideDefault :=
  .ofOrders ["default/web-0"] ["default/web-0"] ["default/web-0"] [] (by decide)

/-- **Both leave the namespace.**  `DeleteDeployment` without a namespace deletes a pod of the
namespace `default`, and so a pass over such a deployment changes it. -/
theorem empty_namespace_trespasses :
    (∀ k p, (besideDefault .pods).lookup k = some p → podPath p = k) ∧
    StoredAs besideDefault "" "web" clusterWeb ∧
    (∃ s', (deleteDeployment "" "web").Runs serve besideDefault (.ok (.ok ())) s' ∧
      ¬ OthersKept "" besideDefault s') ∧
    ∃ s', (reconcileOne clusterWeb).Runs serve besideDefault (.ok ()) s' ∧
      ¬ OthersKept "" besideDefault s' := by
  have hlost : ∀ s' : State, (∃ p ∈ (besideDefault .pods).lookup "default/web-0",
      p.getMetadata.ns ≠ "" ∧ (s' .pods).lookup "default/web-0" ≠ some p) →
        ¬ OthersKept "" besideDefault s' :=
    fun s' ⟨p, hp, hns, hne⟩ hkept => hne (hkept _ p hp hns)
  have hdel : (deleteDeployment "" "web").Runs serve besideDefault (.ok (.ok ()))
      (withoutDeployment "" "web" besideDefault ["default/web-0"]) :=
    (returns_deleteDeployment _ _).mpr ⟨_, rfl, _, by decide, rfl, rfl⟩
  have hstored : (besideDefault .deployments).lookup
      (path clusterWeb.getMetadata.ns clusterWeb.getMetadata.name) = some clusterWeb := by decide
  have hrun : (reconcileOne clusterWeb).Runs serve besideDefault (.ok ()) trespassingPass.final :=
    (runs_iff_final (by decide) (by decide) hstored).mpr ⟨trespassingPass, rfl, rfl⟩
  exact ⟨by decide, by decide, ⟨_, hdel, hlost _ (by decide)⟩, _, hrun, hlost _ (by decide)⟩

end

end NimbusCore.Controller
