import NimbusCore.Controller.Pass
import NimbusCore.Support.Edits

/-!
# Controller — the pods through the stages of a pass

What the parts of a pass do to the stored pods, when every pod is stored under its own metadata and
the pods listed for the deployment's namespace are in it (`Sound`).  Then the orders of the listings
no longer matter for what is deleted, and each stage is a function of the map of pods:

* `evict_eq`: an eviction drops the doomed pods of the deployment (`spared`).
* `owns_resized`: after the `switch` the pods of the deployment are those of `Pass.target`: the
  healthy ones and the created ones, or the first of the healthy ones.
* `owned₂_perm`: of these, the ones that are not doomed are left.
* `lookup_state₄`: the scheduling rewrites the pods of the deployment in place.
-/

namespace NimbusCore.Controller

open Api Registry Scheduler List Finmap Option State

/-! ### Pods under their own metadata -/

/-- Every pod is stored under its own metadata, and what is listed for `ns` is in `ns`. -/
structure Sound (ns : String) (pods : Dict String Pod) : Prop where
  keyed : ∀ k p, pods.lookup k = some p → podPath p = k
  confined : ∀ k p, pods.lookup k = some p → Listed ns k → p.getMetadata.ns = ns

variable {k : String} {p : Pod}

namespace Sound

variable {ns : String} {pods : Dict String Pod}

theorem filter (h : Sound ns pods) (f : String → Pod → Bool) : Sound ns (pods.filter f) where
  keyed k p hl := by
    rw [Finmap.lookup_filter, filter_eq_some_iff] at hl
    exact h.keyed k p hl.1
  confined k p hl := by
    rw [Finmap.lookup_filter, filter_eq_some_iff] at hl
    exact h.confined k p hl.1

theorem eraseAll (h : Sound ns pods) (ks : List String) : Sound ns (pods.eraseAll ks) where
  keyed k p hl := by
    rw [Finmap.lookup_eraseAll] at hl
    split at hl
    · cases hl
    · exact h.keyed k p hl
  confined k p hl := by
    rw [Finmap.lookup_eraseAll] at hl
    split at hl
    · cases hl
    · exact h.confined k p hl

theorem insert (h : Sound ns pods) (hp : p.getMetadata.ns = ns) :
    Sound ns (pods.insert (podPath p) p) where
  keyed k q hl := by
    rw [Finmap.lookup_insert_eq] at hl
    split at hl
    · next e => cases hl; exact e.symm
    · exact h.keyed k q hl
  confined k q hl hk := by
    rw [Finmap.lookup_insert_eq] at hl
    split at hl
    · cases hl; exact hp
    · exact h.confined k q hl hk

theorem insertAll :
    ∀ {ps : List Pod} {pods : Dict String Pod}, Sound ns pods →
      (∀ p ∈ ps, p.getMetadata.ns = ns) → Sound ns (pods.insertAll (ps.map podEntry))
  | [], _, h, _ => h
  | p :: ps, pods, h, hps => by
    obtain ⟨hp, hps⟩ := forall_mem_cons.mp hps
    have := insertAll (h.insert hp) hps
    exact this

end Sound

/-! ### Writing pods -/

section

variable {ps : List Pod} {pods : Dict String Pod}

theorem map_fst_podEntry (ps : List Pod) : (ps.map podEntry).map Prod.fst = ps.map podPath := by
  rw [List.map_map]
  rfl

theorem lookup_write (hn : (ps.map podPath).Nodup) (hp : p ∈ ps) :
    (pods.insertAll (ps.map podEntry)).lookup (podPath p) = some p :=
  Finmap.lookup_insertAll_of_mem pods (by rwa [map_fst_podEntry])
    (mem_map.mpr ⟨p, hp, rfl⟩)

theorem lookup_write_of_notMem (h : k ∉ ps.map podPath) :
    (pods.insertAll (ps.map podEntry)).lookup k = pods.lookup k :=
  Finmap.lookup_insertAll_of_notMem pods (by rwa [map_fst_podEntry])

end

/-- `p` is one of the pods of `d`: it is listed for its namespace and carries its label. -/
def Owns (d : Deployment) (pods : Dict String Pod) (p : Pod) : Prop :=
  pods.lookup (podPath p) = some p ∧ Listed d.getMetadata.ns (podPath p) ∧ OwnedBy d p

/-! ### Listings -/

section

variable {s : State} {ns : String} {order : List String}

/-- A listing of pods under their own metadata is in the order of their paths. -/
theorem map_podPath_listed {ns' : String} (hs : Sound ns' (s .pods))
    (ho : Finmap.IsOrder order (s.listing .pods ns)) :
    (s.listed .pods ns order).map podPath = order := by
  have hp : ∀ e ∈ (s.listing .pods ns).range order, podPath e.2 = e.1 := by
    rintro ⟨k, p⟩ he
    rw [ho.mem_range, State.lookup_listing] at he
    split at he
    · exact hs.keyed k p he
    · cases he
  have := map_congr_left hp
  rw [ho.map_fst_range] at this
  rw [State.listed, List.map_map]
  exact this

end

/-! ### Evictions -/

section

variable {d : Deployment} {s : State} {order : List String}

/-- The pods that an eviction leaves. -/
def spared (d : Deployment) (s : State) : Dict String Pod :=
  (s .pods).filter fun k p => ¬ (Listed d.getMetadata.ns k ∧ OwnedBy d p ∧ Doomed s p)

theorem lookup_spared (k : String) :
    (spared d s).lookup k = ((s .pods).lookup k).filter
      fun p => ¬ (Listed d.getMetadata.ns k ∧ OwnedBy d p ∧ Doomed s p) :=
  Finmap.lookup_filter ..

theorem mem_seen (hs : Sound d.getMetadata.ns (s .pods))
    (ho : Finmap.IsOrder order (s.listing .pods d.getMetadata.ns)) :
    p ∈ seen d s order ↔
      (s .pods).lookup (podPath p) = some p ∧ Listed d.getMetadata.ns (podPath p) := by
  rw [seen, mem_listed ho]
  constructor
  · rintro ⟨k, hk, hl⟩
    rw [hs.keyed k p hl]
    exact ⟨hl, hk⟩
  · rintro ⟨hl, hk⟩; exact ⟨_, hk, hl⟩

/-- **An eviction drops the doomed pods of the deployment**, in whatever order they are listed. -/
theorem evict_eq (hs : Sound d.getMetadata.ns (s .pods))
    (ho : Finmap.IsOrder order (s.listing .pods d.getMetadata.ns)) :
    evict d (seen d s order) s = s.set .pods (spared d s) := by
  refine congrArg (s.set .pods) (ext_lookup fun k => ?_)
  have hk : k ∈ ((seen d s order).filter fun p => OwnedBy d p ∧ Doomed s p).map podPath ↔
      ∃ p, (s .pods).lookup k = some p ∧ Listed d.getMetadata.ns k ∧ OwnedBy d p ∧ Doomed s p := by
    simp only [List.mem_map, List.mem_filter, decide_eq_true_eq, mem_seen hs ho]
    constructor
    · rintro ⟨p, ⟨⟨hl, hp⟩, h⟩, rfl⟩; exact ⟨p, hl, hp, h⟩
    · rintro ⟨p, hl, hp, h⟩
      have he := hs.keyed k p hl
      exact ⟨p, ⟨⟨by rwa [he], by rwa [he]⟩, h⟩, he⟩
  rw [Finmap.lookup_eraseAll, lookup_spared]
  simp only [hk]
  cases hl : (s .pods).lookup k with
  | none => simp
  | some p =>
    by_cases h : Listed d.getMetadata.ns k ∧ OwnedBy d p ∧ Doomed s p
    · rw [if_pos ⟨p, rfl, h⟩, filter_some, if_neg (by simpa using h)]
    · rw [if_neg (by simpa using h), filter_some, if_pos (decide_eq_true h)]

theorem mem_healthy (hs : Sound d.getMetadata.ns (s .pods))
    (ho : Finmap.IsOrder order (s.listing .pods d.getMetadata.ns)) :
    p ∈ healthy d (seen d s order) s ↔ Owns d (s .pods) p ∧ ¬ Doomed s p := by
  simp only [healthy, List.mem_filter, decide_eq_true_eq, mem_seen hs ho, Owns, and_assoc]

theorem nodup_healthy (hs : Sound d.getMetadata.ns (s .pods))
    (ho : Finmap.IsOrder order (s.listing .pods d.getMetadata.ns)) :
    ((healthy d (seen d s order) s).map podPath).Nodup := by
  refine List.Nodup.sublist (List.Sublist.map _ filter_sublist) ?_
  rw [seen, map_podPath_listed hs ho]
  exact ho.1

/-- The pods of the deployment that an eviction leaves are not doomed. -/
theorem owns_spared : Owns d (spared d s) p ↔ Owns d (s .pods) p ∧ ¬ Doomed s p := by
  simp only [Owns, lookup_spared, filter_eq_some_iff, decide_eq_true_eq]
  tauto

end

/-! ### Created pods -/

variable {s : State} {q : Pod}

section

variable {d : Deployment} {node : String} {s : State}

theorem podPath_created (i : Nat) :
    podPath (created d node i) = path d.getMetadata.ns (podName d i) := by
  rw [podPath, created_metadata]
  rfl

theorem created_inj {i j : Nat} (h : podPath (created d node i) = podPath (created d node j)) :
    i = j := by
  rw [podPath_created, podPath_created] at h
  exact toString_nat_inj ((String.append_right_inj _).mp (path_right_inj h))

theorem ownedBy_created (i : Nat) : OwnedBy d (created d node i) := by
  rw [OwnedBy, created_metadata]
  simp [newPod, Pod.getMetadata, ObjectMeta.label]

theorem created_nodeName (node : String) (i : Nat) :
    (created d node i).getSpec.nodeName = if node = "" then d.getTemplate.nodeName else node := by
  simp only [created]
  split
  · rfl
  · rfl

/-- A created pod is doomed only by its node. -/
theorem doomed_created (node : String) (i : Nat) :
    Doomed s (created d node i) ↔ (created d node i).getSpec.nodeName ≠ "" ∧
      isReady s (created d node i).getSpec.nodeName = false := by
  have ht : ¬ Terminal (created d node i) := by
    simp only [created, Terminal]
    split <;> simp [newPod, setNodeName, Pod.getStatus]
  rw [Doomed, or_iff_left ht]

theorem freeIndices_notMem {occ : List Int} {j : Nat} :
    ∀ {fuel toCreate i : Nat}, j ∈ freeIndices occ fuel toCreate i →
      (j : Int) ∉ occ ∧ i ≤ j ∧ j < i + fuel
  | _, 0, _, h | 0, _ + 1, _, h => by simp [freeIndices] at h
  | fuel + 1, toCreate + 1, i, h => by
    rw [freeIndices] at h
    split at h
    · obtain ⟨h₁, h₂, h₃⟩ := freeIndices_notMem h
      exact ⟨h₁, by omega, by omega⟩
    · next hi =>
      rcases mem_cons.mp h with rfl | h
      · exact ⟨hi, le_refl _, by omega⟩
      · obtain ⟨h₁, h₂, h₃⟩ := freeIndices_notMem h
        exact ⟨h₁, by omega, by omega⟩

theorem sorted_freeIndices (occ : List Int) :
    ∀ fuel toCreate i : Nat, (freeIndices occ fuel toCreate i).Pairwise (· < ·)
  | _, 0, _ | 0, _ + 1, _ => by simp [freeIndices]
  | fuel + 1, toCreate + 1, i => by
    rw [freeIndices]
    split
    · exact sorted_freeIndices occ fuel (toCreate + 1) (i + 1)
    · refine pairwise_cons.mpr ⟨fun j hj => ?_, sorted_freeIndices occ fuel toCreate (i + 1)⟩
      exact (freeIndices_notMem hj).2.1

theorem nodup_freeIndices (occ : List Int) (fuel toCreate i : Nat) :
    (freeIndices occ fuel toCreate i).Nodup :=
  (sorted_freeIndices ..).imp Nat.ne_of_lt

/-- With enough rounds there is an index for every pod. -/
theorem length_freeIndices (occ : List Int) :
    ∀ fuel toCreate i : Nat, toCreate + ahead occ i ≤ fuel →
      (freeIndices occ fuel toCreate i).length = toCreate
  | _, 0, _, _ => by simp [freeIndices]
  | 0, _ + 1, _, h => by omega
  | fuel + 1, toCreate + 1, i, h => by
    rw [freeIndices]
    split
    · next hi =>
      have := ahead_succ_lt hi
      exact length_freeIndices occ fuel (toCreate + 1) (i + 1) (by omega)
    · have := ahead_succ_le occ i
      rw [length_cons, length_freeIndices occ fuel toCreate (i + 1) (by omega)]

/-- The created pods are in the namespace, carry the label, and have paths of their own. -/
theorem mem_creations {d : Deployment} {owned : List Pod} (h : p ∈ creations d owned s) :
    ∃ i node, p = created d node i ∧ (i : Int) ∉ occupied d owned ∧
      i < (wanted d - owned.length).toNat + owned.length := by
  obtain ⟨i, hi, rfl⟩ := mem_map.mp h
  obtain ⟨hocc, -, hlt⟩ := freeIndices_notMem hi
  exact ⟨i, _, rfl, hocc, by omega⟩

theorem nodup_creations (d : Deployment) (owned : List Pod) (s : State) :
    ((creations d owned s).map podPath).Nodup := by
  rw [creations, List.map_map]
  refine List.Nodup.map ?_ (nodup_freeIndices ..)
  intro i j h
  exact created_inj h

theorem length_creations (d : Deployment) (owned : List Pod) (s : State) :
    (creations d owned s).length = (wanted d - owned.length).toNat := by
  rw [creations, length_map, length_freeIndices]
  have := ahead_occupied_le d owned
  omega

/-- **No created pod takes the path of a healthy one**: its index is occupied. -/
theorem creations_disjoint {d : Deployment} {owned : List Pod}
    (hns : ∀ p ∈ owned, p.getMetadata.ns = d.getMetadata.ns) (hlt : (owned.length : Int) < wanted d)
    (hp : p ∈ owned) (hq : q ∈ creations d owned s) : podPath p ≠ podPath q := by
  obtain ⟨i, node, rfl, hocc, hi⟩ := mem_creations hq
  intro he
  rw [podPath_created, podPath, hns p hp] at he
  have hname : p.getMetadata.name = podName d i := path_right_inj he
  refine hocc (mem_filterMap.mpr ⟨p, hp, ?_⟩)
  have := wanted_lt d
  rw [hname, podName]
  exact atoi_trimPrefix _ (by omega)

end

/-! ### Scheduled pods -/

section

variable {candidates : List NodeCandidate} {p : Pod}

theorem placed_phase : (placed candidates p).getStatus.phase = p.getStatus.phase := by
  simp only [placed]
  split
  · rfl
  · split
    · rfl
    · simp only [assign]
      split <;> rfl

/-- Scheduling changes the spec at the node name only. -/
theorem placed_spec :
    { (placed candidates p).getSpec with nodeName := "" } = { p.getSpec with nodeName := "" } := by
  simp only [placed]
  split
  · rfl
  · split
    · rfl
    · simp only [assign]
      split <;> rfl

/-- A pod gets no other node name than that of a candidate. -/
theorem placed_nodeName (h : (placed candidates p).getSpec.nodeName ≠ p.getSpec.nodeName) :
    ∃ n ∈ candidates, n.name = (placed candidates p).getSpec.nodeName ∧
      Eligible (requestOf p) n := by
  simp only [placed] at h ⊢
  split at h
  · exact absurd rfl h
  · next hp =>
    rw [if_neg hp]
    split at h
    · exact absurd rfl h
    · next nodeName hs =>
      obtain ⟨n, hn, hname, he⟩ := schedule_ok hs
      refine ⟨n, hn, ?_, he⟩
      simp only [assign]
      split <;> exact hname

/-- The candidates are the stored nodes that are ready and can be scheduled on. -/
theorem mem_candidatesAt {podOrder nodeOrder : List String}
    (ho : Finmap.IsOrder nodeOrder (s.listing .nodes "")) {n : NodeCandidate} :
    n ∈ candidatesAt s podOrder nodeOrder ↔
      ∃ k node, (s .nodes).lookup k = some node ∧ Schedulable node ∧
        n = candidateOf (nodeUsageOf (s.listed .pods "" podOrder)) node := by
  have hk : ∀ k node, (k, node) ∈ (s.listing .nodes "").range nodeOrder ↔
      (s .nodes).lookup k = some node := by
    intro k node
    rw [ho.mem_range, State.lookup_listing, if_pos (.inl rfl)]
  constructor
  · intro h
    obtain ⟨node, hn, rfl⟩ := mem_map.mp h
    obtain ⟨hm, hsch⟩ := mem_filter.mp hn
    obtain ⟨⟨k, node⟩, hr, rfl⟩ := mem_map.mp hm
    exact ⟨k, node, (hk k node).mp hr, of_decide_eq_true hsch, rfl⟩
  · rintro ⟨k, node, hl, hsch, rfl⟩
    refine mem_map.mpr ⟨node, mem_filter.mpr ⟨?_, decide_eq_true hsch⟩, rfl⟩
    exact mem_map.mpr ⟨(k, node), (hk k node).mpr hl, rfl⟩

end

/-! ### A pass as edits of the pods -/

/-- Pods written, each at its path. -/
def writes (ps : List Pod) : List (String × Option Pod) := ps.map fun p => (podPath p, some p)

/-- Keys erased. -/
def erasures (ks : List String) : List (String × Option Pod) := ks.map fun k => (k, none)

theorem insertAll_podEntry (pods : Dict String Pod) (ps : List Pod) :
    pods.insertAll (ps.map podEntry) = pods.edits (writes ps) := by
  rw [Finmap.insertAll_eq_edits, List.map_map]
  rfl

/-- The keys an eviction erases. -/
def gone (d : Deployment) (all : List Pod) (s : State) : List String :=
  (all.filter fun p => OwnedBy d p ∧ Doomed s p).map podPath

/-- The edits of the `switch`. -/
def resizing (d : Deployment) (owned : List Pod) (s : State) : List (String × Option Pod) :=
  if (owned.length : Int) < wanted d then writes (creations d owned s)
  else erasures ((owned.drop (wanted d).toNat).map podPath)

theorem evict_pods (d : Deployment) (all : List Pod) (s : State) :
    evict d all s .pods = (s .pods).edits (erasures (gone d all s)) := by
  rw [evict, set_self, Finmap.eraseAll_eq_edits]
  rfl

theorem scaled_pods (d : Deployment) (owned : List Pod) (s : State) :
    scaled d owned s .pods = (s .pods).edits (resizing d owned s) := by
  simp only [scaled, resizing]
  split
  · rw [set_self, insertAll_podEntry]
  · rw [set_self, Finmap.eraseAll_eq_edits]
    rfl

/-! ### The stages of a pass -/

namespace Pass

variable {d : Deployment} {s : State} (π : Pass d s)

/-- The state after the first eviction. -/
def state₁ : State := evict d (seen d s π.first) s

/-- The pods of the deployment after the `switch`. -/
def target : List Pod :=
  if (π.owned₁.length : Int) < wanted d then π.owned₁ ++ creations d π.owned₁ π.state₁
  else π.owned₁.take (wanted d).toNat

theorem frame₁ {k : Kind} (hk : k ≠ .pods) : π.state₁ k = s k := evict_frame hk _

theorem state₂_eq : π.state₂ = scaled d π.owned₁ π.state₁ := rfl

/-- The candidates of the pass are stored nodes. -/
theorem mem_candidates {n : NodeCandidate} :
    n ∈ π.candidates ↔ ∃ k node, (s .nodes).lookup k = some node ∧ Schedulable node ∧
      n = candidateOf (nodeUsageOf (π.state₃.listed .pods "" π.podOrder)) node := by
  rw [← π.nodes₃]
  exact mem_candidatesAt π.nodeOrder_isOrder

/-- The edits up to the second eviction. -/
def edits₂ : List (String × Option Pod) :=
  erasures (gone d (seen d s π.first) s) ++ resizing d π.owned₁ π.state₁

/-- **The edits before the scheduling.** -/
def edits₃ : List (String × Option Pod) :=
  π.edits₂ ++ erasures (gone d (seen d π.state₂ π.second) π.state₂)

theorem pods₂ : π.state₂ .pods = (s .pods).edits π.edits₂ := by
  rw [state₂_eq, scaled_pods, state₁, evict_pods, edits₂, Finmap.edits_append]
  rfl

theorem pods₃ : π.state₃ .pods = (s .pods).edits π.edits₃ := by
  rw [edits₃, Finmap.edits_append, ← π.pods₂, ← evict_pods]
  rfl

/-- What is written before the scheduling has been created. -/
theorem mem_edits₃ {e : String × Option Pod} (he : e ∈ π.edits₃) (hp : p ∈ e.2) :
    p ∈ creations d π.owned₁ π.state₁ ∧ e.1 = podPath p := by
  have hnot : ∀ {ks : List String}, e ∉ erasures ks := by
    intro ks hm
    obtain ⟨k, -, rfl⟩ := mem_map.mp hm
    cases hp
  rcases mem_append.mp he with he | he
  · rcases mem_append.mp he with he | he
    · exact absurd he hnot
    · simp only [resizing] at he
      split at he
      · obtain ⟨c, hc, rfl⟩ := mem_map.mp he
        cases hp
        exact ⟨hc, rfl⟩
      · exact absurd he hnot
  · exact absurd he hnot

/-- What holds of the stored pods and of those that are created holds of the pods that the
scheduling begins with. -/
theorem forall_state₃ {P : Pod → Prop} (hs : ∀ k p, (s .pods).lookup k = some p → P p)
    (hc : ∀ node i, P (created d node i)) (k : String) (p : Pod)
    (hl : (π.state₃ .pods).lookup k = some p) : P p := by
  rw [pods₃] at hl
  refine Finmap.forall_edits hs (fun e he q hq => ?_) k p hl
  obtain ⟨i, -, rfl⟩ := mem_map.mp (π.mem_edits₃ he hq).1
  exact hc _ i

section

variable (hs : Sound d.getMetadata.ns (s .pods))

include hs

theorem state₁_eq : π.state₁ = s.set .pods (spared d s) := evict_eq hs π.first_isOrder

theorem sound₁ : Sound d.getMetadata.ns (π.state₁ .pods) := by
  rw [π.state₁_eq hs, set_self]
  exact hs.filter _

theorem mem_owned₁ : p ∈ π.owned₁ ↔ Owns d (π.state₁ .pods) p := by
  rw [π.state₁_eq hs, set_self, owns_spared]
  exact mem_healthy hs π.first_isOrder

theorem nodup_owned₁ : (π.owned₁.map podPath).Nodup := nodup_healthy hs π.first_isOrder

theorem owned₁_ns (hp : p ∈ π.owned₁) : p.getMetadata.ns = d.getMetadata.ns := by
  obtain ⟨hl, hk, -⟩ := (π.mem_owned₁ hs).mp hp
  exact (π.sound₁ hs).confined _ p hl hk

theorem nodup_target : (π.target.map podPath).Nodup := by
  simp only [target]
  split
  · next hlt =>
    rw [map_append]
    refine (π.nodup_owned₁ hs).append (nodup_creations d _ _) fun k h₁ h₂ => ?_
    obtain ⟨p, hp, rfl⟩ := mem_map.mp h₁
    obtain ⟨q, hq, he⟩ := mem_map.mp h₂
    exact creations_disjoint (fun _ => π.owned₁_ns hs) hlt hp hq he.symm
  · exact (π.nodup_owned₁ hs).sublist ((take_sublist _ _).map _)

theorem sound₂ : Sound d.getMetadata.ns (π.state₂ .pods) := by
  rw [state₂_eq, scaled]
  split
  · rw [set_self]
    refine (π.sound₁ hs).insertAll fun p hp => ?_
    obtain ⟨i, node, rfl, -⟩ := mem_creations hp
    rw [created_metadata]
    rfl
  · rw [set_self]
    exact (π.sound₁ hs).eraseAll _

/-- **After the `switch`** the pods of the deployment are the target. -/
theorem owns_resized (hns : d.getMetadata.ns ≠ "") : Owns d (π.state₂ .pods) p ↔ p ∈ π.target := by
  rw [state₂_eq, scaled, target]
  split
  · next hlt =>
    rw [set_self, mem_append]
    have hn := nodup_creations d π.owned₁ π.state₁
    constructor
    · rintro ⟨hl, hk, ho⟩
      by_cases hm : podPath p ∈ (creations d π.owned₁ π.state₁).map podPath
      · obtain ⟨q, hq, he⟩ := mem_map.mp hm
        rw [← he, lookup_write hn hq] at hl
        cases hl; exact .inr hq
      · rw [lookup_write_of_notMem hm] at hl
        exact .inl ((π.mem_owned₁ hs).mpr ⟨hl, hk, ho⟩)
    · rintro (hp | hp)
      · obtain ⟨hl, hko⟩ := (π.mem_owned₁ hs).mp hp
        refine ⟨?_, hko⟩
        rw [lookup_write_of_notMem]
        · exact hl
        · intro hm
          obtain ⟨q, hq, he⟩ := mem_map.mp hm
          exact creations_disjoint (fun _ => π.owned₁_ns hs) hlt hp hq he.symm
      · refine ⟨lookup_write hn hp, ?_⟩
        obtain ⟨i, node, rfl, -⟩ := mem_creations hp
        rw [podPath_created]
        exact ⟨listed_path hns _, ownedBy_created i⟩
  · rw [set_self]
    have hn := π.nodup_owned₁ hs
    rw [← take_append_drop (wanted d).toNat π.owned₁, map_append] at hn
    have hdisj := disjoint_of_nodup_append hn
    constructor
    · rintro ⟨hl, hk, ho⟩
      rw [Finmap.lookup_eraseAll] at hl
      split at hl
      · cases hl
      · next hd =>
        have hp := (π.mem_owned₁ hs).mpr ⟨hl, hk, ho⟩
        rw [← take_append_drop (wanted d).toNat π.owned₁, mem_append] at hp
        exact hp.resolve_right fun h => hd (mem_map.mpr ⟨p, h, rfl⟩)
    · intro hp
      obtain ⟨hl, hko⟩ := (π.mem_owned₁ hs).mp (mem_of_mem_take hp)
      refine ⟨?_, hko⟩
      rw [Finmap.lookup_eraseAll, if_neg fun h => hdisj (mem_map.mpr ⟨p, hp, rfl⟩) h]
      exact hl

theorem state₃_eq : π.state₃ = π.state₂.set .pods (spared d π.state₂) :=
  evict_eq (π.sound₂ hs) π.second_isOrder

theorem sound₃ : Sound d.getMetadata.ns (π.state₃ .pods) := by
  rw [π.state₃_eq hs, set_self]
  exact (π.sound₂ hs).filter _

/-- The pods that are scheduled are the pods of the deployment, and none of them is doomed. -/
theorem mem_owned₂ : p ∈ π.owned₂ ↔ Owns d (π.state₃ .pods) p := by
  rw [π.state₃_eq hs, set_self, owns_spared]
  exact mem_healthy (π.sound₂ hs) π.second_isOrder

theorem nodup_owned₂ : (π.owned₂.map podPath).Nodup :=
  nodup_healthy (π.sound₂ hs) π.second_isOrder

/-- **Of the target, what is not doomed is left.** -/
theorem owned₂_perm (hns : d.getMetadata.ns ≠ "") :
    π.owned₂.Perm (π.target.filter fun p => ¬ Doomed s p) := by
  rw [perm_ext_iff_of_nodup (List.Nodup.of_map _ (π.nodup_owned₂ hs))
    ((List.Nodup.of_map _ (π.nodup_target hs)).filter _)]
  intro p
  have hd := doomed_congr π.nodes₂ p
  rw [List.mem_filter, ← π.owns_resized hs hns, decide_eq_true_eq, ← hd]
  exact mem_healthy (π.sound₂ hs) π.second_isOrder

/-- **The scheduling rewrites the pods of the deployment in place.** -/
theorem lookup_state₄ (k : String) :
    (π.state₄ .pods).lookup k = ((π.state₃ .pods).lookup k).map fun p =>
      if Listed d.getMetadata.ns k ∧ OwnedBy d p then placed π.candidates p else p := by
  have hpaths : (rewrites π.candidates π.owned₂).map podPath =
      (π.owned₂.filter fun p => Rewritten π.candidates p).map podPath := by
    rw [rewrites, List.map_map]
    exact map_congr_left fun p _ => podPath_placed _ p
  have hn : ((rewrites π.candidates π.owned₂).map podPath).Nodup := by
    rw [hpaths]
    exact (π.nodup_owned₂ hs).sublist (filter_sublist.map _)
  rw [state₄, set_self]
  by_cases hk : k ∈ (rewrites π.candidates π.owned₂).map podPath
  · rw [hpaths] at hk
    obtain ⟨p, hp, rfl⟩ := mem_map.mp hk
    have hr : placed π.candidates p ∈ rewrites π.candidates π.owned₂ :=
      mem_map.mpr ⟨p, hp, rfl⟩
    obtain ⟨hl, hko⟩ := (π.mem_owned₂ hs).mp (mem_filter.mp hp).1
    rw [hl, ← podPath_placed π.candidates p, lookup_write hn hr, podPath_placed, map_some,
      if_pos hko]
  · rw [lookup_write_of_notMem hk]
    cases hl : (π.state₃ .pods).lookup k with
    | none => rfl
    | some p =>
      have he := (π.sound₃ hs).keyed k p hl
      subst he
      rw [map_some]
      split
      · next hko =>
        -- a pod of the deployment that is not written is as it would be written
        rw [hpaths] at hk
        have hp := (π.mem_owned₂ hs).mpr ⟨hl, hko⟩
        rw [placed_of_not_rewritten]
        intro hr
        exact hk (mem_map.mpr ⟨p, mem_filter.mpr ⟨hp, decide_eq_true hr⟩, rfl⟩)
      · rfl

/-- Whatever is stored at the end of the scheduling was stored before it, with the same
metadata. -/
theorem of_lookup_state₄ (hl : (π.state₄ .pods).lookup k = some q) :
    ∃ p, (π.state₃ .pods).lookup k = some p ∧ q.getMetadata = p.getMetadata ∧
      q = if Listed d.getMetadata.ns k ∧ OwnedBy d p then placed π.candidates p else p := by
  rw [π.lookup_state₄ hs, map_eq_some_iff] at hl
  obtain ⟨p, hp, rfl⟩ := hl
  refine ⟨p, hp, ?_, rfl⟩
  split
  · exact placed_metadata _ p
  · rfl

theorem sound₄ : Sound d.getMetadata.ns (π.state₄ .pods) where
  keyed k q hl := by
    obtain ⟨p, hp, hm, -⟩ := π.of_lookup_state₄ hs hl
    rw [podPath, hm]
    exact (π.sound₃ hs).keyed k p hp
  confined k q hl hk := by
    obtain ⟨p, hp, hm, -⟩ := π.of_lookup_state₄ hs hl
    rw [hm]
    exact (π.sound₃ hs).confined k p hp hk

/-- **At the end of the scheduling** the pods of the deployment are those the pass goes on with. -/
theorem mem_owned : q ∈ π.owned ↔ Owns d (π.state₄ .pods) q := by
  constructor
  · intro hq
    obtain ⟨p, hp, rfl⟩ := mem_map.mp hq
    obtain ⟨hl, hko⟩ := (π.mem_owned₂ hs).mp hp
    rw [Owns, OwnedBy, podPath_placed, placed_metadata, π.lookup_state₄ hs, hl, map_some,
      if_pos hko]
    exact ⟨rfl, hko⟩
  · rintro ⟨hl, hk, ho⟩
    obtain ⟨p, hp, hm, hq⟩ := π.of_lookup_state₄ hs hl
    have hop : OwnedBy d p := by rwa [OwnedBy, ← hm]
    rw [if_pos ⟨hk, hop⟩] at hq
    have he := (π.sound₃ hs).keyed _ p hp
    exact mem_map.mpr ⟨p, (π.mem_owned₂ hs).mpr ⟨by rwa [he], by rwa [he], hop⟩, hq.symm⟩

/-- **No pod of the deployment is doomed at the end.** -/
theorem owned_not_doomed (hn : NodesNamed s) (hq : q ∈ π.owned) : ¬ Doomed s q := by
  obtain ⟨p, hp, rfl⟩ := mem_map.mp hq
  have hd : ¬ Doomed s p := by
    have := ((mem_healthy (π.sound₂ hs) π.second_isOrder).mp hp).2
    rwa [doomed_congr π.nodes₂] at this
  rintro (⟨hne, hready⟩ | hterm)
  · by_cases he : (placed π.candidates p).getSpec.nodeName = p.getSpec.nodeName
    · rw [he] at hne hready
      exact hd (.inl ⟨hne, hready⟩)
    · -- a new node name is that of a candidate, which is stored under it
      obtain ⟨n, hc, hname, -⟩ := placed_nodeName he
      obtain ⟨k, node, hl, hsch, rfl⟩ := π.mem_candidates.mp hc
      have hk : node.getMetadata.name = (placed π.candidates p).getSpec.nodeName := hname
      rw [hn k node hl] at hk
      rw [← hk, isReady_of_lookup hl, hsch.1] at hready
      cases hready
  · rw [Terminal, placed_phase] at hterm
    exact hd (.inr hterm)

theorem nodup_owned : (π.owned.map podPath).Nodup := by
  have he : π.owned.map podPath = π.owned₂.map podPath := by
    rw [owned, List.map_map]
    exact map_congr_left fun p _ => podPath_placed _ p
  rw [he]
  exact π.nodup_owned₂ hs

end

end Pass

end NimbusCore.Controller
