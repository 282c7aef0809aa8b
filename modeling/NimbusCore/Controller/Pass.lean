import NimbusCore.Controller.Deployment

/-!
# Controller — what a pass does

Each part of `reconcileOne`, run by a store that does not fail: what it returns and what it writes,
as functions of the state it starts from.  The only freedom left is the order of the listings, so a
whole pass is determined by four orders (`Pass`).

* `returns_ownedPods`: the owned pods that are healthy; the others are deleted (`Doomed`).
* `yields_scale`: the pods created at the first free indices, or deleted from the end.
* `returns_scheduleUnassigned`: every pod without a node is scheduled against the same candidates.
* `yields_claimVolumes`: the volumes claimed.
* `runs_reconcileOne`: a pass is its four orders and the writing of the status;
  `runs_reconcileOne_negative` when a negative number of replicas is wanted.
-/

namespace NimbusCore.Controller

open Api Registry Scheduler Prog List State

/-- The path a pod is written at: the one of its own metadata. -/
def podPath (p : Pod) : String := path p.getMetadata.ns p.getMetadata.name

/-- A pod with the path it is written at. -/
def podEntry (p : Pod) : String × Pod := (podPath p, p)

/-! ### Owned pods -/

/-- What `nodeReady` answers. -/
def isReady (s : State) (name : String) : Bool :=
  match s.find .nodes "" name with
  | .ok node => node.getStatus.ready
  | .error _ => false

/-- A pod that `ownedPods` deletes: its node is gone or not ready, or it has come to an end. -/
def Doomed (s : State) (p : Pod) : Prop :=
  (p.getSpec.nodeName ≠ "" ∧ isReady s p.getSpec.nodeName = false) ∨ Terminal p

instance (s : State) (p : Pod) : Decidable (Doomed s p) := inferInstanceAs (Decidable (_ ∨ _))

/-- The pods `ownedPods` returns, of the pods it lists. -/
def healthy (d : Deployment) (all : List Pod) (s : State) : List Pod :=
  all.filter fun p => OwnedBy d p ∧ ¬ Doomed s p

/-- The state `ownedPods` leaves. -/
def evict (d : Deployment) (all : List Pod) (s : State) : State :=
  s.set .pods ((s .pods).eraseAll ((all.filter fun p => OwnedBy d p ∧ Doomed s p).map podPath))

variable {k : Kind}

section

variable {s s' : State} {d : Deployment}

theorem isReady_of_lookup {name : String} {node : Node} (h : (s .nodes).lookup name = some node) :
    isReady s name = node.getStatus.ready := by
  simp [isReady, State.find, h]

theorem doomed_congr (h : s' .nodes = s .nodes) (p : Pod) : Doomed s' p ↔ Doomed s p := by
  simp [Doomed, isReady, State.find, h]

theorem evict_frame (hk : k ≠ .pods) (all : List Pod) : evict d all s k = s k :=
  set_of_ne _ hk _

theorem yields_nodeReady (name : String) : (nodeReady name).Yields serve s (isReady s name) s := by
  refine Yields.bind yields_get ?_
  rcases s.find_cases .nodes "" name with ⟨node, -, hf⟩ | ⟨-, hf⟩
  · simp only [isReady, hf]; exact yields_pure
  · simp only [isReady, hf]; exact yields_pure

theorem yields_onDeadNode (p : Pod) :
    (onDeadNode p).Yields serve s
      (decide (p.getSpec.nodeName ≠ "" ∧ isReady s p.getSpec.nodeName = false)) s := by
  simp only [onDeadNode]
  split
  · next h => simpa [h] using yields_pure
  · next h =>
    refine Yields.bind (yields_nodeReady _) ?_
    simpa [h] using yields_pure

theorem yields_deletePod (p : Pod) (text : String) :
    (deletePod p text).Yields serve s () (s.set .pods ((s .pods).erase (podPath p))) :=
  Yields.bind yields_delete yields_orReturn_ok

theorem healthy_cons (p : Pod) (all : List Pod) :
    healthy d (p :: all) s =
      if OwnedBy d p ∧ ¬ Doomed s p then p :: healthy d all s else healthy d all s := by
  simp [healthy, filter_cons]

theorem evict_cons (p : Pod) (all : List Pod) :
    evict d (p :: all) s =
      if OwnedBy d p ∧ Doomed s p then evict d all (s.set .pods ((s .pods).erase (podPath p)))
      else evict d all s := by
  have hd : ∀ q, Doomed (s.set .pods ((s .pods).erase (podPath p))) q ↔ Doomed s q :=
    doomed_congr (by simp)
  split
  · next h => simp [evict, hd, h]
  · next h => simp [evict, h]

/-- **The owned pods**, in the order of the listing, and the evictions. -/
theorem yields_ownedLoop :
    ∀ (all : List Pod) (s : State),
      (ownedLoop d all).Yields serve s (healthy d all s) (evict d all s)
  | [], s => by
    simpa [healthy, evict, ownedLoop] using yields_pure
  | p :: all, s => by
    have hd : ∀ q, Doomed (s.set .pods ((s .pods).erase (podPath p))) q ↔ Doomed s q :=
      doomed_congr (by simp)
    have hdel := yields_ownedLoop all (s.set .pods ((s .pods).erase (podPath p)))
    have hh : healthy d all (s.set .pods ((s .pods).erase (podPath p))) = healthy d all s := by
      simp only [healthy, hd]
    rw [hh] at hdel
    rw [healthy_cons, evict_cons]
    simp only [ownedLoop]
    split
    · next ho => simpa [ho] using yields_ownedLoop all s
    · next ho =>
      rw [not_not] at ho
      refine Yields.bind (yields_onDeadNode p) ?_
      by_cases hdead : p.getSpec.nodeName ≠ "" ∧ isReady s p.getSpec.nodeName = false
      · have : Doomed s p := .inl hdead
        simpa [ho, this, hdead] using Yields.bind (yields_deletePod p "") hdel
      · by_cases ht : Terminal p
        · have : Doomed s p := .inr ht
          simpa [ho, this, hdead, ht] using Yields.bind (yields_deletePod p "") hdel
        · have : ¬ Doomed s p := fun h => h.elim hdead ht
          simpa [ho, this, hdead, ht] using
            Yields.bind (yields_ownedLoop all s)
              (yields_pure (a := p :: healthy d all s))

/-- The listing `ownedPods` takes. -/
def seen (d : Deployment) (s : State) (order : List String) : List Pod :=
  s.listed .pods d.getMetadata.ns order

/-- `ownedPods` evicts, and returns the healthy pods that are owned. -/
theorem returns_ownedPods :
    (ownedPods d).Returns serve s fun owned s' =>
      ∃ order, Finmap.IsOrder order (s.listing .pods d.getMetadata.ns) ∧
        owned = healthy d (seen d s order) s ∧ s' = evict d (seen d s order) s :=
  returns_list_bind fun _ => yields_ownedLoop _ _

end

/-! ### Scaling -/

variable {d : Deployment}

theorem wanted_nonneg_iff : 0 ≤ wanted d ↔ 0 ≤ d.getSpec.replicas.toInt := by
  simp only [wanted]
  split <;> omega

theorem wanted_lt (d : Deployment) : wanted d < 2 ^ 31 := by
  have := Int32.toInt_lt d.getSpec.replicas
  simp only [wanted]
  split <;> omega

/-- What `resolveVolumeNode` answers. -/
def claimedNode (s : State) (ns : String) : List VolumeMount → String
  | [] => ""
  | m :: mounts =>
    match s.find .volumes ns m.volumeName with
    | .ok vol =>
      if vol.getStatus.nodeName ≠ "" then vol.getStatus.nodeName else claimedNode s ns mounts
    | .error _ => claimedNode s ns mounts

/-- The indices at which `createLoop` creates. -/
def freeIndices (occ : List Int) : (fuel toCreate i : Nat) → List Nat
  | _, 0, _ => []
  | 0, _ + 1, _ => []
  | fuel + 1, toCreate + 1, i =>
    if (i : Int) ∈ occ then freeIndices occ fuel (toCreate + 1) (i + 1)
    else i :: freeIndices occ fuel toCreate (i + 1)

/-- The pod created at an index. -/
def created (d : Deployment) (claimedNode : String) (i : Nat) : Pod :=
  if claimedNode = "" then newPod d i else setNodeName claimedNode (newPod d i)

/-- A created pod asks for what the template asks for. -/
theorem created_containers (d : Deployment) (claimedNode : String) (i : Nat) :
    (created d claimedNode i).getSpec.containers = d.getTemplate.containers := by
  rw [created]
  split <;> rfl

/-- The pods `scaleUp` writes. -/
def creations (d : Deployment) (owned : List Pod) (s : State) : List Pod :=
  let toCreate := (wanted d - owned.length).toNat
  (freeIndices (occupied d owned) (toCreate + owned.length) toCreate 0).map
    (created d (claimedNode s d.getMetadata.ns d.getTemplate.volumes))

/-- The state after the `switch`. -/
def scaled (d : Deployment) (owned : List Pod) (s : State) : State :=
  if (owned.length : Int) < wanted d then
    s.set .pods ((s .pods).insertAll ((creations d owned s).map podEntry))
  else s.set .pods ((s .pods).eraseAll ((owned.drop (wanted d).toNat).map podPath))

/-- The occupied indices from `i` on. -/
def ahead (occ : List Int) (i : Nat) : Nat := occ.countP fun x => (i : Int) ≤ x

theorem ahead_succ_le (occ : List Int) (i : Nat) : ahead occ (i + 1) ≤ ahead occ i := by
  refine countP_mono_left fun y _ hy => ?_
  simp only [decide_eq_true_eq] at hy ⊢
  omega

theorem ahead_succ_lt {occ : List Int} {i : Nat} (h : (i : Int) ∈ occ) :
    ahead occ (i + 1) < ahead occ i := by
  induction occ with
  | nil => cases h
  | cons x occ ih =>
    have hle := ahead_succ_le occ i
    simp only [ahead, countP_cons, Int.natCast_add, Int.cast_ofNat_Int,
      decide_eq_true_eq] at ih hle ⊢
    rcases mem_cons.mp h with rfl | h
    · rw [if_pos (le_refl _), if_neg (by omega)]
      omega
    · have hlt := ih h
      split <;> split <;> omega

/-- The rounds `scaleUp` allows are enough. -/
theorem ahead_occupied_le (d : Deployment) (owned : List Pod) :
    ahead (occupied d owned) 0 ≤ owned.length :=
  countP_le_length.trans (length_filterMap_le ..)

variable {s' : State}

section

variable {s : State} {d : Deployment}

theorem scaled_frame (hk : k ≠ .pods) (owned : List Pod) : scaled d owned s k = s k := by
  simp only [scaled]
  split <;> exact set_of_ne _ hk _

theorem claimedNode_congr (h : s' .volumes = s .volumes) (ns : String) :
    ∀ mounts, claimedNode s' ns mounts = claimedNode s ns mounts
  | [] => rfl
  | m :: mounts => by
    simp only [claimedNode, State.find, h, claimedNode_congr h ns mounts]

theorem yields_resolveVolumeNode (ns : String) :
    ∀ mounts : List VolumeMount,
      (resolveVolumeNode ns mounts).Yields serve s (claimedNode s ns mounts) s
  | [] => yields_pure
  | m :: mounts => by
    have ih := yields_resolveVolumeNode ns mounts
    refine Yields.bind yields_get ?_
    rcases s.find_cases .volumes ns m.volumeName with ⟨vol, -, hf⟩ | ⟨-, hf⟩
    · simp only [claimedNode, hf]
      split
      · exact yields_pure
      · exact ih
    · simpa only [claimedNode, hf] using ih

/-- A pod is pinned only if it has a spec. -/
theorem yields_pin {node : String} {i : Nat} (h : node = "" ∨ d.getSpec.template ≠ none) :
    (pin node (newPod d i)).Yields serve s (created d node i) s := by
  simp only [pin, created]
  split
  · exact yields_pure
  · next hne =>
    obtain ⟨spec, hspec⟩ := Option.ne_none_iff_exists'.mp (h.resolve_left hne)
    have hp : (newPod d i).spec = some spec := hspec
    simp only [hp, setNodeName, Pod.getSpec, Option.getD_some]
    exact yields_pure

/-- The spec of a created pod is the template's, with the claimed node. -/
theorem created_metadata (node : String) (i : Nat) :
    (created d node i).getMetadata = (newPod d i).getMetadata := by
  simp only [created]
  split <;> rfl

/-- **The loop that fills the gaps ends**, with a pod at each free index: every round passes an
occupied index or creates a pod. -/
theorem yields_createLoop {node : String} (occ : List Int)
    (h : node = "" ∨ d.getSpec.template ≠ none) :
    ∀ (fuel toCreate i : Nat) (s : State), toCreate + ahead occ i ≤ fuel →
      (createLoop d node occ fuel toCreate i).Yields serve s ()
        (s.set .pods ((s .pods).insertAll
          (((freeIndices occ fuel toCreate i).map (created d node)).map podEntry)))
  | fuel, 0, i, s, _ => by
    simp only [createLoop, freeIndices]
    simpa using yields_pure
  | 0, toCreate + 1, i, s, hf => by omega
  | fuel + 1, toCreate + 1, i, s, hf => by
    simp only [createLoop, freeIndices]
    split
    · next hi =>
      have := ahead_succ_lt hi
      exact yields_createLoop occ h fuel (toCreate + 1) (i + 1) s (by omega)
    · have := ahead_succ_le occ i
      have ih := yields_createLoop occ h fuel toCreate (i + 1)
        (s.set .pods ((s .pods).insert (podPath (created d node i)) (created d node i)))
        (by omega)
      simp only [State.set_self, State.set_set] at ih
      refine Yields.bind (yields_pin h) (Yields.bind yields_put ?_)
      exact Yields.bind yields_orReturn_ok ih

/-- A claimed node comes from a mount, and the mounts from a template. -/
theorem claimedNode_template (s : State) (d : Deployment) :
    claimedNode s d.getMetadata.ns d.getTemplate.volumes = "" ∨ d.getSpec.template ≠ none := by
  cases h : d.getSpec.template with
  | none => exact .inl (by simp [Deployment.getTemplate, h, claimedNode])
  | some t => exact .inr (by simp)

theorem yields_scaleUp (owned : List Pod) :
    (scaleUp d owned (wanted d - owned.length).toNat).Yields serve s ()
      (s.set .pods ((s .pods).insertAll ((creations d owned s).map podEntry))) := by
  have hfuel := ahead_occupied_le d owned
  have hc := yields_createLoop (occupied d owned) (claimedNode_template s d)
    ((wanted d - owned.length).toNat + owned.length) (wanted d - owned.length).toNat 0 s (by omega)
  simp only [scaleUp]
  split
  · exact Yields.bind (Returns.mapStop (yields_resolveVolumeNode _ _)) hc
  · next h =>
    have hn : d.getTemplate.volumes = [] := eq_nil_of_length_eq_zero (by omega)
    simpa only [creations, hn, claimedNode, pure_bind_reg] using hc

theorem yields_deleteLoop (owned : List Pod) :
    ∀ (rounds i : Nat) (s : State), i + rounds = owned.length →
      (deleteLoop owned rounds i).Yields serve s ()
        (s.set .pods ((s .pods).eraseAll ((owned.drop i).map podPath)))
  | 0, i, s, h => by
    rw [drop_of_length_le (by omega)]
    simpa [deleteLoop] using yields_pure
  | rounds + 1, i, s, h => by
    have hi : i < owned.length := by omega
    have hidx : index owned i = pure owned[i] := by
      simp [index, hi]
    have ih := yields_deleteLoop owned rounds (i + 1)
      (s.set .pods ((s .pods).erase (podPath owned[i]))) (by omega)
    simp only [State.set_self, State.set_set, Int.natCast_add, Int.cast_ofNat_Int] at ih
    rw [deleteLoop, hidx, pure_bind_reg, drop_eq_getElem_cons hi]
    exact Yields.bind (yields_deletePod _ _) ih

/-- **The `switch`**, when the number wanted is not negative. -/
theorem yields_scale (h : 0 ≤ wanted d) (owned : List Pod) :
    (scale d owned).Yields serve s () (scaled d owned s) := by
  simp only [scale, scaled]
  split
  · exact yields_scaleUp owned
  · split
    · have hd :=
        yields_deleteLoop owned (owned.length - wanted d).toNat (wanted d).toNat s (by omega)
      rwa [Int.toNat_of_nonneg h] at hd
    · rw [drop_of_length_le (by omega)]
      simpa using yields_pure

end

/-! ### Scheduling -/

/-- The pod as `scheduleLoop` leaves it. -/
def placed (candidates : List NodeCandidate) (p : Pod) : Pod :=
  if p.getSpec.nodeName ≠ "" then p
  else match schedule (requestOf p) candidates with
    | .error .noNodeAvailable => setMessage (pendingMessage (requestOf p).containerPorts) p
    | .ok nodeName => assign nodeName p

/-- Whether `scheduleLoop` writes the pod: it has no node, and if it gets none then the reason is
new. -/
def Rewritten (candidates : List NodeCandidate) (p : Pod) : Prop :=
  p.getSpec.nodeName = "" ∧ (schedule (requestOf p) candidates = .error .noNodeAvailable →
    p.getStatus.message ≠ pendingMessage (requestOf p).containerPorts)

instance (candidates : List NodeCandidate) (p : Pod) : Decidable (Rewritten candidates p) :=
  inferInstanceAs (Decidable (_ ∧ _))

/-- The pods `scheduleLoop` writes. -/
def rewrites (candidates : List NodeCandidate) (pods : List Pod) : List Pod :=
  (pods.filter fun p => Rewritten candidates p).map (placed candidates)

variable {p : Pod}

section

variable {s : State} {d : Deployment} {candidates : List NodeCandidate}

theorem pendingMessage_ne_empty (ports : List Int32) : pendingMessage ports ≠ "" := by
  simp only [pendingMessage]
  split
  · intro h
    have := congrArg String.length h
    simp at this
  · decide

/-- A message that is already there is not set anew. -/
theorem setMessage_eq {msg : String} (hm : msg ≠ "") (h : p.getStatus.message = msg) :
    setMessage msg p = p := by
  rcases p with ⟨md, spec, _ | status⟩
  · exact absurd h.symm hm
  · simp only [Pod.getStatus, Option.getD_some] at h
    simp [setMessage, Pod.getStatus, ← h]

theorem placed_metadata (candidates : List NodeCandidate) (p : Pod) :
    (placed candidates p).getMetadata = p.getMetadata := by
  simp only [placed]
  split
  · rfl
  · split
    · rfl
    · simp only [assign]
      split <;> rfl

theorem podPath_placed (candidates : List NodeCandidate) (p : Pod) :
    podPath (placed candidates p) = podPath p := by
  rw [podPath, placed_metadata]
  rfl

/-- A pod that is not written is as it would be written. -/
theorem placed_of_not_rewritten (h : ¬ Rewritten candidates p) : placed candidates p = p := by
  simp only [placed]
  split
  · rfl
  · next hn =>
    rw [not_not] at hn
    have hm : schedule (requestOf p) candidates = .error .noNodeAvailable ∧
        p.getStatus.message = pendingMessage (requestOf p).containerPorts := by
      by_contra hc
      exact h ⟨hn, fun hs hm => hc ⟨hs, hm⟩⟩
    simp only [hm.1]
    exact setMessage_eq (pendingMessage_ne_empty _) hm.2

theorem rewrites_cons (candidates : List NodeCandidate) (p : Pod) (pods : List Pod) :
    rewrites candidates (p :: pods) = rewrites candidates [p] ++ rewrites candidates pods := by
  rw [rewrites, ← singleton_append, filter_append, map_append]
  rfl

theorem rewrites_singleton :
    rewrites candidates [p] = if Rewritten candidates p then [placed candidates p] else [] := by
  by_cases h : Rewritten candidates p <;> simp [rewrites, h]

theorem yields_writeBack (p : Pod) (text : String) :
    (writeBack p text).Yields serve s (p, none) (s.set .pods ((s .pods).insert (podPath p) p)) :=
  Yields.bind yields_put yields_pure

/-- **One pod**, against the candidates. -/
theorem yields_schedulePod (hp : p.getSpec.nodeName = "") :
    (schedulePod candidates p).Yields serve s (placed candidates p, none)
      (s.set .pods ((s .pods).insertAll ((rewrites candidates [p]).map podEntry))) := by
  unfold schedulePod
  split
  · next hs =>
    have hpl :
        placed candidates p = setMessage (pendingMessage (requestOf p).containerPorts) p := by
      simp [placed, hp, hs]
    dsimp only
    split
    · next hm =>
      have hr : ¬ Rewritten candidates p := fun h => h.2 hs hm
      rw [rewrites_singleton, if_neg hr, hpl, setMessage_eq (pendingMessage_ne_empty _) hm]
      simpa using yields_pure
    · next hm =>
      have hr : Rewritten candidates p := ⟨hp, fun _ => hm⟩
      rw [rewrites_singleton, if_pos hr, hpl]
      exact yields_writeBack _ _
  · next nodeName hs =>
    have hpl : placed candidates p = assign nodeName p := by
      simp [placed, hp, hs]
    have hr : Rewritten candidates p := ⟨hp, fun h => by rw [hs] at h; cases h⟩
    rw [rewrites_singleton, if_pos hr, hpl]
    exact yields_writeBack _ _

/-- **Every pod without a node, against the same candidates.** -/
theorem yields_scheduleLoop (candidates : List NodeCandidate) :
    ∀ (pods : List Pod) (s : State),
      (scheduleLoop candidates pods).Yields serve s (pods.map (placed candidates), none)
        (s.set .pods ((s .pods).insertAll ((rewrites candidates pods).map podEntry)))
  | [], s => by
    simpa [rewrites, scheduleLoop] using yields_pure
  | p :: pods, s => by
    have ih := yields_scheduleLoop candidates pods
    simp only [scheduleLoop]
    split
    · next hp =>
      have hpl : placed candidates p = p := if_pos hp
      have hr : ¬ Rewritten candidates p := fun h => hp h.1
      rw [rewrites_cons, rewrites_singleton, if_neg hr, nil_append, map_cons, hpl]
      exact Yields.bind (ih s) yields_pure
    · next hp =>
      rw [not_not] at hp
      refine Yields.bind (yields_schedulePod hp) ?_
      have h := ih (s.set .pods ((s .pods).insertAll ((rewrites candidates [p]).map podEntry)))
      simp only [State.set_self, State.set_set, ← Finmap.insertAll_append, ← map_append,
        ← rewrites_cons] at h
      exact Yields.bind h yields_pure

/-- The candidates built from two listings. -/
def candidatesAt (s : State) (podOrder nodeOrder : List String) : List NodeCandidate :=
  candidatesOf (nodeUsageOf (s.listed .pods "" podOrder)) (s.listed .nodes "" nodeOrder)

theorem returns_computeNodeUsage :
    computeNodeUsage.Returns serve s fun x s' =>
      ∃ order, Finmap.IsOrder order (s.listing .pods "") ∧
        x = .ok (nodeUsageOf (s.listed .pods "" order)) ∧ s' = s :=
  returns_list_bind fun _ => yields_pure

theorem returns_buildNodeCandidates (usage : Dict String NodeResourceUsage) :
    (buildNodeCandidates usage).Returns serve s fun x s' =>
      ∃ order, Finmap.IsOrder order (s.listing .nodes "") ∧
        x = .ok (candidatesOf usage (s.listed .nodes "" order)) ∧ s' = s :=
  returns_list_bind fun _ => yields_pure

/-- Usage, then candidates, then whatever follows. -/
theorem runs_candidates {β : Type} {f : List NodeCandidate → Reg β} {g h : RegistryError → Reg β}
    {r : Except Stop β} :
    (do match ← computeNodeUsage with
        | .error err => g err
        | .ok usage =>
          match ← buildNodeCandidates usage with
          | .error err => h err
          | .ok candidates => f candidates : Reg β).Runs serve s r s' ↔
      ∃ podOrder nodeOrder, Finmap.IsOrder podOrder (s.listing .pods "") ∧
        Finmap.IsOrder nodeOrder (s.listing .nodes "") ∧
        (f (candidatesAt s podOrder nodeOrder)).Runs serve s r s' := by
  rw [Returns.runs_bind returns_computeNodeUsage]
  constructor
  · rintro ⟨_, _, ⟨podOrder, hp, rfl, rfl⟩, hr⟩
    obtain ⟨_, _, ⟨nodeOrder, hn, rfl, rfl⟩, hr⟩ :=
      (Returns.runs_bind (returns_buildNodeCandidates _)).mp hr
    exact ⟨podOrder, nodeOrder, hp, hn, hr⟩
  · rintro ⟨podOrder, nodeOrder, hp, hn, hr⟩
    refine ⟨_, s, ⟨podOrder, hp, rfl, rfl⟩, ?_⟩
    exact (Returns.runs_bind (returns_buildNodeCandidates _)).mpr
      ⟨_, s, ⟨nodeOrder, hn, rfl, rfl⟩, hr⟩

/-- Pods that all have a node are left alone, whatever the candidates. -/
theorem placed_of_assigned (candidates : List NodeCandidate) {pods : List Pod}
    (h : ∀ p ∈ pods, p.getSpec.nodeName ≠ "") :
    pods.map (placed candidates) = pods ∧ rewrites candidates pods = [] := by
  constructor
  · refine (map_congr_left fun p hp => ?_).trans (map_id pods)
    exact if_pos (h p hp)
  · rw [rewrites, map_eq_nil_iff, filter_eq_nil_iff]
    intro p hp hr
    exact h p hp (of_decide_eq_true hr).1

theorem returns_scheduleUnassigned (pods : List Pod) :
    (scheduleUnassigned pods).Returns serve s fun x s' =>
      ∃ podOrder nodeOrder, Finmap.IsOrder podOrder (s.listing .pods "") ∧
        Finmap.IsOrder nodeOrder (s.listing .nodes "") ∧
        x = (pods.map (placed (candidatesAt s podOrder nodeOrder)), none) ∧
        s' = s.set .pods ((s .pods).insertAll
          ((rewrites (candidatesAt s podOrder nodeOrder) pods).map podEntry)) := by
  intro r s'
  simp only [scheduleUnassigned]
  split
  · next hall =>
    have hall : ∀ p ∈ pods, p.getSpec.nodeName ≠ "" := by simpa using hall
    rw [runs_pure]
    constructor
    · rintro ⟨rfl, rfl⟩
      -- nothing is listed here: any two orders will do
      obtain ⟨podOrder, hp⟩ := Finmap.exists_isOrder (s'.listing .pods "")
      obtain ⟨nodeOrder, hn⟩ := Finmap.exists_isOrder (s'.listing .nodes "")
      obtain ⟨h₁, h₂⟩ := placed_of_assigned (candidatesAt s' podOrder nodeOrder) hall
      exact ⟨_, rfl, podOrder, nodeOrder, hp, hn, by rw [h₁], by simp [h₂]⟩
    · rintro ⟨_, rfl, podOrder, nodeOrder, -, -, rfl, rfl⟩
      obtain ⟨h₁, h₂⟩ := placed_of_assigned (candidatesAt s podOrder nodeOrder) hall
      simp [h₁, h₂]
  · refine runs_candidates.trans ?_
    constructor
    · rintro ⟨podOrder, nodeOrder, hp, hn, h⟩
      obtain ⟨_, rfl, rfl, rfl⟩ := (yields_scheduleLoop _ _ _ _ _).mp h
      exact ⟨_, rfl, podOrder, nodeOrder, hp, hn, rfl, rfl⟩
    · rintro ⟨_, rfl, podOrder, nodeOrder, hp, hn, rfl, rfl⟩
      exact ⟨podOrder, nodeOrder, hp, hn, (yields_scheduleLoop ..).mpr ⟨_, rfl, rfl, rfl⟩⟩

end

/-! ### Volumes -/

/-- A volume claimed for a node. -/
def claimedVolume (d : Deployment) (nodeName : String) (vol : Volume) : Volume :=
  { vol with
    metadata := vol.metadata.map fun md =>
      { md with labels := md.labels.insert OwnerDeploymentLabel d.getMetadata.name }
    status := some { vol.getStatus with nodeName := nodeName } }

/-- The volumes after one mount. -/
def claimOne (d : Deployment) (nodeName : String) (vols : Dict String Volume) (m : VolumeMount) :
    Dict String Volume :=
  match vols.lookup (path d.getMetadata.ns m.volumeName) with
  | none => vols
  | some vol =>
    if vol.getStatus.nodeName ≠ "" then vols
    else
      let vol := claimedVolume d nodeName vol
      vols.insert (path d.getMetadata.ns vol.getMetadata.name) vol

/-- The volumes as `claimLoop` leaves them. -/
def claimAll (d : Deployment) (nodeName : String) (vols : Dict String Volume)
    (mounts : List VolumeMount) : Dict String Volume :=
  mounts.foldl (claimOne d nodeName) vols

/-- The state `claimVolumes` leaves. -/
def volumesClaimed (d : Deployment) (owned : List Pod) (s : State) : State :=
  if firstNode owned = "" then s
  else s.set .volumes (claimAll d (firstNode owned) (s .volumes) d.getTemplate.volumes)

/-- The volumes that are there for the mounts have metadata. -/
def MountsNamed (ns : String) (mounts : List VolumeMount) (vols : Dict String Volume) : Prop :=
  ∀ m ∈ mounts, ∀ vol, vols.lookup (path ns m.volumeName) = some vol → vol.metadata ≠ none

instance (ns : String) (mounts : List VolumeMount) (vols : Dict String Volume) :
    Decidable (MountsNamed ns mounts vols) :=
  decidable_of_iff (∀ m ∈ mounts, (vols.lookup (path ns m.volumeName)).all fun vol =>
    vol.metadata ≠ none) (by simp only [MountsNamed, Option.all_eq_true, decide_eq_true_eq])

theorem MountsNamed.insert {ns : String} {mounts : List VolumeMount} {vols : Dict String Volume}
    (h : MountsNamed ns mounts vols) (p : String) {vol : Volume} (hv : vol.metadata ≠ none) :
    MountsNamed ns mounts (vols.insert p vol) := by
  intro m hm vol' hl
  rw [Finmap.lookup_insert_eq] at hl
  split at hl
  · cases hl; exact hv
  · exact h m hm vol' hl

variable {s : State}

section

variable {d : Deployment} {nodeName : String}

theorem yields_claimLoop :
    ∀ (mounts : List VolumeMount) (s : State),
      MountsNamed d.getMetadata.ns mounts (s .volumes) →
      (claimLoop d nodeName mounts).Yields serve s ()
        (s.set .volumes (claimAll d nodeName (s .volumes) mounts))
  | [], s, _ => by
    simpa [claimAll, claimLoop] using yields_pure
  | m :: mounts, s, hv => by
    obtain ⟨hm, hrest⟩ := forall_mem_cons.mp hv
    refine Yields.bind yields_get ?_
    rcases s.find_cases .volumes d.getMetadata.ns m.volumeName with ⟨vol, hl, hf⟩ | ⟨hl, hf⟩
    · simp only [claimAll, foldl_cons, claimOne, hf, hl]
      split
      · exact yields_claimLoop mounts s hrest
      · obtain ⟨md, hmd⟩ := Option.ne_none_iff_exists'.mp (hm vol hl)
        have hc : claim d nodeName vol = pure (claimedVolume d nodeName vol) := by
          simp [claim, claimedVolume, hmd]
        rw [hc, pure_bind_reg]
        refine Yields.bind yields_put (Yields.bind yields_orReturn_ok ?_)
        have ih := yields_claimLoop mounts (s.set .volumes ((s .volumes).insert
          (path d.getMetadata.ns (claimedVolume d nodeName vol).getMetadata.name)
          (claimedVolume d nodeName vol)))
        simp only [State.set_self, State.set_set] at ih
        exact ih (MountsNamed.insert hrest _ (by simp [claimedVolume, hmd]))
    · simp only [claimAll, foldl_cons, claimOne, hf, hl]
      exact yields_claimLoop mounts s hrest

/-- `claimVolumes` has one run: the claims are written in the order of the mounts. -/
theorem yields_claimVolumes (hv : MountsNamed d.getMetadata.ns d.getTemplate.volumes (s .volumes))
    (owned : List Pod) : (claimVolumes d owned).Yields serve s () (volumesClaimed d owned s) := by
  have hc : (claimVolumeNodes d owned).Yields serve s () (volumesClaimed d owned s) := by
    simp only [claimVolumeNodes, volumesClaimed]
    split
    · exact yields_pure
    · exact yields_claimLoop _ s hv
  simp only [claimVolumes]
  split
  · exact Yields.bind (Yields.attempt hc) yields_pure
  · next h =>
    have hn : d.getTemplate.volumes = [] := eq_nil_of_length_eq_zero (by omega)
    have hs : volumesClaimed d owned s = s := by
      simp [volumesClaimed, hn, claimAll]
    rw [hs]
    exact yields_pure

end

/-! ### The status -/

/-- The state `writeStatus` leaves. -/
def statusWritten (d : Deployment) (owned : List Pod) (s : State) : State :=
  match (s .deployments).lookup (path d.getMetadata.ns d.getMetadata.name) with
  | none => s
  | some current => s.set .deployments ((s .deployments).insert
      (path current.getMetadata.ns current.getMetadata.name)
      { current with status := some (statusOf owned) })

variable {cur : Deployment}

theorem statusWritten_of_lookup
    (hl : (s .deployments).lookup (path d.getMetadata.ns d.getMetadata.name) = some cur)
    (owned : List Pod) :
    statusWritten d owned s = s.set .deployments ((s .deployments).insert
      (path cur.getMetadata.ns cur.getMetadata.name)
      { cur with status := some (statusOf owned) }) := by
  simp only [statusWritten, hl]

theorem runs_writeStatus {owned : List Pod} {r : Except Stop Unit}
    (h : (writeStatus d owned).Runs serve s r s') : s' = statusWritten d owned s := by
  simp only [writeStatus] at h
  rw [Yields.runs_bind yields_get] at h
  rcases s.find_cases .deployments d.getMetadata.ns d.getMetadata.name with ⟨cur, hl, hf⟩ | ⟨hl, hf⟩
  · rw [hf, orReturn_ok_bind, Yields.runs_bind yields_put] at h
    simp only [statusWritten, hl]
    exact h.2
  · rw [hf, orReturn_error_bind] at h
    simpa only [statusWritten, hl] using h.2

/-- The status of a deployment that is stored is written. -/
theorem yields_writeStatus {owned : List Pod}
    (hl : (s .deployments).lookup (path d.getMetadata.ns d.getMetadata.name) = some cur) :
    (writeStatus d owned).Yields serve s () (statusWritten d owned s) := by
  have hf : s.find .deployments d.getMetadata.ns d.getMetadata.name = .ok cur := by
    simp [State.find, hl]
  refine Yields.bind yields_get ?_
  rw [hf, orReturn_ok_bind]
  simp only [statusWritten, hl]
  exact Yields.bind yields_put yields_orReturn_ok

/-! ### The pass -/

/-- The state after the first eviction and the `switch`. -/
def resized (d : Deployment) (s : State) (first : List String) : State :=
  scaled d (healthy d (seen d s first) s) (evict d (seen d s first) s)

/-- The state in which the pods are scheduled. -/
def settled (d : Deployment) (s : State) (first second : List String) : State :=
  evict d (seen d (resized d s first) second) (resized d s first)

/-- **A pass of `d` from `s`**, when a number of replicas is wanted that is not negative: the orders
of the four listings it takes. -/
structure Pass (d : Deployment) (s : State) where
  first : List String
  second : List String
  podOrder : List String
  nodeOrder : List String
  first_isOrder : Finmap.IsOrder first (s.listing .pods d.getMetadata.ns)
  second_isOrder : Finmap.IsOrder second ((resized d s first).listing .pods d.getMetadata.ns)
  podOrder_isOrder : Finmap.IsOrder podOrder ((settled d s first second).listing .pods "")
  nodeOrder_isOrder : Finmap.IsOrder nodeOrder ((settled d s first second).listing .nodes "")

namespace Pass

variable {d : Deployment} {s : State} (π : Pass d s)

/-- The pass with given orders. -/
def ofOrders (first second podOrder nodeOrder : List String)
    (h : Finmap.IsOrder first (s.listing .pods d.getMetadata.ns) ∧
      Finmap.IsOrder second ((resized d s first).listing .pods d.getMetadata.ns) ∧
      Finmap.IsOrder podOrder ((settled d s first second).listing .pods "") ∧
      Finmap.IsOrder nodeOrder ((settled d s first second).listing .nodes "")) : Pass d s :=
  ⟨first, second, podOrder, nodeOrder, h.1, h.2.1, h.2.2.1, h.2.2.2⟩

/-- The healthy pods at the start. -/
def owned₁ : List Pod := healthy d (seen d s π.first) s

/-- The state after the `switch`. -/
def state₂ : State := resized d s π.first

/-- The healthy pods after it. -/
def owned₂ : List Pod := healthy d (seen d π.state₂ π.second) π.state₂

/-- The state after the second eviction. -/
def state₃ : State := settled d s π.first π.second

def candidates : List NodeCandidate := candidatesAt π.state₃ π.podOrder π.nodeOrder

/-- The owned pods at the end. -/
def owned : List Pod := π.owned₂.map (placed π.candidates)

/-- The state after the scheduling. -/
def state₄ : State :=
  π.state₃.set .pods ((π.state₃ .pods).insertAll ((rewrites π.candidates π.owned₂).map podEntry))

/-- The state after the volumes are claimed. -/
def state₅ : State := volumesClaimed d π.owned π.state₄

/-- The state at the end. -/
def final : State := statusWritten d π.owned π.state₅

/-! A pass writes pods, then volumes, then deployments. -/

theorem frame₂ (hk : k ≠ .pods) : π.state₂ k = s k := by
  rw [state₂, resized, scaled_frame hk, evict_frame hk]

theorem frame₃ (hk : k ≠ .pods) : π.state₃ k = s k :=
  (evict_frame hk _).trans (π.frame₂ hk)

theorem frame₄ (hk : k ≠ .pods) : π.state₄ k = s k :=
  (set_of_ne _ hk _).trans (π.frame₃ hk)

theorem frame₅ (hk : k ≠ .volumes) : π.state₅ k = π.state₄ k := by
  rw [state₅, volumesClaimed]
  split
  · rfl
  · exact set_of_ne _ hk _

theorem frame_final (hk : k ≠ .deployments) : π.final k = π.state₅ k := by
  rw [final, statusWritten]
  cases (π.state₅ .deployments).lookup (path d.getMetadata.ns d.getMetadata.name) with
  | none => rfl
  | some cur => exact set_of_ne _ hk _

theorem nodes₂ : π.state₂ .nodes = s .nodes := π.frame₂ (by decide)

theorem nodes₃ : π.state₃ .nodes = s .nodes := π.frame₃ (by decide)

theorem volumes₄ : π.state₄ .volumes = s .volumes := π.frame₄ (by decide)

theorem deployments₅ : π.state₅ .deployments = s .deployments :=
  (π.frame₅ (by decide)).trans (π.frame₄ (by decide))

theorem pods_final : π.final .pods = π.state₄ .pods :=
  (π.frame_final (by decide)).trans (π.frame₅ (by decide))

theorem nodes_final : π.final .nodes = s .nodes :=
  (π.frame_final (by decide)).trans ((π.frame₅ (by decide)).trans (π.frame₄ (by decide)))

theorem volumes_final : π.final .volumes = π.state₅ .volumes := π.frame_final (by decide)

end Pass

section

variable {d : Deployment} {s s' : State} {r : Except Stop Unit}

/-- **A run of `reconcileOne` is a pass**, and then the volumes and the status. -/
theorem runs_reconcileOne (h : 0 ≤ wanted d) :
    (reconcileOne d).Runs serve s r s' ↔
      ∃ π : Pass d s, (claimVolumes d π.owned >>= fun _ => writeStatus d π.owned).Runs serve
        π.state₄ r s' := by
  simp only [reconcileOne]
  rw [wrap, Returns.runs_bind returns_ownedPods.mapStop]
  constructor
  · rintro ⟨_, _, ⟨first, h₁, rfl, rfl⟩, hr⟩
    rw [Yields.runs_bind (yields_scale h _), wrap,
      Returns.runs_bind returns_ownedPods.mapStop] at hr
    obtain ⟨_, _, ⟨second, h₂, rfl, rfl⟩, hr⟩ := hr
    rw [Returns.runs_bind (returns_scheduleUnassigned _)] at hr
    obtain ⟨_, _, ⟨podOrder, nodeOrder, h₃, h₄, rfl, rfl⟩, hr⟩ := hr
    exact ⟨⟨first, second, podOrder, nodeOrder, h₁, h₂, h₃, h₄⟩, hr⟩
  · rintro ⟨π, hr⟩
    refine ⟨_, _, ⟨π.first, π.first_isOrder, rfl, rfl⟩, ?_⟩
    rw [Yields.runs_bind (yields_scale h _), wrap,
      Returns.runs_bind returns_ownedPods.mapStop]
    refine ⟨_, _, ⟨π.second, π.second_isOrder, rfl, rfl⟩, ?_⟩
    rw [Returns.runs_bind (returns_scheduleUnassigned _)]
    exact ⟨_, _, ⟨π.podOrder, π.nodeOrder, π.podOrder_isOrder, π.nodeOrder_isOrder, rfl, rfl⟩, hr⟩

section

variable (h : 0 ≤ wanted d)
  (hv : MountsNamed d.getMetadata.ns d.getTemplate.volumes (s .volumes))

include h hv

theorem runs_reconcileOne_status :
    (reconcileOne d).Runs serve s r s' ↔
      ∃ π : Pass d s, (writeStatus d π.owned).Runs serve π.state₅ r s' := by
  rw [runs_reconcileOne h]
  refine exists_congr fun π => ?_
  rw [← π.volumes₄] at hv
  exact Yields.runs_bind (yields_claimVolumes hv π.owned)

/-- **Every run ends where its pass ends**, when the mounted volumes have metadata. -/
theorem final_of_runs (hr : (reconcileOne d).Runs serve s r s') : ∃ π : Pass d s, s' = π.final := by
  obtain ⟨π, hr⟩ := (runs_reconcileOne_status h hv).mp hr
  exact ⟨π, runs_writeStatus hr⟩

/-- **Every pass of a deployment that is stored is a run**, and it returns without an error. -/
theorem runs_iff_final
    (hd : (s .deployments).lookup (path d.getMetadata.ns d.getMetadata.name) = some cur) :
    (reconcileOne d).Runs serve s r s' ↔ ∃ π : Pass d s, r = .ok () ∧ s' = π.final := by
  rw [runs_reconcileOne_status h hv]
  refine exists_congr fun π => ?_
  rw [← π.deployments₅] at hd
  rw [yields_writeStatus hd]
  exact ⟨fun ⟨_, hr, _, hs⟩ => ⟨hr, hs⟩, fun ⟨hr, hs⟩ => ⟨(), hr, rfl, hs⟩⟩

end

/-- **When a negative number is wanted** the pass evicts, and then reads before the first owned
pod. -/
theorem runs_reconcileOne_negative (h : wanted d < 0) :
    (reconcileOne d).Runs serve s r s' ↔
      ∃ order, Finmap.IsOrder order (s.listing .pods d.getMetadata.ns) ∧
        r = .error (.panic .indexOutOfRange) ∧ s' = evict d (seen d s order) s := by
  have hscale : ∀ owned, ∃ n, scale d owned = deleteLoop owned (n + 1) (wanted d) := by
    intro owned
    refine ⟨(owned.length - wanted d).toNat - 1, ?_⟩
    rw [scale, if_neg (by omega), if_pos (by omega), Nat.sub_add_cancel (by omega)]
  have hidx : ∀ owned, index owned (wanted d) = .stop (.panic .indexOutOfRange) :=
    fun owned => if_pos h
  simp only [reconcileOne]
  rw [wrap, Returns.runs_bind returns_ownedPods.mapStop]
  constructor
  · rintro ⟨owned, _, ⟨order, ho, -, rfl⟩, hr⟩
    obtain ⟨n, hn⟩ := hscale owned
    rw [hn, deleteLoop, hidx] at hr
    exact ⟨order, ho, hr⟩
  · rintro ⟨order, ho, rfl, rfl⟩
    refine ⟨_, _, ⟨order, ho, rfl, rfl⟩, ?_⟩
    obtain ⟨n, hn⟩ := hscale (healthy d (seen d s order) s)
    rw [hn, deleteLoop, hidx]
    exact ⟨rfl, rfl⟩

end

end NimbusCore.Controller
