import NimbusCore.Apiserver.Deployments
import NimbusCore.Controller.Pass

/-!
# Controller — when a reconcile panics

`reconcileOne` runs in a goroutine without `recover`.  Here the store may fail at any call
(`serveOrFail`), so these are facts about every run, with or without errors.

* Every part but two is `Quiet`: it writes to one kind and it stops only with an error.
* `quiet_scale`: the `switch` is quiet when a number is wanted that is not negative.
* `claimLoop_no_panic`: claiming is quiet on volumes that have metadata.
* `in_bounds_iff`: no access is out of range, in any run, exactly when `replicas` is not negative.
  `CreateDeployment` lets a negative number through (`negative_replicas_stored`).
-/

namespace NimbusCore.Controller

open Api Registry Scheduler Admission Apiserver Prog

/-! ### The parts that never panic -/

theorem readsOnly_nodeReady (name : String) : ReadsOnly (nodeReady name) := by
  refine Within.bind readsOnly_get fun r => ?_
  rcases r with (_ | _) | node
  · trivial
  · exact readsOnly_orReturn
  · trivial

theorem readsOnly_onDeadNode (p : Pod) : ReadsOnly (onDeadNode p) := by
  simp only [onDeadNode]
  split
  · trivial
  · exact Within.bind (readsOnly_nodeReady _) fun _ => trivial

theorem quiet_deletePod (p : Pod) (text : String) : Quiet .pods (deletePod p text) :=
  Within.bind quiet_delete fun _ => quiet_orReturn

theorem quiet_ownedLoop (d : Deployment) : ∀ all : List Pod, Quiet .pods (ownedLoop d all)
  | [] => trivial
  | p :: all => by
    have ih := quiet_ownedLoop d all
    simp only [ownedLoop]
    split
    · exact ih
    · refine Within.bind (readsOnly_onDeadNode p).quiet fun dead => ?_
      split
      · exact Within.bind (quiet_deletePod p "") fun _ => ih
      · split
        · exact Within.bind (quiet_deletePod p "") fun _ => ih
        · exact Within.bind ih fun _ => trivial

theorem quiet_ownedPods (d : Deployment) : Quiet .pods (ownedPods d) :=
  Within.bind quiet_list fun _ => Within.bind quiet_orReturn fun all =>
    quiet_ownedLoop d all

theorem readsOnly_resolveVolumeNode (ns : String) :
    ∀ mounts : List VolumeMount, ReadsOnly (resolveVolumeNode ns mounts)
  | [] => trivial
  | m :: mounts => by
    have ih := readsOnly_resolveVolumeNode ns mounts
    refine Within.bind readsOnly_get fun r => ?_
    rcases r with (_ | _) | vol
    · exact ih
    · exact readsOnly_orReturn
    · dsimp only
      split
      · trivial
      · exact ih

/-- A pin needs a spec to write to. -/
theorem quiet_pin {claimedNode : String} {p : Pod} (h : claimedNode = "" ∨ p.spec ≠ none) :
    Quiet .pods (pin claimedNode p) := by
  simp only [pin]
  split
  · trivial
  · next hne =>
    split
    · next hs => exact absurd hs (h.resolve_left hne)
    · trivial

variable {d : Deployment}

theorem quiet_createLoop {node : String} {occ : List Int}
    (h : node = "" ∨ d.getSpec.template ≠ none) :
    ∀ fuel toCreate i, toCreate + ahead occ i ≤ fuel →
      Quiet .pods (createLoop d node occ fuel toCreate i)
  | fuel, 0, i, _ => by
    simp only [createLoop]
    trivial
  | 0, toCreate + 1, i, hf => by omega
  | fuel + 1, toCreate + 1, i, hf => by
    simp only [createLoop]
    split
    · next hi =>
      have := ahead_succ_lt hi
      exact quiet_createLoop h fuel (toCreate + 1) (i + 1) (by omega)
    · refine Within.bind (quiet_pin h) fun pod => ?_
      refine Within.bind quiet_put fun _ => Within.bind quiet_orReturn fun _ => ?_
      have := ahead_succ_le occ i
      exact quiet_createLoop h fuel toCreate (i + 1) (by omega)

theorem quiet_scaleUp (d : Deployment) (owned : List Pod) (toCreate : Nat) :
    Quiet .pods (scaleUp d owned toCreate) := by
  have hfuel : toCreate + ahead (occupied d owned) 0 ≤ toCreate + owned.length :=
    Nat.add_le_add_left (ahead_occupied_le d owned) _
  simp only [scaleUp]
  split
  · next hm =>
    refine Within.bind (ReadsOnly.quiet (readsOnly_resolveVolumeNode _ _)).wrap
      fun claimedNode => ?_
    refine quiet_createLoop (.inr fun hn => ?_) _ _ _ hfuel
    simp [Deployment.getTemplate, hn] at hm
  · exact quiet_createLoop (.inl rfl) _ _ _ hfuel

theorem quiet_deleteLoop (owned : List Pod) :
    ∀ (rounds : Nat) (i : Int), 0 ≤ i → i + rounds ≤ owned.length →
      Quiet .pods (deleteLoop owned rounds i)
  | 0, _, _, _ => trivial
  | rounds + 1, i, h0, hi => by
    refine Within.bind ?_ fun p => Within.bind (quiet_deletePod p _) fun _ =>
      quiet_deleteLoop owned rounds (i + 1) (by omega) (by omega)
    have hlt : i.toNat < owned.length := by omega
    rw [index, if_neg (by omega), List.getElem?_eq_getElem hlt]
    trivial

/-- **The switch stays in bounds when a non-negative number is wanted.** -/
theorem quiet_scale (h : 0 ≤ wanted d) (owned : List Pod) : Quiet .pods (scale d owned) := by
  simp only [scale]
  split
  · exact quiet_scaleUp ..
  · split
    · exact quiet_deleteLoop owned _ _ h (by omega)
    · trivial

/-- The switch writes pods only, in bounds or not. -/
theorem onlyWrites_scale (d : Deployment) (owned : List Pod) :
    (scale d owned).Within (Cmd.OnlyWrites .pods) fun _ => True := by
  have hquiet : ∀ {α : Type} {p : Reg α}, Quiet .pods p →
      p.Within (Cmd.OnlyWrites .pods) fun _ => True := fun h =>
    Within.weaken (fun _ hc => hc) (fun _ _ => trivial) h
  have hindex : ∀ i, (index owned i).Within (Cmd.OnlyWrites .pods) fun _ => True := by
    intro i
    simp only [index]
    split
    · trivial
    · cases owned[i.toNat]? <;> trivial
  have hdelete : ∀ (rounds : Nat) (i : Int),
      (deleteLoop owned rounds i).Within (Cmd.OnlyWrites .pods) fun _ => True := by
    intro rounds
    induction rounds with
    | zero => intro i; trivial
    | succ rounds ih =>
      intro i
      exact Within.bind (hindex i) fun p =>
        Within.bind (hquiet (quiet_deletePod p _)) fun _ => ih (i + 1)
  simp only [scale]
  split
  · exact hquiet (quiet_scaleUp ..)
  · split
    · exact hdelete _ _
    · trivial

theorem quiet_writeBack (p : Pod) (text : String) : Quiet .pods (writeBack p text) := by
  refine Within.bind quiet_put fun r => ?_
  rcases r with _ | _ <;> trivial

theorem quiet_schedulePod (candidates : List NodeCandidate) (p : Pod) :
    Quiet .pods (schedulePod candidates p) := by
  unfold schedulePod
  split
  · dsimp only
    split
    · trivial
    · exact quiet_writeBack ..
  · exact quiet_writeBack ..

theorem quiet_scheduleLoop (candidates : List NodeCandidate) :
    ∀ pods : List Pod, Quiet .pods (scheduleLoop candidates pods)
  | [] => trivial
  | p :: pods => by
    have ih := quiet_scheduleLoop candidates pods
    simp only [scheduleLoop]
    split
    · exact Within.bind ih fun _ => trivial
    · refine Within.bind (quiet_schedulePod candidates p) fun r => ?_
      rcases r with ⟨p', _ | err⟩
      · exact Within.bind ih fun _ => trivial
      · trivial

theorem readsOnly_computeNodeUsage : ReadsOnly computeNodeUsage := by
  refine Within.bind readsOnly_list fun r => ?_
  rcases r with _ | _ <;> trivial

theorem readsOnly_buildNodeCandidates (usage : Dict String NodeResourceUsage) :
    ReadsOnly (buildNodeCandidates usage) := by
  refine Within.bind readsOnly_list fun r => ?_
  rcases r with _ | _ <;> trivial

theorem quiet_scheduleUnassigned (pods : List Pod) : Quiet .pods (scheduleUnassigned pods) := by
  simp only [scheduleUnassigned]
  split
  · trivial
  · refine Within.bind readsOnly_computeNodeUsage.quiet fun r => ?_
    rcases r with _ | usage
    · trivial
    · refine Within.bind (readsOnly_buildNodeCandidates usage).quiet fun r => ?_
      rcases r with _ | candidates
      · trivial
      · exact quiet_scheduleLoop candidates pods

theorem quiet_writeStatus (d : Deployment) (owned : List Pod) :
    Quiet .deployments (writeStatus d owned) :=
  Within.bind quiet_get fun _ => Within.bind quiet_orReturn fun _ =>
    Within.bind quiet_put fun _ => quiet_orReturn

/-! ### Volumes without metadata -/

variable {q : Panic}

/-- **Claiming volumes that have metadata does not panic.** -/
theorem claimLoop_no_panic {nodeName : String} :
    ∀ {mounts : List VolumeMount} {s s' : State},
      MountsNamed d.getMetadata.ns mounts (s .volumes) →
      ¬ (claimLoop d nodeName mounts).Runs serveOrFail s (.error (.panic q)) s'
  | [], _, _, _, h => by cases h.1
  | m :: mounts, s, s', hv, h => by
    obtain ⟨hm, hrest⟩ := List.forall_mem_cons.mp hv
    rcases runs_get_orFail h with h | h
    · rcases s.find_cases .volumes d.getMetadata.ns m.volumeName with ⟨vol, hl, hf⟩ | ⟨-, hf⟩
      · simp only [hf] at h
        split at h
        · exact claimLoop_no_panic hrest h
        · -- the volume is claimed: it has metadata, and keeps it
          obtain ⟨md, hmd⟩ := Option.ne_none_iff_exists'.mp (hm vol hl)
          simp only [claim, hmd, pure_bind_reg] at h
          rcases runs_put_orFail h with h | h
          · rw [orReturn_ok_bind] at h
            refine claimLoop_no_panic ?_ h
            rw [State.set_self]
            exact MountsNamed.insert hrest _ (by simp)
          · cases h.1
      · simp only [hf] at h
        exact claimLoop_no_panic hrest h
    · cases h.1

/-- A stop that is an error, or the one panic that a missing metadata makes. -/
def InBounds : Stop → Prop
  | .err _ => True
  | .panic q => q = .nilDereference

/-- A quiet program stays in bounds. -/
theorem Quiet.inBounds {α : Type} {k : Kind} {p : Reg α} (h : Quiet k p) :
    p.Within (Cmd.OnlyWrites k) InBounds :=
  Within.weaken (fun _ hc => hc) (fun e he => by
    cases e with
    | err f => trivial
    | panic q => exact absurd he id) h

theorem claimLoop_inBounds (d : Deployment) (nodeName : String) :
    ∀ mounts : List VolumeMount,
      (claimLoop d nodeName mounts).Within (Cmd.OnlyWrites .volumes) InBounds
  | [] => trivial
  | m :: mounts => by
    have ih := claimLoop_inBounds d nodeName mounts
    refine Within.bind (Quiet.inBounds quiet_get) fun r => ?_
    rcases r with (_ | _) | vol
    · exact ih
    · trivial
    · dsimp only
      split
      · exact ih
      · refine Within.bind ?_ fun vol' => ?_
        · cases hm : vol.metadata with
          | none => simp only [claim, hm]; rfl
          | some md => simp only [claim, hm]; trivial
        · refine Within.bind (Quiet.inBounds quiet_put) fun _ => ?_
          exact Within.bind (Quiet.inBounds quiet_orReturn) fun _ => ih

theorem claimVolumes_inBounds (d : Deployment) (owned : List Pod) :
    (claimVolumes d owned).Within (Cmd.OnlyWrites .volumes) InBounds := by
  simp only [claimVolumes]
  split
  · refine Within.bind (Within.attempt ?_) fun _ => trivial
    simp only [claimVolumeNodes]
    split
    · trivial
    · exact claimLoop_inBounds d _ _
  · trivial

variable {owned : List Pod}

/-- **A mounted volume without metadata stops the claims with a panic.** -/
theorem claimVolumes_panics {s : State} {m : VolumeMount} {mounts : List VolumeMount} {vol : Volume}
    (hm : d.getTemplate.volumes = m :: mounts) (hn : firstNode owned ≠ "")
    (hl : (s .volumes).lookup (path d.getMetadata.ns m.volumeName) = some vol)
    (hst : vol.getStatus.nodeName = "") (hmd : vol.metadata = none) :
    (claimVolumes d owned).Runs serve s (.error (.panic .nilDereference)) s := by
  have hf : s.find .volumes d.getMetadata.ns m.volumeName = .ok vol := by
    simp [State.find, hl]
  have hloop : (claimLoop d (firstNode owned) (m :: mounts)).Runs serve s
      (.error (.panic .nilDereference)) s := by
    rw [claimLoop, Yields.runs_bind yields_get, hf]
    simp only [hst, ne_eq, not_true_eq_false, if_false, claim, hmd]
    exact ⟨rfl, rfl⟩
  rw [claimVolumes, hm, if_pos (by simp)]
  refine runs_bind.mpr (.inr ⟨_, rfl, ?_⟩)
  refine runs_catchErr.mpr (.inr (.inr ⟨_, rfl, ?_⟩))
  rw [claimVolumeNodes, if_neg hn, hm]
  exact hloop

/-! ### The whole pass -/

section

variable {d : Deployment} {s s' : State}

/-- **Every access is in range when a number is wanted that is not negative.** -/
theorem reconcileOne_inBounds (h : 0 ≤ wanted d) :
    (reconcileOne d).Within (fun _ => True) InBounds := by
  have hany : ∀ {α : Type} {k : Kind} {p : Reg α}, p.Within (Cmd.OnlyWrites k) InBounds →
      p.Within (fun _ => True) InBounds :=
    fun hp => Within.weaken (fun _ _ => trivial) (fun _ he => he) hp
  refine Within.bind (hany (Quiet.inBounds (quiet_ownedPods d).wrap)) fun owned => ?_
  refine Within.bind (hany (Quiet.inBounds (quiet_scale h owned))) fun _ => ?_
  refine Within.bind (hany (Quiet.inBounds (quiet_ownedPods d).wrap)) fun owned => ?_
  refine Within.bind (hany (Quiet.inBounds (quiet_scheduleUnassigned owned))) fun r => ?_
  refine Within.bind (hany (claimVolumes_inBounds d r.1)) fun _ => ?_
  exact hany (Quiet.inBounds (quiet_writeStatus d r.1))

theorem claimVolumes_no_panic
    (hv : MountsNamed d.getMetadata.ns d.getTemplate.volumes (s .volumes)) :
    ¬ (claimVolumes d owned).Runs serveOrFail s (.error (.panic q)) s' := by
  intro h
  simp only [claimVolumes] at h
  split at h
  · rcases runs_bind.mp h with ⟨_, _, -, h⟩ | ⟨e, he, h⟩
    · cases h.1
    · cases he
      rcases runs_catchErr.mp h with ⟨_, hr, -⟩ | ⟨_, hr, -⟩ | ⟨q', hr, h⟩
      · cases hr
      · cases hr
      · simp only [claimVolumeNodes] at h
        split at h
        · cases h.1
        · exact claimLoop_no_panic hv h
  · cases h.1

/-- **Nothing panics** when besides the mounted volumes have metadata. -/
theorem reconcileOne_no_panic (h : 0 ≤ wanted d)
    (hv : MountsNamed d.getMetadata.ns d.getTemplate.volumes (s .volumes)) :
    ¬ (reconcileOne d).Runs serveOrFail s (.error (.panic q)) s' := by
  intro hr
  -- the first four parts only write pods, so the volumes are as they were
  obtain ⟨owned, s₁, hr, h₁⟩ := Quiet.panic_after (quiet_ownedPods d).wrap hr
  obtain ⟨_, s₂, hr, h₂⟩ := Quiet.panic_after (quiet_scale h owned) hr
  obtain ⟨owned, s₃, hr, h₃⟩ := Quiet.panic_after (quiet_ownedPods d).wrap hr
  obtain ⟨r, s₄, hr, h₄⟩ := Quiet.panic_after (quiet_scheduleUnassigned owned) hr
  have hvol : s₄ .volumes = s .volumes := by
    rw [h₄ _ (by decide), h₃ _ (by decide), h₂ _ (by decide), h₁ _ (by decide)]
  rcases runs_bind.mp hr with ⟨_, s₅, -, hr⟩ | ⟨e, he, hr⟩
  · exact absurd (Within.stops (quiet_writeStatus d r.1) hr) id
  · cases he
    exact claimVolumes_no_panic (hvol ▸ hv) hr

/-- **When a negative number is wanted** every run without a store error panics. -/
theorem negative_panics (h : wanted d < 0) {r : Except Stop Unit}
    (hr : (reconcileOne d).Runs serve s r s') : r = .error (.panic .indexOutOfRange) := by
  obtain ⟨_, -, hr, -⟩ := (runs_reconcileOne_negative h).mp hr
  exact hr

theorem exists_run_panics (h : wanted d < 0) (s : State) :
    ∃ s', (reconcileOne d).Runs serveOrFail s (.error (.panic .indexOutOfRange)) s' := by
  obtain ⟨r, s', hr⟩ := exists_runs serve_total (reconcileOne d) s
  rw [negative_panics h hr] at hr
  exact ⟨s', hr.mono fun _ _ _ _ => .inl⟩

end

/-- **No access is out of range, in any run, exactly when `replicas` is not negative**; and if the
mounted volumes have metadata, then that is exactly when no run panics. -/
theorem in_bounds_iff (d : Deployment) (s : State) :
    ((∀ r s', (reconcileOne d).Runs serveOrFail s r s' → r ≠ .error (.panic .indexOutOfRange)) ↔
      0 ≤ d.getSpec.replicas.toInt) ∧
    (MountsNamed d.getMetadata.ns d.getTemplate.volumes (s .volumes) →
      ((∀ r s', (reconcileOne d).Runs serveOrFail s r s' → ∀ q, r ≠ .error (.panic q)) ↔
        0 ≤ d.getSpec.replicas.toInt)) := by
  rw [← wanted_nonneg_iff]
  refine ⟨⟨fun h => ?_, fun h r s' hr he => ?_⟩, fun hv => ⟨fun h => ?_, fun h r s' hr q he => ?_⟩⟩
  · by_contra hneg
    obtain ⟨s', hr⟩ := exists_run_panics (by omega : wanted d < 0) s
    exact h _ _ hr rfl
  · subst he
    exact absurd (Within.stops (reconcileOne_inBounds h) hr) (by simp [InBounds])
  · by_contra hneg
    obtain ⟨s', hr⟩ := exists_run_panics (by omega : wanted d < 0) s
    exact h _ _ hr _ rfl
  · subst he
    exact reconcileOne_no_panic h hv hr

/-- A deployment with a negative number of replicas. -/
def negative : Deployment :=
  { metadata := some { name := "web", ns := "default" }
    spec := some { replicas := -1 } }

/-- One replica that mounts a volume. -/
def mounting : Deployment :=
  { metadata := some { name := "web", ns := "a" }
    spec := some { replicas := 1, template := some { volumes := [{ volumeName := "v" }] } } }

/-- The volume is stored. -/
def mountedState : State :=
  State.empty.set .volumes
    (Finmap.singleton "a/v" { metadata := some { name := "v", ns := "a" } })

theorem in_bounds_iff_sample :
    (∀ r s', (reconcileOne mounting).Runs serveOrFail mountedState r s' →
      ∀ q, r ≠ .error (.panic q)) ∧
    ¬ ∀ r s', (reconcileOne negative).Runs serveOrFail mountedState r s' →
      r ≠ .error (.panic .indexOutOfRange) :=
  ⟨((in_bounds_iff mounting _).2 (by decide)).mpr (by decide),
    fun h => absurd ((in_bounds_iff negative _).1.mp h) (by decide)⟩

/-- It is stored by `CreateDeployment`, through any chain whose validators do not object to one
replica, and then every reconcile of it panics, from every state that the store comes to. -/
theorem negative_replicas_stored :
    (∀ (validators : List Validator) (s : State),
      (∀ v ∈ validators, Passes { admitReq negative with replicas := 1 } v) →
      (createDeployment validators negative).Yields serve s (.ok negative)
        (s.set .deployments ((s .deployments).insert "default/web" negative))) ∧
    ∀ (s s' : State) (r : Except Stop Unit), (reconcileOne negative).Runs serve s r s' →
      r = .error (.panic .indexOutOfRange) := by
  have hneg : wanted negative < 0 := by decide
  exact ⟨fun validators s h => yields_createDeployment (by decide) h,
    fun s s' r hr => negative_panics hneg hr⟩

end NimbusCore.Controller
