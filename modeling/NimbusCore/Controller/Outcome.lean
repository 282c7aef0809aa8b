import NimbusCore.Controller.Stages
import NimbusCore.Controller.Usage

/-!
# Controller — what a pass leaves

What the next pass will find, when the requests are not negative and no sum of them overflows
(`Accountable`, `NoOverflow`), and when the names in the store are in order (`Orderly`).

* `claimedAt_claimAll`: every mounted volume is claimed, and `claimAll_of_claimed`: then there is
  nothing left to claim.
* `statusWritten_twice`: writing the same status again changes nothing.
* `usage_final`: what is used on a node has grown by the pods that were put there.
* `refused_again`: so a pod that was refused is refused again; `owned_settled`: nothing is left to
  schedule.
-/

namespace NimbusCore.Controller

open Api Registry Scheduler List Finmap State

/-! ### Statement -/

/-- The mounted volumes that are there have metadata with the name they are mounted by. -/
def MountsKeyed (ns : String) (mounts : List VolumeMount) (vols : Dict String Volume) : Prop :=
  ∀ m ∈ mounts, ∀ vol, vols.lookup (path ns m.volumeName) = some vol →
    vol.metadata ≠ none ∧ vol.getMetadata.name = m.volumeName

instance (ns : String) (mounts : List VolumeMount) (vols : Dict String Volume) :
    Decidable (MountsKeyed ns mounts vols) :=
  decidable_of_iff (∀ m ∈ mounts, (vols.lookup (path ns m.volumeName)).all fun vol =>
    vol.metadata ≠ none ∧ vol.getMetadata.name = m.volumeName) (by
      simp only [MountsKeyed, Option.all_eq_true, decide_eq_true_eq])

/-- What is asked of the deployment and of the requests. -/
structure Accountable (d : Deployment) (s : State) : Prop where
  ns_ne_empty : d.getMetadata.ns ≠ ""
  replicas : 0 ≤ d.getSpec.replicas.toInt
  pods_nonneg : ∀ k p, (s .pods).lookup k = some p → NonNegative p
  template_nonneg : ∀ c ∈ d.getTemplate.containers, ∀ a, 0 ≤ (amountOf c.requests a).toInt

/-- No sum of requests on a node overflows. -/
def NoOverflow (s : State) : Prop :=
  ∀ name, name ≠ "" → ∀ a, onNode (s .pods) name (fun p => podAmount p a) < 2 ^ 63

/-- What is asked of the names in the store. -/
structure Orderly (d : Deployment) (s : State) : Prop where
  pods : Sound d.getMetadata.ns (s .pods)
  nodes_named : NodesNamed s
  no_nameless_node : (s .nodes).lookup "" = none
  mounts_keyed : MountsKeyed d.getMetadata.ns d.getTemplate.volumes (s .volumes)

section

variable {d : Deployment} {s : State}

/-- Pods that ask for nothing overflow nothing. -/
theorem noOverflow_of_idle (h : ∀ k p, (s .pods).lookup k = some p → p.getSpec.containers = []) :
    NoOverflow s := by
  intro name _ a
  rw [onNode, Finmap.sum_eq_zero fun k p hl => ?_]
  · decide
  · have hp : podAmount p a = 0 := by rw [podAmount, h k p hl]; rfl
    rw [hp, ite_self]

theorem accountable_of_idle (hns : d.getMetadata.ns ≠ "") (hr : 0 ≤ d.getSpec.replicas.toInt)
    (hs : ∀ k p, (s .pods).lookup k = some p → p.getSpec.containers = [])
    (ht : d.getTemplate.containers = []) : Accountable d s where
  ns_ne_empty := hns
  replicas := hr
  pods_nonneg k p hl c hc := by
    rw [hs k p hl] at hc
    cases hc
  template_nonneg c hc := by
    rw [ht] at hc
    cases hc

end

/-! ### Claims -/

variable {all : List VolumeMount} {k : String} {vols : Dict String Volume}

section

variable {d : Deployment} {nodeName : String}

/-- The volume stored at `k`, if any, is claimed. -/
def ClaimedAt (vols : Dict String Volume) (k : String) : Prop :=
  ∀ vol, vols.lookup k = some vol → vol.getStatus.nodeName ≠ ""

/-- What one mount does: nothing, or it claims the volume it finds. -/
theorem claimOne_cases (d : Deployment) (nodeName : String) (vols : Dict String Volume)
    (m : VolumeMount) :
    (ClaimedAt vols (path d.getMetadata.ns m.volumeName) ∧ claimOne d nodeName vols m = vols) ∨
      ∃ vol, vols.lookup (path d.getMetadata.ns m.volumeName) = some vol ∧
        claimOne d nodeName vols m = vols.insert
          (path d.getMetadata.ns (claimedVolume d nodeName vol).getMetadata.name)
          (claimedVolume d nodeName vol) := by
  simp only [claimOne, ClaimedAt]
  cases hl : vols.lookup (path d.getMetadata.ns m.volumeName) with
  | none => exact .inl ⟨fun _ h => (by cases h), rfl⟩
  | some vol =>
    dsimp only
    split
    · next hc => exact .inl ⟨fun _ h => by cases h; exact hc, rfl⟩
    · exact .inr ⟨vol, rfl, rfl⟩

theorem claimedVolume_name {vol : Volume} :
    (claimedVolume d nodeName vol).getMetadata.name = vol.getMetadata.name := by
  rcases vol with ⟨_ | md, spec, status⟩ <;> rfl

/-- A claim stays. -/
theorem ClaimedAt.claimAll (hn : nodeName ≠ "") (mounts : List VolumeMount) :
    ∀ vols : Dict String Volume, ClaimedAt vols k →
      ClaimedAt (claimAll d nodeName vols mounts) k := by
  induction mounts with
  | nil => intro vols h; exact h
  | cons m mounts ih =>
    intro vols h
    refine ih _ ?_
    rcases claimOne_cases d nodeName vols m with ⟨-, he⟩ | ⟨vol, -, he⟩
    · rw [he]; exact h
    · rw [he]
      intro vol' hl
      rw [Finmap.lookup_insert_eq] at hl
      split at hl
      · cases hl; exact hn
      · exact h vol' hl

/-- Claims are written where the mounts find them. -/
theorem MountsKeyed.claimOne (h : MountsKeyed d.getMetadata.ns all vols) {m : VolumeMount}
    (hm : m ∈ all) : MountsKeyed d.getMetadata.ns all (claimOne d nodeName vols m) := by
  rcases claimOne_cases d nodeName vols m with ⟨-, he⟩ | ⟨vol, hl, he⟩
  · rw [he]; exact h
  · obtain ⟨hmd, hname⟩ := h m hm vol hl
    rw [he]
    intro m' hm' vol' hl'
    rw [Finmap.lookup_insert_eq, claimedVolume_name, hname] at hl'
    split at hl'
    · next hp =>
      cases hl'
      rw [claimedVolume_name, hname]
      exact ⟨by simpa [claimedVolume] using hmd, (path_right_inj hp).symm⟩
    · exact h m' hm' vol' hl'

theorem MountsKeyed.claimAll (mounts : List VolumeMount) :
    ∀ vols : Dict String Volume, MountsKeyed d.getMetadata.ns all vols → (∀ m ∈ mounts, m ∈ all) →
      MountsKeyed d.getMetadata.ns all (claimAll d nodeName vols mounts) := by
  induction mounts with
  | nil => intro vols h _; exact h
  | cons m mounts ih =>
    intro vols h hsub
    obtain ⟨hm, hsub⟩ := forall_mem_cons.mp hsub
    exact ih _ (h.claimOne hm) hsub

/-- **After the claims every mounted volume is claimed.** -/
theorem claimedAt_claimAll (hn : nodeName ≠ "") (mounts : List VolumeMount) :
    ∀ vols : Dict String Volume, MountsKeyed d.getMetadata.ns all vols → (∀ m ∈ mounts, m ∈ all) →
      ∀ m ∈ mounts, ClaimedAt (claimAll d nodeName vols mounts)
        (path d.getMetadata.ns m.volumeName) := by
  induction mounts with
  | nil => intro vols _ _ m hm; cases hm
  | cons m mounts ih =>
    intro vols h hsub
    obtain ⟨hm, hsub⟩ := forall_mem_cons.mp hsub
    refine forall_mem_cons.mpr ⟨?_, ih _ (h.claimOne hm) hsub⟩
    refine ClaimedAt.claimAll hn mounts _ ?_
    rcases claimOne_cases d nodeName vols m with ⟨hc, he⟩ | ⟨vol, hl, he⟩
    · rw [he]; exact hc
    · rw [he, claimedVolume_name, (h m hm vol hl).2]
      intro vol' hl'
      rw [lookup_insert] at hl'
      cases hl'; exact hn

/-- Nothing is left to claim. -/
theorem claimAll_of_claimed {mounts : List VolumeMount}
    (h : ∀ m ∈ mounts, ClaimedAt vols (path d.getMetadata.ns m.volumeName)) :
    claimAll d nodeName vols mounts = vols := by
  induction mounts with
  | nil => rfl
  | cons m mounts ih =>
    obtain ⟨hm, hrest⟩ := forall_mem_cons.mp h
    have he : claimOne d nodeName vols m = vols := by
      simp only [claimOne]
      cases hl : vols.lookup (path d.getMetadata.ns m.volumeName) with
      | none => rfl
      | some vol => exact if_pos (hm vol hl)
    rw [claimAll, foldl_cons, he]
    exact ih hrest

end

/-! ### The status -/

variable {own own' : List Pod}

theorem statusOf_perm (h : own'.Perm own) : statusOf own' = statusOf own := by
  rw [statusOf, statusOf, h.length_eq, h.countP_eq]

/-- Writing the same status again. -/
theorem statusWritten_twice {d : Deployment} {s : State} (h : statusOf own' = statusOf own) :
    statusWritten d own' (statusWritten d own s) = statusWritten d own s := by
  cases hl : (s .deployments).lookup (path d.getMetadata.ns d.getMetadata.name) with
  | none => simp only [statusWritten, hl]
  | some cur =>
    rw [statusWritten_of_lookup hl]
    -- what is found now is the deployment as it was, or with the status
    by_cases hp : path d.getMetadata.ns d.getMetadata.name =
        path cur.getMetadata.ns cur.getMetadata.name
    · rw [statusWritten_of_lookup (by rw [State.set_self, hp, lookup_insert]), h,
        State.set_self, State.set_set]
      refine congrArg (s.set .deployments) (Finmap.insert_of_lookup ?_)
      exact lookup_insert _
    · rw [statusWritten_of_lookup (by rw [State.set_self, lookup_insert_of_ne _ hp, hl]),
        h, State.set_self, State.set_set]
      exact congrArg (s.set .deployments) (Finmap.insert_of_lookup (lookup_insert _))

/-! ### Scheduled pods -/

section

variable {candidates : List NodeCandidate} {p : Pod}

theorem placed_containers : (placed candidates p).getSpec.containers = p.getSpec.containers := by
  have h : ({ (placed candidates p).getSpec with nodeName := "" } : PodSpec) =
      { p.getSpec with nodeName := "" } := placed_spec
  have hc := congrArg PodSpec.containers h
  exact hc

theorem requestOf_placed : requestOf (placed candidates p) = requestOf p := by
  rw [requestOf, requestOf, podResourceRequest, podResourceRequest, placed_containers,
    placed_metadata]

end

/-! ### What a pass leaves -/

variable {p : Pod}

namespace Pass

variable {d : Deployment} {s : State} (π : Pass d s)

/-- What the scheduling makes of a pod. -/
def after (p : Pod) : Pod :=
  if Listed d.getMetadata.ns (podPath p) ∧ OwnedBy d p then placed π.candidates p else p

theorem after_containers (p : Pod) : (π.after p).getSpec.containers = p.getSpec.containers := by
  simp only [after]
  split
  · exact placed_containers
  · rfl

/-- A pod that has a node keeps it. -/
theorem after_assigned (h : p.getSpec.nodeName ≠ "") : π.after p = p := by
  simp only [after]
  split
  · exact if_pos h
  · rfl

/-- The pods that the scheduling begins with, as it lists them. -/
theorem mem_listed₃ :
    p ∈ π.state₃.listed .pods "" π.podOrder ↔ ∃ k, (π.state₃ .pods).lookup k = some p :=
  (mem_listed (s := π.state₃) π.podOrder_isOrder).trans
    (exists_congr fun _ => and_iff_right (.inl rfl))

section

variable (hs : Sound d.getMetadata.ns (s .pods))

include hs

theorem lookup_final (k : String) :
    (π.final .pods).lookup k = ((π.state₃ .pods).lookup k).map π.after := by
  rw [π.pods_final, π.lookup_state₄ hs]
  cases hl : (π.state₃ .pods).lookup k with
  | none => rfl
  | some p =>
    rw [Option.map_some, Option.map_some, after, (π.sound₃ hs).keyed k p hl]

/-- The pods at the end, in the order in which the scheduling lists them. -/
theorem listed_final :
    Finmap.IsOrder π.podOrder (π.final.listing .pods "") ∧
      π.final.listed .pods "" π.podOrder =
        (π.state₃.listed .pods "" π.podOrder).map π.after := by
  have ho : Finmap.IsOrder π.podOrder (π.state₃ .pods) := by
    have := π.podOrder_isOrder
    rwa [listing_all] at this
  obtain ⟨h₁, h₂⟩ := ho.of_map (g := fun _ => π.after) (π.lookup_final hs)
  rw [listing_all]
  refine ⟨h₁, ?_⟩
  rw [State.listed, State.listed, listing_all, listing_all, h₂, map_map,
    map_map]
  rfl

end

/-- The pods the scheduling puts on a node. -/
def arrivals (name : String) : List Pod :=
  (π.state₃.listed .pods "" π.podOrder).filter fun p =>
    p.getSpec.nodeName ≠ name ∧ (π.after p).getSpec.nodeName = name

theorem mem_arrivals {name : String} (hn : name ≠ "") (hp : p ∈ π.arrivals name) :
    p.getSpec.nodeName = "" ∧ (placed π.candidates p).getSpec.nodeName = name := by
  obtain ⟨-, hp⟩ := mem_filter.mp hp
  obtain ⟨hne, heq⟩ := of_decide_eq_true hp
  have h0 : p.getSpec.nodeName = "" := by
    by_contra h
    rw [π.after_assigned h] at heq
    exact hne heq
  refine ⟨h0, ?_⟩
  simp only [after] at heq
  split at heq
  · exact heq
  · exact absurd (h0.symm.trans heq) hn.symm

end Pass

/-! ### Refused again -/

variable {order podOrder nodeOrder : List String}

namespace Pass

section

variable {d : Deployment} {s : State} (π : Pass d s) (hs : Sound d.getMetadata.ns (s .pods))
  {name : String} (hn : name ≠ "")

include hs hn

theorem onNode_final (a : Amount) :
    onNode (π.final .pods) name (fun p => podAmount p a) =
      load (π.state₃.listed .pods "" π.podOrder) name a + podsAmount (π.arrivals name) a := by
  obtain ⟨ho, hl⟩ := π.listed_final hs
  rw [← load_listed ho, hl, load_map]
  · rfl
  · intro p _
    refine ⟨by rw [podAmount, podAmount, π.after_containers], fun h => ?_⟩
    rw [π.after_assigned (h ▸ hn)]
    exact h

/-- What is used on a node has grown by the pods that were put there. -/
theorem usage_final (ho : Finmap.IsOrder order (π.final.listing .pods "")) (a : Amount) :
    ((nodeUsageOf (π.final.listed .pods "" order)).getD name {}).amount a =
      ((nodeUsageOf (π.state₃.listed .pods "" π.podOrder)).getD name {}).amount a +
        Int64.ofInt (podsAmount (π.arrivals name) a) := by
  rw [amount_nodeUsage hn, amount_nodeUsage hn, load_listed ho, π.onNode_final hs hn,
    Int64.ofInt_add]

theorem ports_final (ho : Finmap.IsOrder order (π.final.listing .pods "")) :
    ((nodeUsageOf (π.state₃.listed .pods "" π.podOrder)).getD name {}).ports ⊆
      ((nodeUsageOf (π.final.listed .pods "" order)).getD name {}).ports := by
  intro q hq
  obtain ⟨p, hp, hnode, hc⟩ := (mem_ports_nodeUsage hn).mp hq
  obtain ⟨k, hl⟩ := π.mem_listed₃.mp hp
  refine (mem_ports_nodeUsage hn).mpr ⟨p, ?_, hnode, hc⟩
  refine (mem_listed ho).mpr ⟨k, .inl rfl, ?_⟩
  rw [π.lookup_final hs, hl, Option.map_some, π.after_assigned (hnode ▸ hn)]

end

section

variable {d : Deployment} {s : State} (π : Pass d s) (ho : Orderly d s)

include ho

theorem candidate_name_ne {n : NodeCandidate} (hc : n ∈ π.candidates) : n.name ≠ "" := by
  obtain ⟨k, node, hl, -, rfl⟩ := π.mem_candidates.mp hc
  intro he
  have hk : k = "" := (ho.nodes_named k node hl).symm.trans he
  rw [hk, ho.no_nameless_node] at hl
  cases hl

/-- The pods that were put on a node were taken by the candidate of that node. -/
theorem arrivals_eligible {node : Node} (hl : (s .nodes).lookup k = some node)
    (hn : node.getMetadata.name ≠ "") (hp : p ∈ π.arrivals node.getMetadata.name) :
    Eligible (requestOf p)
      (candidateOf (nodeUsageOf (π.state₃.listed .pods "" π.podOrder)) node) := by
  obtain ⟨h0, hplaced⟩ := π.mem_arrivals hn hp
  obtain ⟨n, hc, hname, he⟩ := placed_nodeName (p := p) (by rw [hplaced, h0]; exact hn)
  obtain ⟨k', node', hl', -, rfl⟩ := π.mem_candidates.mp hc
  -- two nodes of one name are stored at one key
  have hk : k' = k := by
    rw [← ho.nodes_named k' node' hl', ← ho.nodes_named k node hl, ← hplaced]
    exact hname
  subst hk
  rw [hl] at hl'
  cases hl'
  exact he

variable (h : Accountable d s)

include h

omit ho in
theorem nonneg₃ (hp : p ∈ π.state₃.listed .pods "" π.podOrder) : NonNegative p := by
  obtain ⟨k, hl⟩ := π.mem_listed₃.mp hp
  refine π.forall_state₃ h.pods_nonneg (fun node i c hc => ?_) k p hl
  rw [created_containers] at hc
  exact h.template_nonneg c hc

/-- **A pod that was refused is refused again.** -/
theorem refused_again (hov : NoOverflow π.final) {pod : PodRequest}
    (hr : schedule pod π.candidates = .error .noNodeAvailable)
    (hp : Finmap.IsOrder podOrder (π.final.listing .pods ""))
    (hno : Finmap.IsOrder nodeOrder (π.final.listing .nodes "")) :
    schedule pod (candidatesAt π.final podOrder nodeOrder) = .error .noNodeAvailable := by
  have hs := ho.pods
  rw [schedule_error_iff] at hr ⊢
  intro n hn he
  obtain ⟨k, node, hl, hsch, rfl⟩ := (mem_candidatesAt hno).mp hn
  rw [π.nodes_final] at hl
  have hmem : candidateOf (nodeUsageOf (π.state₃.listed .pods "" π.podOrder)) node ∈
      π.candidates := π.mem_candidates.mpr ⟨k, node, hl, hsch, rfl⟩
  have hne : node.getMetadata.name ≠ "" := π.candidate_name_ne ho hmem
  have hnn : ∀ p ∈ π.arrivals node.getMetadata.name, NonNegative p := fun p hp =>
    π.nonneg₃ h (mem_filter.mp hp).1
  have hlt : ∀ a, podsAmount (π.arrivals node.getMetadata.name) a < 2 ^ 63 := by
    intro a
    have hsum := π.onNode_final hs hne a
    have hle := hov _ hne a
    have h0 : 0 ≤ load (π.state₃.listed .pods "" π.podOrder) node.getMetadata.name a :=
      podsAmount_nonneg fun p hp => π.nonneg₃ h (mem_filter.mp hp).1
    omega
  exact hr _ hmem (eligible_of_fuller (π.usage_final hs hne hp) (π.ports_final hs hne hp) hnn hlt
    (fun p => π.arrivals_eligible ho hl hne) he)

/-- **Nothing is left to schedule.** -/
theorem owned_settled (hov : NoOverflow π.final)
    (hp : Finmap.IsOrder podOrder (π.final.listing .pods ""))
    (hno : Finmap.IsOrder nodeOrder (π.final.listing .nodes "")) {q : Pod} (hq : q ∈ π.owned) :
    ¬ Rewritten (candidatesAt π.final podOrder nodeOrder) q := by
  obtain ⟨p, -, rfl⟩ := mem_map.mp hq
  rintro ⟨h0, hmsg⟩
  rw [requestOf_placed] at hmsg
  by_cases hnode : p.getSpec.nodeName = ""
  · cases hsch : schedule (requestOf p) π.candidates with
    | error e =>
      -- the message is the one it was given when it was refused
      refine hmsg (π.refused_again ho h hov hsch hp hno) ?_
      simp only [placed, hnode, ne_eq, not_true_eq_false, if_false, hsch]
      rfl
    | ok name =>
      obtain ⟨n, hc, rfl, -⟩ := schedule_ok hsch
      refine π.candidate_name_ne ho hc ?_
      rw [← h0]
      simp only [placed, hnode, ne_eq, not_true_eq_false, if_false, hsch, assign]
      split <;> rfl
  · exact hnode (by rwa [placed, if_pos hnode] at h0)

end

end Pass

end NimbusCore.Controller
