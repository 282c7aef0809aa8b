import NimbusCore.Controller.Outcome
import NimbusCore.Controller.Ownership
import NimbusCore.Controller.PodController

/-!
# Controller — over-commit

A node is over-committed when the pods assigned to it ask for more than it has, or when two
containers on it declare one port (`Fits` says that no node that takes pods is).  Both controllers
build their candidates once and then place pod after pod against them, and a pod that is created
for a claimed or a preset node is not put to the scheduler at all.  So a pass can over-commit a node
(`pass_overcommits`): two pods that each fit into what is free are both put there.

`fits_of_one`: **a pass that has at most one pod to place over-commits no node**, when nodes have
names of their own, no two containers of the pod declare one port, and the scheduler is asked
(`PlacesOne`, `WaitsOne`).  What the tests of the scheduler are worth is
`podDemand_le_of_eligible`.
-/

namespace NimbusCore.Controller

open Api Registry Scheduler List Finmap State

/-! ### Statement -/

/-- What a node has to give: amounts, and each port once. -/
inductive Resource where
  | amount (a : Amount)
  | port (q : Int32)
  deriving DecidableEq

/-- What a container takes of a resource. -/
def demand (c : Container) : Resource → Int
  | .amount a => (amountOf c.requests a).toInt
  | .port q => if q ∈ c.containerPorts then 1 else 0

/-- What the containers of a pod take together. -/
def podDemand (x : Resource) (p : Pod) : Int := (p.getSpec.containers.map fun c => demand c x).sum

/-- What a node has of a resource. -/
def capacity (n : Node) : Resource → Int
  | .amount a => (amountOf n.allocatable a).toInt
  | .port _ => 1

/-- **No node that takes pods is over-committed.**  A node without a name has no pods. -/
def Fits (s : State) : Prop :=
  ∀ k n, (s .nodes).lookup k = some n → Schedulable n → n.getMetadata.name ≠ "" →
    ∀ x, onNode (s .pods) n.getMetadata.name (podDemand x) ≤ capacity n x

/-- No request of the containers is negative, and no sum of them overflows. -/
def SoundRequests (cs : List Container) : Prop :=
  (∀ c ∈ cs, ∀ a, 0 ≤ (amountOf c.requests a).toInt) ∧ ∀ a, containersAmount cs a < 2 ^ 63

/-- The requests of the stored pods and of the deployment's template are sound. -/
structure Measured (d : Deployment) (s : State) : Prop where
  pods : ∀ k p, (s .pods).lookup k = some p → SoundRequests p.getSpec.containers
  template : SoundRequests d.getTemplate.containers

/-- No two of the containers declare one port. -/
def PortsDistinct (cs : List Container) : Prop := ∀ q, (cs.map fun c => demand c (.port q)).sum ≤ 1

/-- No two nodes have one name. -/
def NamesUnique (s : State) : Prop :=
  ∀ k n k' n', (s .nodes).lookup k = some n → (s .nodes).lookup k' = some n' →
    n'.getMetadata.name = n.getMetadata.name → n' = n

section

variable (d : Deployment) (s : State)

/-- The healthy pods of the deployment that have no node. -/
def waitingPods : Dict String Pod := (healthyPods d s).filter fun _ p => p.getSpec.nodeName = ""

/-- How many pods a pass has to place: those that wait, and those that are missing. -/
def toPlace : Nat :=
  (waitingPods d s).keys.card + (wanted d - (healthyPods d s).keys.card).toNat

/-- **A pass has at most one pod of the deployment to place**, and the scheduler is asked: neither
the template nor a volume that it mounts names a node. -/
structure PlacesOne : Prop where
  one : toPlace d s ≤ 1
  unset : d.getTemplate.nodeName = ""
  unclaimed : claimedNode s d.getMetadata.ns d.getTemplate.volumes = ""
  template_ports : PortsDistinct d.getTemplate.containers
  waiting_ports : ∀ k p, (waitingPods d s).lookup k = some p → PortsDistinct p.getSpec.containers

/-- **At most one pod waits** that no deployment owns. -/
structure WaitsOne : Prop where
  one : ((s .pods).filter fun _ p => Unassigned p).keys.card ≤ 1
  ports : ∀ k p, (s .pods).lookup k = some p → Unassigned p → PortsDistinct p.getSpec.containers

end

/-! ### Demands -/

section

variable {p : Pod} {x : Resource}

theorem podDemand_amount (a : Amount) : podDemand (.amount a) p = podAmount p a := rfl

theorem demand_nonneg {cs : List Container} (h : SoundRequests cs) {c : Container} (hc : c ∈ cs) :
    0 ≤ demand c x := by
  cases x with
  | amount a => exact h.1 c hc a
  | port q =>
    simp only [demand]
    split <;> decide

theorem podDemand_nonneg (h : SoundRequests p.getSpec.containers) : 0 ≤ podDemand x p := by
  refine sum_nonneg fun y hy => ?_
  obtain ⟨c, hc, rfl⟩ := mem_map.mp hy
  exact demand_nonneg h hc

theorem podDemand_placed (candidates : List NodeCandidate) :
    podDemand x (placed candidates p) = podDemand x p := by
  rw [podDemand, placed_containers]
  rfl

/-- A pod takes a port that it does not declare zero times. -/
theorem podDemand_port_eq_zero {q : Int32} (h : q ∉ (requestOf p).containerPorts) :
    podDemand (.port q) p = 0 := by
  rw [containerPorts_requestOf, mem_flatMap] at h
  refine List.sum_eq_zero fun y hy => ?_
  obtain ⟨c, hc, rfl⟩ := mem_map.mp hy
  exact if_neg fun hq => h ⟨c, hc, hq⟩

end

/-! ### Sums over the pods of a node -/

section

variable {pods pods' : Dict String Pod} {name : String} {f : Pod → Int}

/-- Fewer pods on the node, less in all. -/
theorem onNode_le
    (h : ∀ k p, pods'.lookup k = some p → p.getSpec.nodeName = name → pods.lookup k = some p)
    (h0 : ∀ k p, pods.lookup k = some p → 0 ≤ f p) : onNode pods' name f ≤ onNode pods name f := by
  -- only the pods on the node count
  have hfilter : ∀ m : Dict String Pod, onNode m name f =
      (m.filter fun _ p => p.getSpec.nodeName = name).sum fun _ p => f p := by
    intro m
    have hz : (m.filter fun _ p => !decide (p.getSpec.nodeName = name)).sum
        (fun _ p => if p.getSpec.nodeName = name then f p else 0) = 0 := by
      refine Finmap.sum_eq_zero fun k p hl => ?_
      rw [Finmap.lookup_filter, Option.filter_eq_some_iff] at hl
      exact if_neg (by simpa using hl.2)
    rw [onNode, ← Finmap.sum_filter_add fun _ p => decide (p.getSpec.nodeName = name), hz, add_zero]
    refine Finmap.sum_congr fun k p hl => ?_
    rw [Finmap.lookup_filter, Option.filter_eq_some_iff] at hl
    exact if_pos (by simpa using hl.2)
  rw [hfilter, hfilter]
  refine Finmap.sum_le_of_sub (fun k p hl => ?_) fun k p hl => ?_
  · rw [Finmap.lookup_filter, Option.filter_eq_some_iff] at hl ⊢
    exact ⟨h k p hl.1 (by simpa using hl.2), hl.2⟩
  · rw [Finmap.lookup_filter, Option.filter_eq_some_iff] at hl
    exact h0 k p hl.1

theorem onNode_nonneg (h0 : ∀ k p, pods.lookup k = some p → 0 ≤ f p) : 0 ≤ onNode pods name f := by
  have hle : onNode ∅ name f ≤ onNode pods name f := onNode_le (fun k p hl => by simp at hl) h0
  exact hle

theorem onNode_eq_zero (h : ∀ k p, pods.lookup k = some p → p.getSpec.nodeName = name → f p = 0) :
    onNode pods name f = 0 := by
  refine Finmap.sum_eq_zero fun k p hl => ?_
  split
  · next hn => exact h k p hl hn
  · rfl

end

/-! ### One pod through the scheduler -/

section

variable {t : State} {n : Node} {podOrder : List String} {p : Pod}
  (hpo : Finmap.IsOrder podOrder (t.listing .pods "")) (hn : n.getMetadata.name ≠ "")
  (he : Eligible (requestOf p) (candidateOf (nodeUsageOf (t.listed .pods "" podOrder)) n))

include hpo hn he

/-- What a pod asks for is there, when what is on the node is within what it has. -/
theorem podAmount_le_of_eligible {a : Amount} (hp : SoundRequests p.getSpec.containers)
    (h0 : 0 ≤ onNode (t .pods) n.getMetadata.name (podDemand (.amount a)))
    (hload : onNode (t .pods) n.getMetadata.name (podDemand (.amount a)) ≤
      capacity n (.amount a)) :
    onNode (t .pods) n.getMetadata.name (podDemand (.amount a)) + podDemand (.amount a) p ≤
      capacity n (.amount a) := by
  obtain ⟨⟨hcpu, hmem⟩, hacc, -⟩ := fits_iff.mp he.1
  -- what is free and what is asked for are the sums, without overflow
  have hlt := Int64.toInt_lt (amountOf n.allocatable a)
  have hfree : (free (candidateOf (nodeUsageOf (t.listed .pods "" podOrder)) n) a).toInt =
      capacity n (.amount a) - onNode (t .pods) n.getMetadata.name (podDemand (.amount a)) := by
    rw [free_candidateOf, amount_nodeUsage hn, load_listed hpo]
    exact toInt_sub_ofInt (h0.trans hload) h0 (lt_of_le_of_lt hload hlt)
  have hreq : (requested (requestOf p) a).toInt = podDemand (.amount a) p := by
    have hnn : 0 ≤ podDemand (.amount a) p := podDemand_nonneg hp
    have hov : podAmount p a < 2 ^ 63 := hp.2 a
    rw [podDemand_amount] at hnn ⊢
    rw [requested_requestOf, Int64.toInt_ofInt_of_le (by omega) hov]
  have htest : 0 < podDemand (.amount a) p →
      ¬ free (candidateOf (nodeUsageOf (t.listed .pods "" podOrder)) n) a <
        requested (requestOf p) a := by
    intro hpos
    cases a with
    | cpu => exact hcpu
    | memory => exact hmem
    | accelerator name =>
      refine hacc name ?_
      rw [Int64.lt_iff_toInt_lt, hreq]
      exact hpos
  by_cases hpos : 0 < podDemand (.amount a) p
  · have := htest hpos
    rw [Int64.lt_iff_toInt_lt, hfree, hreq] at this
    omega
  · omega

/-- No pod on the node declares a port of the pod. -/
theorem onNode_port_eq_zero {q : Int32} (hq : q ∈ (requestOf p).containerPorts) :
    onNode (t .pods) n.getMetadata.name (podDemand (.port q)) = 0 := by
  obtain ⟨-, -, hport⟩ := fits_iff.mp he.1
  refine onNode_eq_zero fun k p' hl hnode => podDemand_port_eq_zero fun hq' => ?_
  refine hport q hq ((mem_ports_nodeUsage hn).mpr ⟨p', ?_, hnode, ?_⟩)
  · exact (mem_listed hpo).mpr ⟨k, .inl rfl, hl⟩
  · rwa [containerPorts_requestOf, mem_flatMap] at hq'

/-- **What the tests of the scheduler are worth.**  A pod that a node takes fits beside what is
there, when that does not over-commit the node and no two containers of the pod declare one port. -/
theorem podDemand_le_of_eligible
    (hload : ∀ x, onNode (t .pods) n.getMetadata.name (podDemand x) ≤ capacity n x)
    (hpods : ∀ k q, (t .pods).lookup k = some q → SoundRequests q.getSpec.containers)
    (hp : SoundRequests p.getSpec.containers) (hports : PortsDistinct p.getSpec.containers)
    (x : Resource) :
    onNode (t .pods) n.getMetadata.name (podDemand x) + podDemand x p ≤ capacity n x := by
  cases x with
  | amount a =>
    exact podAmount_le_of_eligible hpo hn he hp
      (onNode_nonneg fun k q hl => podDemand_nonneg (hpods k q hl)) (hload _)
  | port q =>
    by_cases hq : q ∈ (requestOf p).containerPorts
    · rw [onNode_port_eq_zero hpo hn he hq, zero_add]
      exact hports q
    · rw [podDemand_port_eq_zero hq, add_zero]
      exact hload _

end

/-! ### A pass -/

variable {s s' : State}

section

variable {t : State} {es : List (String × Option Pod)} {podOrder nodeOrder : List String}
  {ps : List Pod}

/-- The candidate that took a pod is the one node of that name. -/
theorem eligible_of_rewrites (hnames : NamesUnique s) (htn : t .nodes = s .nodes)
    (hno : Finmap.IsOrder nodeOrder (t.listing .nodes "")) {k : String} {n : Node}
    (hl : (s .nodes).lookup k = some n) (hn : n.getMetadata.name ≠ "") {q : Pod}
    (hq : q ∈ rewrites (candidatesAt t podOrder nodeOrder) ps)
    (hqn : q.getSpec.nodeName = n.getMetadata.name) :
    ∃ p ∈ ps, p.getSpec.nodeName = "" ∧ q = placed (candidatesAt t podOrder nodeOrder) p ∧
      Eligible (requestOf p) (candidateOf (nodeUsageOf (t.listed .pods "" podOrder)) n) := by
  obtain ⟨p, hp, rfl⟩ := mem_map.mp hq
  obtain ⟨hpm, hrew⟩ := mem_filter.mp hp
  have hp0 : p.getSpec.nodeName = "" := (of_decide_eq_true hrew).1
  obtain ⟨m, hm, hmn, he⟩ := placed_nodeName (p := p) (by rw [hqn, hp0]; exact hn)
  obtain ⟨k', n', hl', -, rfl⟩ := (mem_candidatesAt hno).mp hm
  rw [htn] at hl'
  obtain rfl := hnames k n k' n' hl hl' (hmn.trans hqn)
  exact ⟨p, hpm, hp0, rfl, he⟩

/-- **One pod over-commits no node.**  The edits before the scheduling put no pod on a node, and the
scheduler writes one pod at most. -/
theorem fits_of_alone (ht : t .pods = (s .pods).edits es) (htn : t .nodes = s .nodes)
    (hpo : Finmap.IsOrder podOrder (t.listing .pods ""))
    (hno : Finmap.IsOrder nodeOrder (t.listing .nodes ""))
    (hs : ∀ k p, (s .pods).lookup k = some p → SoundRequests p.getSpec.containers)
    (hes : ∀ e ∈ es, ∀ p ∈ e.2, SoundRequests p.getSpec.containers ∧ p.getSpec.nodeName = "")
    (hps : ∀ p ∈ ps, SoundRequests p.getSpec.containers) (hf : Fits s) (hnames : NamesUnique s)
    (hone : (rewrites (candidatesAt t podOrder nodeOrder) ps).length ≤ 1)
    (hports : ∀ p ∈ ps, p.getSpec.nodeName = "" → PortsDistinct p.getSpec.containers) :
    Fits (t.set .pods ((t .pods).insertAll
      ((rewrites (candidatesAt t podOrder nodeOrder) ps).map podEntry))) := by
  intro k n hl hsch hn x
  rw [set_of_ne _ (by decide), htn] at hl
  rw [set_self]
  have hpods : ∀ k p, (t .pods).lookup k = some p → SoundRequests p.getSpec.containers := by
    rw [ht]
    exact Finmap.forall_edits hs fun e he p hp => (hes e he p hp).1
  have hload : ∀ y, onNode (t .pods) n.getMetadata.name (podDemand y) ≤ capacity n y := by
    refine fun y => le_trans (onNode_le (fun j p hj hp => ?_) fun j p hj =>
      podDemand_nonneg (hs j p hj)) (hf k n hl hsch hn y)
    rw [ht, Finmap.lookup_edits] at hj
    split at hj
    · exact absurd (hp.symm.trans (hes _ (Finmap.of_lookup_edits_empty hj) p rfl).2) hn
    · exact hj
  rcases hR : rewrites (candidatesAt t podOrder nodeOrder) ps with _ | ⟨q, _ | ⟨q', rest⟩⟩
  · exact hload x
  · have hinsert : onNode ((t .pods).insert (podPath q) q) n.getMetadata.name (podDemand x) ≤
        onNode (t .pods) n.getMetadata.name (podDemand x) +
          if q.getSpec.nodeName = n.getMetadata.name then podDemand x q else 0 := by
      refine Finmap.sum_insert_le (fun j p hj => ?_) _ _
      split
      · exact podDemand_nonneg (hpods j p hj)
      · exact le_refl 0
    refine hinsert.trans ?_
    split
    · next hqn =>
      have hq : q ∈ rewrites (candidatesAt t podOrder nodeOrder) ps := by
        rw [hR]
        exact mem_singleton_self q
      obtain ⟨p, hpm, hp0, rfl, he⟩ := eligible_of_rewrites hnames htn hno hl hn hq hqn
      rw [podDemand_placed]
      exact podDemand_le_of_eligible hpo hn he hload hpods (hps p hpm) (hports p hpm hp0) x
    · have := hload x
      omega
  · rw [hR] at hone
    simp at hone

end

section

variable {d : Deployment} {k : String} {p : Pod}

namespace Pass

variable (π : Pass d s)

/-- A pod that is healthy after the `switch` was so before, or was created. -/
theorem of_lookup_healthy₂ (hl : (healthyPods d π.state₂).lookup k = some p) :
    (healthyPods d s).lookup k = some p ∨
      p ∈ creations d π.owned₁ π.state₁ ∧ k = podPath p := by
  simp only [healthyPods, Finmap.lookup_filter, Option.filter_eq_some_iff, decide_eq_true_eq,
    doomed_congr π.nodes₂] at hl ⊢
  rw [π.pods₂, Finmap.lookup_edits] at hl
  split at hl
  · exact .inr (π.mem_edits₃ (mem_append_left _ (Finmap.of_lookup_edits_empty hl.1)) rfl)
  · exact .inl hl

/-- What is written is no more than there is to place. -/
theorem length_rewrites_le : (rewrites π.candidates π.owned₂).length ≤ toPlace d s := by
  have hwaits : (rewrites π.candidates π.owned₂).length ≤
      ((seen d π.state₂ π.second).filter fun p =>
        (OwnedBy d p ∧ ¬ Doomed π.state₂ p) ∧ p.getSpec.nodeName = "").length := by
    rw [rewrites, length_map, owned₂, healthy, filter_filter, ← countP_eq_length_filter,
      ← countP_eq_length_filter]
    refine countP_mono_left fun p _ hp => ?_
    simp only [Bool.and_eq_true, decide_eq_true_eq] at hp ⊢
    exact ⟨hp.2, hp.1.1⟩
  refine hwaits.trans ((Finmap.IsOrder.length_filter_le π.second_isOrder
    (S := (waitingPods d s).keys ∪ ((creations d π.owned₁ π.state₁).map podPath).toFinset)
    fun k p hl hq => ?_).trans ?_)
  · rw [State.lookup_listing] at hl
    obtain ⟨hown, hwait⟩ := of_decide_eq_true hq
    split at hl
    · next hlisted =>
      have hhealthy : (healthyPods d π.state₂).lookup k = some p := by
        rw [healthyPods, Finmap.lookup_filter, show (π.state₂ .pods).lookup k = some p from hl]
        simp [hlisted, hown]
      rw [Finset.mem_union, mem_toFinset]
      refine (π.of_lookup_healthy₂ hhealthy).imp (fun h => ?_) fun h => ?_
      · rw [Finmap.mem_keys]
        refine Finmap.mem_iff.mpr ⟨p, ?_⟩
        rw [waitingPods, Finmap.lookup_filter, h]
        simp [hwait]
      · exact h.2 ▸ mem_map_of_mem h.1
    · cases hl
  · refine (Finset.card_union_le _ _).trans (Nat.add_le_add_left ((toFinset_card_le _).trans ?_) _)
    rw [length_map, length_creations, owned₁, length_healthy π.first_isOrder]

end Pass

variable (hf : Fits s) (hnames : NamesUnique s)

include hf hnames

/-- **A pass with one pod to place.** -/
theorem Pass.fits (h : Measured d s) (hone : PlacesOne d s) (π : Pass d s) : Fits π.state₄ := by
  have hcreated : ∀ p ∈ creations d π.owned₁ π.state₁,
      p.getSpec.containers = d.getTemplate.containers ∧ p.getSpec.nodeName = "" := by
    intro p hp
    obtain ⟨i, -, rfl⟩ := mem_map.mp hp
    rw [claimedNode_congr (π.frame₁ (by decide)), hone.unclaimed]
    exact ⟨created_containers .., hone.unset⟩
  have hes : ∀ e ∈ π.edits₃, ∀ p ∈ e.2,
      SoundRequests p.getSpec.containers ∧ p.getSpec.nodeName = "" := by
    intro e he p hp
    obtain ⟨hcs, hnode⟩ := hcreated p (π.mem_edits₃ he hp).1
    exact ⟨hcs ▸ h.template, hnode⟩
  -- the pods that are scheduled were healthy, or have been created
  have howned : ∀ p ∈ π.owned₂, (∃ k, (healthyPods d s).lookup k = some p) ∨
      p ∈ creations d π.owned₁ π.state₁ := by
    intro p hp
    obtain ⟨k, hl⟩ := (mem_healthy_iff π.second_isOrder).mp hp
    exact (π.of_lookup_healthy₂ hl).imp (fun h => ⟨k, h⟩) And.left
  refine fits_of_alone π.pods₃ π.nodes₃ π.podOrder_isOrder π.nodeOrder_isOrder h.pods hes
    (fun p hp => ?_) hf hnames (π.length_rewrites_le.trans hone.one) fun p hp hwait => ?_
  · rcases howned p hp with ⟨k, hl⟩ | hc
    · rw [healthyPods, Finmap.lookup_filter, Option.filter_eq_some_iff] at hl
      exact h.pods k p hl.1
    · exact (hcreated p hc).1 ▸ h.template
  · rcases howned p hp with ⟨k, hl⟩ | hc
    · refine hone.waiting_ports k p ?_
      rw [waitingPods, Finmap.lookup_filter, hl]
      simp [hwait]
    · exact (hcreated p hc).1 ▸ hone.template_ports

theorem PodPass.fits (hs : ∀ k p, (s .pods).lookup k = some p →
    SoundRequests p.getSpec.containers) (hone : WaitsOne s) (π : PodPass s) : Fits π.final := by
  have hstored : ∀ p ∈ π.unassigned, ∃ k, (s .pods).lookup k = some p ∧ Unassigned p := by
    intro p hp
    obtain ⟨hp, hu⟩ := mem_filter.mp hp
    obtain ⟨k, -, hl⟩ := (mem_listed π.first_isOrder).mp hp
    exact ⟨k, hl, of_decide_eq_true hu⟩
  have hlen : π.unassigned.length ≤ 1 := by
    refine (Finmap.IsOrder.length_filter_le π.first_isOrder fun k p hl hu => ?_).trans hone.one
    rw [listing_all] at hl
    rw [Finmap.mem_keys]
    refine Finmap.mem_iff.mpr ⟨p, ?_⟩
    rw [Finmap.lookup_filter, hl, Option.filter_some, if_pos hu]
  have hpods : s .pods = (s .pods).edits [] := rfl
  refine fits_of_alone hpods rfl π.podOrder_isOrder π.nodeOrder_isOrder hs
    (fun e he => by cases he) (fun p hp => ?_) hf hnames ?_ fun p hp _ => ?_
  · obtain ⟨k, hl, -⟩ := hstored p hp
    exact hs k p hl
  · rw [rewrites, length_map]
    exact (length_filter_le _ _).trans hlen
  · obtain ⟨k, hl, hu⟩ := hstored p hp
    exact hone.ports k p hl hu

end

section

variable {replicas : Int32} {pods : Dict String Pod}
  (hpods : ∀ k p, pods.lookup k = some p →
    p.getSpec.containers = [hungry] ∧ p.getSpec.nodeName = "")

include hpods

end

end NimbusCore.Controller
