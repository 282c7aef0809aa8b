import NimbusCore.Controller.Autoscaler
import NimbusCore.Controller.CapacityEstimate

/-!
# Controller — the bounds of the autoscaler

What `HorizontalAutoscaler.reconcileOne` writes, given the pods and the nodes it has seen and any
target.  The numbers of the code are 32 bits wide; what they stand for are integers.

* `ScaleBounds`: what is asked of a number that is written.
* `autoscaler_bounds_iff`: **whatever is written is within the bounds**, exactly if the deployment
  gives a count, or fewer than `2 ^ 31` of its pods are running.  That number of running pods is
  converted to 32 bits.
* `running_pods_wrap`: with `2 ^ 32` running pods the autoscaler scales to zero.
-/

namespace NimbusCore.Controller

open Api Registry Scheduler Prog List Int64 Int32

/-! ### What the pods use on the nodes -/

/-- What the pods ask for on a node.  A pod without a node is not counted anywhere. -/
def usedOn (pods : List Pod) (name : String) (a : Amount) : Int :=
  if name = "" then 0 else load pods name a

/-- What can be allocated on the nodes that can be scheduled on, less what the pods ask for
there. -/
def clusterFree (pods : List Pod) (nodes : List Node) (a : Amount) : Int :=
  ((nodes.filter fun n => Schedulable n).map fun n =>
    (amountOf n.allocatable a).toInt - usedOn pods n.getMetadata.name a).sum

/-- No usage is kept for the empty name. -/
theorem lookup_nodeUsageOf_empty (pods : List Pod) : (nodeUsageOf pods).lookup "" = none := by
  -- the induction is on the pods still to be counted, from any usage without the empty name
  have key : ∀ (pods : List Pod) (usage : Dict String NodeResourceUsage), usage.lookup "" = none →
      (pods.foldl (fun usage p =>
        if p.getSpec.nodeName = "" then usage
        else usage.insert p.getSpec.nodeName
          (p.getSpec.containers.foldl NodeResourceUsage.add
            (usage.getD p.getSpec.nodeName {}))) usage).lookup "" = none := by
    intro pods
    induction pods with
    | nil => exact fun _ h => h
    | cons p pods ih =>
      intro usage h
      rw [foldl_cons]
      refine ih _ ?_
      split
      · exact h
      · next hn => rw [Finmap.lookup_insert_of_ne _ (Ne.symm hn)]; exact h
  exact key pods ∅ (Finmap.lookup_empty _)

theorem amount_nodeUsage_eq (pods : List Pod) (name : String) (a : Amount) :
    ((nodeUsageOf pods).getD name {}).amount a = Int64.ofInt (usedOn pods name a) := by
  rw [usedOn]
  split
  · next hn =>
    rw [hn, Finmap.getD, lookup_nodeUsageOf_empty]
    cases a with
    | cpu => rfl
    | memory => rfl
    | accelerator _ => simp [NodeResourceUsage.amount]
  · next hn => exact amount_nodeUsage hn pods

/-- **What is left in the cluster**, from the pods and the nodes that were listed. -/
theorem remaining_nodeUsageOf (pods : List Pod) (nodes : List Node) (a : Amount) :
    (capacityOf (nodeUsageOf pods) nodes).capacity a -
      (capacityOf (nodeUsageOf pods) nodes).used a =
      Int64.ofInt (clusterFree pods nodes a) := by
  have key : ∀ l : List Node, Int64.ofInt ((l.map (freeOn (nodeUsageOf pods) a)).sum) =
      Int64.ofInt ((l.map fun n =>
        (amountOf n.allocatable a).toInt - usedOn pods n.getMetadata.name a).sum) := by
    intro l
    induction l with
    | nil => rfl
    | cons n l ih =>
      rw [map_cons, sum_cons, Int64.ofInt_add, ih, map_cons, sum_cons,
        Int64.ofInt_add, freeOn, Int64.ofInt_sub, Int64.ofInt_toInt, Int64.ofInt_toInt,
        amount_nodeUsage_eq, Int64.ofInt_sub, Int64.ofInt_toInt]
  rw [remaining_capacityOf]
  exact key _

variable {cur desired : Int32} {pods : List Pod} {nodes : List Node}

namespace HorizontalAutoscaler

/-- What one replica asks for, in the sums of the autoscaler. -/
theorem perAmount_perReplica (d : Deployment) (a : Amount) :
    perAmount (perReplica d) a = Int64.ofInt (containersAmount d.getTemplate.containers a) := by
  have h0 : perAmount (0, 0, ∅) a = 0 := by
    cases a with
    | cpu => rfl
    | memory => rfl
    | accelerator _ => simp [perAmount]
  refine (measure_foldl (μ := (perAmount · a)) (fun per c => ?_) _ (0, 0, ∅)).trans
    (by rw [h0, Int64.zero_add]; rfl)
  rw [Int64.ofInt_toInt]
  cases a with
  | cpu => rfl
  | memory => rfl
  | accelerator name => exact Finmap.getD_addAll rfl _ _ _

/-! ### What is asked of a number that is written -/

/-- `cur`: the count of the deployment, or the number of its running pods. -/
def current (d : Deployment) (running : Nat) : Int :=
  if 0 < d.getSpec.replicas.toInt then d.getSpec.replicas.toInt else running

/-- The target between the bounds of the deployment. -/
def clamped (d : Deployment) (desired : Int) : Int :=
  min d.getSpec.maxReplicas.toInt (max (minReplicas d).toInt desired)

/-- What the template asks for. -/
def templateAmount (d : Deployment) (a : Amount) : Int :=
  containersAmount d.getTemplate.containers a

/-- What was listed of the cluster, if that was asked for. -/
abbrev Cluster := Option (List Pod × List Node)

/-- The sums fit into 64 bits. -/
def SumsFit (d : Deployment) (cluster : Cluster) : Prop :=
  ∀ a, (-2 ^ 63 ≤ templateAmount d a ∧ templateAmount d a < 2 ^ 63) ∧
    ∀ pods nodes, cluster = some (pods, nodes) →
      -2 ^ 63 ≤ clusterFree pods nodes a ∧ clusterFree pods nodes a < 2 ^ 63

/-- `maxAdditional`. -/
def extra (d : Deployment) (pods : List Pod) (nodes : List Node) : Int32 :=
  (capacityOf (nodeUsageOf pods) nodes).maxAdditionalReplicas (perReplica d).1 (perReplica d).2.1
    (perReplica d).2.2

/-- The conversion of the number of running pods, the two differences and the sum are exact. -/
def NoOverflow (d : Deployment) (running : Nat) (desired : Int32) (cluster : Cluster) : Prop :=
  (currentReplicas d running).toInt = current d running ∧
  ∀ pods nodes, cluster = some (pods, nodes) →
    (desired - currentReplicas d running).toInt = desired.toInt - current d running ∧
    ((extra d pods nodes).toInt < desired.toInt - current d running →
      (currentReplicas d running + extra d pods nodes).toInt =
        current d running + (extra d pods nodes).toInt ∧
      (desired - (currentReplicas d running + extra d pods nodes)).toInt =
        desired.toInt - (current d running + (extra d pods nodes).toInt))

/-- **What is asked of a number that is written**, for a target. -/
structure ScaleBounds (d : Deployment) (running : Nat) (desired : Int32) (cluster : Cluster)
    (r : Int) : Prop where
  positive : 1 ≤ r
  le_max : r ≤ d.getSpec.maxReplicas.toInt
  ge_min : min (min (minReplicas d).toInt d.getSpec.maxReplicas.toInt) (current d running) ≤ r
  room : current d running < r → ∃ pods nodes, cluster = some (pods, nodes) ∧
    ∀ a, 0 < templateAmount d a → (r - current d running) * templateAmount d a ≤
      clusterFree pods nodes a
  tight : r < clamped d desired.toInt → ∃ pods nodes, cluster = some (pods, nodes) ∧
    ∃ a, 0 < templateAmount d a ∧
      clusterFree pods nodes a < (r + 1 - current d running) * templateAmount d a
  noOverflow : NoOverflow d running (bounded d desired) cluster

/-- **The deployment gives a count, or the number of its running pods has one.** -/
def CountsRunning (d : Deployment) (running : Nat) : Prop :=
  0 < d.getSpec.replicas.toInt ∨ running < 2 ^ 31

/-! ### The numbers of the code -/

section

variable {d : Deployment} {running : Nat}

theorem toInt_bounded (d : Deployment) (desired : Int32) :
    (bounded d desired).toInt = clamped d desired.toInt := by
  simp only [bounded, clamped, Int32.lt_iff_toInt_lt]
  split <;> split <;> omega

theorem minReplicas_pos (d : Deployment) : 1 ≤ (minReplicas d).toInt := by
  have hone : (1 : Int32).toInt = 1 := rfl
  have hzero : (0 : Int32).toInt = 0 := rfl
  simp only [minReplicas, Int32.le_iff_toInt_le]
  split <;> omega

theorem current_pos (hn : running ≠ 0) : 1 ≤ current d running := by
  rw [current]
  split <;> omega

/-- **The conversion is exact** exactly if the number has one. -/
theorem toInt_currentReplicas_iff :
    (currentReplicas d running).toInt = current d running ↔ CountsRunning d running := by
  have hzero : (0 : Int32).toInt = 0 := rfl
  simp only [currentReplicas, current, CountsRunning, Int32.le_iff_toInt_le, hzero]
  by_cases hpos : 0 < d.getSpec.replicas.toInt
  · rw [if_neg (by omega), if_pos hpos]
    exact iff_of_true rfl (.inl hpos)
  · rw [if_pos (by omega), if_neg hpos]
    constructor
    · intro h
      have := toInt_lt (Int32.ofNat running)
      omega
    · intro h
      exact toInt_ofNat_of_lt (h.resolve_left hpos)

/-- What `capToClusterCapacity` makes of the numbers. -/
def cappedBy (maxAdditional currentReplicas desired : Int32) : Int32 :=
  if desired - currentReplicas ≤ maxAdditional then desired
  else if currentReplicas + maxAdditional < currentReplicas then currentReplicas
  else currentReplicas + maxAdditional

/-- What it returns, from what was listed. -/
def capped (d : Deployment) (pods : List Pod) (nodes : List Node) : Int32 → Int32 → Int32 :=
  cappedBy (extra d pods nodes)

theorem extra_nonneg (d : Deployment) (pods : List Pod) (nodes : List Node) :
    0 ≤ (extra d pods nodes).toInt :=
  maxAdditionalReplicas_nonneg _ _

/-- A rise from a count that is not negative does not overflow, and ends at what there is room
for. -/
theorem capped_spec (pods : List Pod) (nodes : List Node) (h0 : 0 ≤ cur.toInt)
    (hlt : cur.toInt < desired.toInt) :
    (desired - cur).toInt = desired.toInt - cur.toInt ∧
    ((extra d pods nodes).toInt < desired.toInt - cur.toInt →
      (cur + extra d pods nodes).toInt = cur.toInt + (extra d pods nodes).toInt ∧
      (desired - (cur + extra d pods nodes)).toInt =
        desired.toInt - (cur.toInt + (extra d pods nodes).toInt)) ∧
    (capped d pods nodes cur desired).toInt =
      min desired.toInt (cur.toInt + (extra d pods nodes).toInt) := by
  have he := extra_nonneg d pods nodes
  have hd := toInt_lt desired
  have hwant : (desired - cur).toInt = desired.toInt - cur.toInt := by
    rw [Int32.toInt_sub, Int.bmod_eq_of_le (by omega) (by omega)]
  have hsum : (extra d pods nodes).toInt < desired.toInt - cur.toInt →
      (cur + extra d pods nodes).toInt = cur.toInt + (extra d pods nodes).toInt := by
    intro h
    rw [Int32.toInt_add, Int.bmod_eq_of_le (by omega) (by omega)]
  refine ⟨hwant, fun h => ⟨hsum h, ?_⟩, ?_⟩
  · rw [Int32.toInt_sub, hsum h, Int.bmod_eq_of_le (by omega) (by omega)]
  · simp only [capped, cappedBy, Int32.le_iff_toInt_le, Int32.lt_iff_toInt_lt, hwant]
    split
    · omega
    · next hle =>
      rw [hsum (by omega), if_neg (by omega), hsum (by omega)]
      omega

/-- A number of replicas is within what there is room for. -/
theorem le_extra_iff {k : Int} (hfit : SumsFit d (some (pods, nodes))) (h0 : 0 < k)
    (hk : k < 2 ^ 31) :
    k ≤ (extra d pods nodes).toInt ↔
      ∀ a, 0 < templateAmount d a → k * templateAmount d a ≤ clusterFree pods nodes a := by
  rw [extra, le_maxAdditionalReplicas_iff (perReplica d) (by omega) hk]
  refine forall_congr' fun a => ?_
  obtain ⟨⟨hlo, hhi⟩, hfree⟩ := hfit a
  obtain ⟨hlo', hhi'⟩ := hfree pods nodes rfl
  have hper : (perAmount (perReplica d) a).toInt = templateAmount d a := by
    rw [perAmount_perReplica]
    exact toInt_ofInt_of_le hlo hhi
  rw [hper, remaining_nodeUsageOf, toInt_ofInt_of_le hlo' hhi']
  exact ⟨fun h hp => h hp h0, fun h hp _ => h hp⟩

/-! ### Within the bounds -/

/-- A number that does not rise needs no room. -/
theorem scaleBounds_of_le (hmax : 0 < d.getSpec.maxReplicas.toInt)
    (hcounts : CountsRunning d running) (hle : clamped d desired.toInt ≤ current d running) :
    ScaleBounds d running desired none (clamped d desired.toInt) := by
  have hmin := minReplicas_pos d
  have hbounds : 1 ≤ clamped d desired.toInt ∧
      clamped d desired.toInt ≤ d.getSpec.maxReplicas.toInt ∧
      min (minReplicas d).toInt d.getSpec.maxReplicas.toInt ≤ clamped d desired.toInt := by
    rw [clamped]
    omega
  refine ⟨hbounds.1, hbounds.2.1, ?_, ?_, ?_, ?_⟩
  · omega
  · intro h; omega
  · intro h; omega
  · exact ⟨toInt_currentReplicas_iff.mpr hcounts, fun _ _ h => by cases h⟩

/-- **A rise is within what there is room for**, and no further below the target than that. -/
theorem scaleBounds_of_lt (hmax : 0 < d.getSpec.maxReplicas.toInt) (hn : running ≠ 0)
    (hcounts : CountsRunning d running) (hfit : SumsFit d (some (pods, nodes)))
    (hlt : current d running < clamped d desired.toInt) :
    ScaleBounds d running desired (some (pods, nodes))
      (capped d pods nodes (currentReplicas d running) (bounded d desired)).toInt := by
  have hcur := toInt_currentReplicas_iff.mpr hcounts
  have hpos := current_pos (d := d) hn
  have hmin := minReplicas_pos d
  have he := extra_nonneg d pods nodes
  have hbounds : 1 ≤ clamped d desired.toInt ∧
      clamped d desired.toInt ≤ d.getSpec.maxReplicas.toInt := by
    rw [clamped]
    omega
  have hm := toInt_lt d.getSpec.maxReplicas
  have hrise : (currentReplicas d running).toInt < (bounded d desired).toInt := by
    rw [hcur, toInt_bounded]
    exact hlt
  obtain ⟨hwant, hsum, hr⟩ := capped_spec (d := d) pods nodes (by omega) hrise
  rw [hcur] at hwant hsum
  rw [hcur, toInt_bounded] at hr
  rw [hr]
  refine ⟨by omega, by omega, by omega, fun h => ⟨pods, nodes, rfl, ?_⟩,
    fun h => ⟨pods, nodes, rfl, ?_⟩, ⟨hcur, ?_⟩⟩
  · exact (le_extra_iff hfit (by omega) (by omega)).mp (by omega)
  · -- one replica more is not within what there is room for
    have hmore : ¬ (extra d pods nodes).toInt + 1 ≤ (extra d pods nodes).toInt := by omega
    rw [le_extra_iff hfit (by omega) (by omega)] at hmore
    simp only [not_forall, not_le] at hmore
    obtain ⟨a, ha, hlt⟩ := hmore
    refine ⟨a, ha, ?_⟩
    have hk : min (clamped d desired.toInt) (current d running + (extra d pods nodes).toInt) + 1 -
        current d running = (extra d pods nodes).toInt + 1 := by omega
    rw [hk]
    exact hlt
  · intro pods' nodes' h
    cases h
    exact ⟨hwant, hsum⟩

end

/-! ### What is written -/

/-- What was listed before the deployment is fetched again, newest first. -/
def listed (d : Deployment) (all : List Pod) : Cluster → List (Prog.Done Cmd Cmd.Answer)
  | none => [⟨.list .pods d.getMetadata.ns, .ok all⟩]
  | some (pods, nodes) => [⟨.list .nodes "", .ok nodes⟩, ⟨.list .pods "", .ok pods⟩,
      ⟨.list .pods d.getMetadata.ns, .ok all⟩]

/-- The target of the autoscaler, from the pods that were listed. -/
def desiredOf (target : Target) (d : Deployment) (targetMemory : Int64) (all : List Pod) : Int32 :=
  target (currentReplicas d (runningUsages d all).length) (runningUsages d all) targetMemory

/-- The memory that the first container asks for. -/
def targetMemory (d : Deployment) : Int64 :=
  (d.getTemplate.containers.headD {}).requests.memoryBytes

/-- Nothing is written but the deployment that was fetched, and the number in it is within the
bounds exactly if the running pods have a count. -/
def WritesWithin (target : Target) (d : Deployment) (h : List (Prog.Done Cmd Cmd.Answer)) :
    Cmd → Prop
  | .put .deployments _ _ d' => ∃ fetched all cluster,
      h = ⟨.get .deployments d.getMetadata.ns d.getMetadata.name, .ok fetched⟩ ::
        listed d all cluster ∧
      (SumsFit d cluster →
        (ScaleBounds d (runningUsages d all).length
          (desiredOf target d (targetMemory d) all) cluster
          d'.getSpec.replicas.toInt ↔ CountsRunning d (runningUsages d all).length))
  | .put _ _ _ _ | .delete _ _ _ => False
  | .get _ _ _ | .list _ _ => True

section

variable {target : Target} {d : Deployment} {all : List Pod} {r : Int32}
  {Φ : List (Prog.Done Cmd Cmd.Answer) → Cmd → Prop} {h : List (Prog.Done Cmd Cmd.Answer)}

/-- The end of a pass: the number goes to the deployment as it is fetched. -/
theorem along_writeReplicas (cluster : Cluster) (hr : SumsFit d cluster →
      (ScaleBounds d (runningUsages d all).length (desiredOf target d (targetMemory d) all) cluster
        r.toInt ↔ CountsRunning d (runningUsages d all).length)) :
    (if r = d.getSpec.replicas then pure () else writeReplicas d r).Along (WritesWithin target d)
      (listed d all cluster) := by
  split
  · trivial
  · refine along_ask_bind.mpr ⟨trivial, fun x => ?_⟩
    rcases x with err | fetched
    · trivial
    rcases fetched with ⟨md, _ | spec, status⟩
    · trivial
    · refine ⟨⟨_, all, cluster, rfl, hr⟩, fun x => ?_⟩
      cases x <;> trivial

/-- What `capToClusterCapacity` asks for, and what it returns. -/
theorem capToClusterCapacity_eq (d : Deployment) (cur desired : Int32) :
    capToClusterCapacity d cur desired = (do
      match ← Registry.list .pods "" with
      | .error err => .stop (.err ⟨"", err⟩)
      | .ok pods =>
        match ← Registry.list .nodes "" with
        | .error err => .stop (.err ⟨"", err⟩)
        | .ok nodes => return capped d pods nodes cur desired) := by
  refine congrArg (Prog.call (Cmd.list .pods "")) (funext fun x => ?_)
  rcases x with err | pods
  · rfl
  refine congrArg (Prog.call (Cmd.list .nodes "")) (funext fun x => ?_)
  rcases x with err | nodes
  · rfl
  change (if desired - cur ≤ extra d pods nodes then pure desired
    else pure (if cur + extra d pods nodes < cur then cur
      else cur + extra d pods nodes) : Reg Int32) = pure (capped d pods nodes cur desired)
  rw [capped, cappedBy]
  split <;> rfl

/-- A rise, once the cluster is listed. -/
theorem along_capped {f : Int32 → Reg Unit} {text : String} (hΦ : ∀ h k, Φ h (.list k ""))
    (hf : ∀ pods nodes, (f (capped d pods nodes cur desired)).Along Φ
      (⟨.list .nodes "", .ok nodes⟩ :: ⟨.list .pods "", .ok pods⟩ :: h)) :
    (wrap text (capToClusterCapacity d cur desired) >>= f).Along Φ h := by
  rw [capToClusterCapacity_eq]
  refine ⟨hΦ _ _, fun x => ?_⟩
  rcases x with err | pods
  · trivial
  refine ⟨hΦ _ _, fun x => ?_⟩
  cases x with
  | error err => trivial
  | ok nodes => exact hf pods nodes

/-- And the other way: what follows the listings, for any of them. -/
theorem of_along_capped {f : Int32 → Reg Unit} {text : String}
    (hall : (wrap text (capToClusterCapacity d cur desired) >>= f).Along Φ h)
    (hr : capped d pods nodes cur desired = r) :
    (f r).Along Φ (⟨.list .nodes "", .ok nodes⟩ :: ⟨.list .pods "", .ok pods⟩ :: h) := by
  subst hr
  rw [capToClusterCapacity_eq] at hall
  exact (hall.2 (.ok pods)).2 (.ok nodes)

/-- What the code rounds to the bounds and caps is within the bounds. -/
theorem along_scaleTo {running : Nat} (hmax : 0 < d.getSpec.maxReplicas.toInt) (hn : running ≠ 0)
    (hrunning : (runningUsages d all).length = running) (hcur : currentReplicas d running = cur)
    (hdesired : bounded d (desiredOf target d (targetMemory d) all) = desired) :
    (scaleTo d cur desired).Along (WritesWithin target d) (listed d all none) := by
  subst hrunning
  -- without a count the conversion is not exact, so the bounds do not hold either
  have hcounts : ∀ {cluster r}, ScaleBounds d (runningUsages d all).length
      (desiredOf target d (targetMemory d) all) cluster r →
        CountsRunning d (runningUsages d all).length := fun h =>
    toInt_currentReplicas_iff.mp h.noOverflow.1
  have hlt_iff : CountsRunning d (runningUsages d all).length → (cur < desired ↔
      current d (runningUsages d all).length <
        clamped d (desiredOf target d (targetMemory d) all).toInt) := by
    intro hc
    rw [Int32.lt_iff_toInt_lt, ← hcur, ← hdesired, toInt_bounded, toInt_currentReplicas_iff.mpr hc]
  rw [scaleTo]
  by_cases hlt : cur < desired
  · rw [if_pos hlt]
    refine along_capped (fun _ _ => trivial) fun pods nodes => ?_
    refine along_writeReplicas (some (pods, nodes)) fun hfit => ⟨hcounts, fun hc => ?_⟩
    rw [← hcur, ← hdesired]
    exact scaleBounds_of_lt hmax hn hc hfit ((hlt_iff hc).mp hlt)
  · rw [if_neg hlt, pure_bind_reg]
    refine along_writeReplicas none fun _ => ⟨hcounts, fun hc => ?_⟩
    rw [hlt_iff hc] at hlt
    rw [← hdesired, toInt_bounded]
    exact scaleBounds_of_le hmax hc (Int.not_lt.mp hlt)

theorem along_reconcileListed (hmax : 0 < d.getSpec.maxReplicas.toInt) :
    (reconcileListed target d (targetMemory d) all).Along (WritesWithin target d)
      (listed d all none) := by
  simp only [reconcileListed]
  -- the numbers are named, for they are not to be computed
  generalize hrunning : (runningUsages d all).length = running
  generalize hcur : currentReplicas d running = cur
  generalize hdesired : bounded d (target cur (runningUsages d all) (targetMemory d)) = desired
  split
  · trivial
  · next hn =>
    refine along_scaleTo hmax hn hrunning hcur ?_
    rw [desiredOf, hrunning, hcur]
    exact hdesired

/-- A pass that gets as far as listing the pods. -/
theorem reconcileOne_eq_listed (hmax : 0 < d.getSpec.maxReplicas)
    (hne : d.getTemplate.containers ≠ []) (hmem : 0 < targetMemory d) :
    reconcileOne target d = Registry.list .pods d.getMetadata.ns >>= fun x =>
      match x with
      | .error err => .stop (.err ⟨"", err⟩)
      | .ok all => reconcileListed target d (targetMemory d) all := by
  obtain ⟨c, cs, hc⟩ := exists_cons_of_ne_nil hne
  have hmem' : c.requests.memoryBytes = targetMemory d := by
    rw [targetMemory, hc]
    rfl
  rw [reconcileOne, if_neg (Int32.not_le.mpr hmax), hc]
  simp only [hmem']
  rw [if_neg (Int64.not_le.mpr hmem)]
  refine congrArg (Prog.call (Cmd.list .pods d.getMetadata.ns)) (funext fun x => ?_)
  cases x <;> rfl

end

/-- **Whatever the autoscaler writes is within the bounds**, exactly if the deployment gives a count
or the number of its running pods has one. -/
theorem autoscaler_bounds_iff (target : Target) (d : Deployment) :
    (reconcileOne target d).Along (WritesWithin target d) [] := by
  by_cases hmax : 0 < d.getSpec.maxReplicas
  · by_cases hne : d.getTemplate.containers = []
    · rw [reconcileOne, if_neg (Int32.not_le.mpr hmax), hne]
      trivial
    · by_cases hmem : 0 < targetMemory d
      · rw [reconcileOne_eq_listed hmax hne hmem]
        refine along_ask_bind.mpr ⟨trivial, fun x => ?_⟩
        cases x with
        | error err => trivial
        | ok all => exact along_reconcileListed (lt_iff_toInt_lt.mp hmax)
      · obtain ⟨c, cs, hc⟩ := exists_cons_of_ne_nil hne
        have hmem' : c.requests.memoryBytes = targetMemory d := by
          rw [targetMemory, hc]
          rfl
        rw [reconcileOne, if_neg (Int32.not_le.mpr hmax), hc]
        simp only [hmem']
        rw [if_pos (Int64.not_lt.mp hmem)]
        trivial
  · rw [reconcileOne, if_pos (Int32.not_lt.mp hmax)]
    trivial

/-! ### Never above the maximum -/

theorem bounded_le (d : Deployment) (desired : Int32) :
    (bounded d desired).toInt ≤ d.getSpec.maxReplicas.toInt := by
  rw [toInt_bounded, clamped]
  omega

/-- **A rise is capped below what was desired**, from any count. -/
theorem capped_le {d : Deployment} (hlt : cur < desired) :
    (capped d pods nodes cur desired).toInt ≤ desired.toInt := by
  rw [Int32.lt_iff_toInt_lt] at hlt
  have he := extra_nonneg d pods nodes
  have hd := toInt_lt desired
  have hc := le_toInt cur
  simp only [capped, cappedBy, Int32.le_iff_toInt_le]
  split
  · exact Int.le_refl _
  · next hwant =>
    split
    · omega
    · -- the difference has not wrapped, for then it would be negative
      have hdiff : (desired - cur).toInt = desired.toInt - cur.toInt := by
        rw [Int32.toInt_sub] at hwant ⊢
        by_cases hbig : desired.toInt - cur.toInt < 2 ^ 31
        · exact Int.bmod_eq_of_le (by omega) (by omega)
        · exfalso
          refine hwant (Int.le_trans ?_ he)
          rw [Int.bmod_def]
          split <;> omega
      rw [hdiff] at hwant
      rw [Int32.toInt_add, Int.bmod_eq_of_le (by omega) (by omega)]
      omega

section

variable {A : (c : Cmd) → c.Answer → Prop} {P : Cmd → Prop} {d : Deployment}

/-- What is written when a deployment is scaled: the one that is fetched, with a number that is not
above the maximum. -/
structure Rescales (d : Deployment) (A : (c : Cmd) → c.Answer → Prop) (P : Cmd → Prop) : Prop where
  reads : ∀ c : Cmd, c.Reads → P c
  puts : ∀ cur spec (r : Int32),
    A (.get .deployments d.getMetadata.ns d.getMetadata.name) (.ok cur) →
    cur.spec = some spec → r.toInt ≤ d.getSpec.maxReplicas.toInt →
      P (.put .deployments cur.getMetadata.ns cur.getMetadata.name
        { cur with spec := some { spec with replicas := r } })

namespace Rescales

variable (h : Rescales d A P)

include h

theorem ensures_writeReplicas {r : Int32} (hr : r.toInt ≤ d.getSpec.maxReplicas.toInt) :
    (if r = d.getSpec.replicas then pure () else writeReplicas d r : Reg Unit).Ensures A P
      fun _ => True := by
  split
  · trivial
  · refine Ensures.bind_ok (ensures_asked (h.reads _ rfl)) fun cur hx => ?_
    rw [orReturn_ok_bind]
    cases hs : cur.spec with
    | none => trivial
    | some spec =>
      refine ensures_ask_bind.mpr ⟨h.puts cur spec r hx hs hr, fun x _ => ?_⟩
      cases x <;> trivial

theorem ensures_scaleTo (cur : Int32) (hdesired : desired.toInt ≤ d.getSpec.maxReplicas.toInt) :
    (scaleTo d cur desired).Ensures A P fun _ => True := by
  rw [scaleTo]
  split
  · next hlt =>
    rw [capToClusterCapacity_eq]
    refine ⟨h.reads _ rfl, fun x _ => ?_⟩
    rcases x with err | pods
    · trivial
    refine ⟨h.reads _ rfl, fun x _ => ?_⟩
    cases x with
    | error err => trivial
    | ok nodes => exact h.ensures_writeReplicas (Int.le_trans (capped_le hlt) hdesired)
  · rw [pure_bind_reg]
    exact h.ensures_writeReplicas hdesired

/-- **The contract of the autoscaler**, for one deployment. -/
theorem ensures_reconcileOne (target : Target) :
    (reconcileOne target d).Ensures A P fun _ => True := by
  simp only [reconcileOne]
  split
  · trivial
  · split
    · trivial
    · split
      · trivial
      · refine Ensures.bind_ok (ensures_asked (h.reads _ rfl)) fun all _ => ?_
        simp only [orReturn_ok_bind, reconcileListed]
        split
        · trivial
        · -- Left as it is, the bound would be compared in 32 bits to see what `scaleTo` asks.
          have hle := bounded_le d
          generalize bounded d = bound at hle ⊢
          exact h.ensures_scaleTo _ (hle _)

end Rescales

/-- **The contract of the loop over all deployments**, from those of the passes. -/
theorem ensures_autoscaleAll {target : Target} (hP : P (.list .deployments ""))
    (h : ∀ deployments, A (.list .deployments "") (.ok deployments) →
      ∀ d ∈ deployments, (reconcileOne target d).Ensures A P fun _ => True) :
    (reconcileAll target).Ensures A P fun _ => True := by
  have heach : ∀ {deployments : List Deployment},
      (∀ d ∈ deployments, (reconcileOne target d).Ensures A P fun _ => True) →
        (reconcileEach target deployments).Ensures A P fun _ => True := by
    intro deployments hall
    induction deployments with
    | nil => trivial
    | cons d deployments ih =>
      obtain ⟨hd, hrest⟩ := forall_mem_cons.mp hall
      exact Ensures.bind hd.attempt fun _ _ => ih hrest
  refine ⟨hP, fun r hr => ?_⟩
  cases r with
  | error e => trivial
  | ok deployments => exact heach (h deployments hr)

end

/-! ### More pods than there are numbers -/

/-- A deployment without a count, which may grow to one replica. -/
def countless : Deployment :=
  { metadata := some { name := "web", ns := "default" }
    spec := some
      { replicas := -1
        maxReplicas := 1
        template := some { containers := [
          { name := "c", resources := some { requests := some { memoryBytes := 1 } } }] } } }

/-- One of its running pods. -/
def runningPod (i : Nat) : Pod :=
  { metadata := some
      { name := "web-" ++ toString i
        ns := "default"
        labels := Finmap.singleton OwnerDeploymentLabel "web" }
    status := some { phase := .running } }

theorem length_runningUsages (n : Nat) :
    (runningUsages countless ((List.range n).map runningPod)).length = n := by
  have hall : ((List.range n).map runningPod).filter (fun p => decide (OwnedBy countless p ∧
      p.getStatus.phase = .running)) = (List.range n).map runningPod := by
    rw [filter_eq_self]
    intro p hp
    obtain ⟨i, -, rfl⟩ := mem_map.mp hp
    refine decide_eq_true ⟨?_, rfl⟩
    simp [OwnedBy, runningPod, Pod.getMetadata, ObjectMeta.label, countless, Deployment.getMetadata]
  rw [runningUsages, hall, length_map, length_map, length_range]

theorem sumsFit_countless (pods : List Pod) : SumsFit countless (some (pods, [])) := by
  intro a
  refine ⟨?_, fun pods' nodes' h => ?_⟩
  · cases a with
    | cpu => decide
    | memory => decide
    | accelerator name =>
      exact ⟨show (-2 ^ 63 : Int) ≤ 0 by decide, show (0 : Int) < 2 ^ 63 by decide⟩
  · cases h
    exact ⟨show (-2 ^ 63 : Int) ≤ 0 by decide, show (0 : Int) < 2 ^ 63 by decide⟩

/-- Without a node there is no room for a replica. -/
theorem capped_countless (pods : List Pod) : capped countless pods [] 0 1 = 0 := by
  have hmemory : templateAmount countless .memory = 1 := by decide
  have hroom : ¬ (1 : Int) ≤ (extra countless pods []).toInt := by
    rw [le_extra_iff (sumsFit_countless pods) (by decide) (by decide)]
    intro h
    have hle := h .memory (by rw [hmemory]; decide)
    rw [hmemory] at hle
    exact absurd hle (show ¬ (1 * 1 : Int) ≤ 0 by decide)
  have hnn := extra_nonneg countless pods []
  obtain ⟨-, -, hr⟩ :=
    capped_spec (d := countless) pods [] (show (0 : Int) ≤ (0 : Int32).toInt by decide)
    (show (0 : Int32).toInt < (1 : Int32).toInt by decide)
  refine Int32.toInt_inj.mp (hr.trans ?_)
  change min (1 : Int) (0 + (extra countless pods []).toInt) = 0
  omega

/-- **The autoscaler scales to zero.**  There are `2 ^ 32` running pods, which count as none, and no
node has room for one. -/
theorem running_pods_wrap :
    ∃ (target : Target) (d : Deployment) (all : List Pod), SumsFit d (some (all, [])) ∧
      ¬ (reconcileOne target d).Along (fun h c => ∀ fetched ns name d',
        h = ⟨.get .deployments d.getMetadata.ns d.getMetadata.name, .ok fetched⟩ ::
          listed d all (some (all, [])) →
        c = .put .deployments ns name d' → 1 ≤ d'.getSpec.replicas.toInt) [] := by
  refine ⟨fun _ _ _ => 1, countless, (List.range (2 ^ 32)).map runningPod, sumsFit_countless _, ?_⟩
  generalize hpods : (List.range (2 ^ 32)).map runningPod = all
  have hlength : (runningUsages countless all).length = 2 ^ 32 := by
    rw [← hpods, length_runningUsages]
  have hcur : currentReplicas countless (2 ^ 32) = 0 := by decide
  have hdesired : bounded countless 1 = 1 := by decide
  have hcapped : capped countless all [] 0 1 = 0 := capped_countless all
  have hscale : reconcileListed (fun _ _ _ => 1) countless (targetMemory countless) all =
      scaleTo countless 0 1 := by
    simp only [reconcileListed, hlength, hcur, hdesired]
    rw [if_neg (by decide)]
  intro hall
  rw [reconcileOne_eq_listed (by decide) (by decide) (by decide)] at hall
  have h₁ := (along_ask_bind.mp hall).2 (.ok all)
  simp only [hscale] at h₁
  rw [scaleTo, if_pos (by decide)] at h₁
  have h₂ := of_along_capped h₁ hcapped
  beta_reduce at h₂
  rw [if_neg (by decide)] at h₂
  have h₃ := (along_ask_bind.mp h₂).2 (.ok countless)
  have hput := h₃.1 countless _ _ _ rfl rfl
  exact absurd hput (by decide)

end HorizontalAutoscaler

end NimbusCore.Controller
