import NimbusCore.Controller.Capacity
import NimbusCore.Controller.Usage
import NimbusCore.Support.Contracts

/-!
# Controller — the capacity estimate

The autoscaler takes the nodes together: it adds up what they hold and what is in use on them, and
divides the rest by what one replica asks for.  The scheduler looks at one node at a time.

* `le_maxAdditionalReplicas_iff`: a number of replicas is within the estimate exactly if what is
  left in the cluster holds them all, amount by amount.
* `remaining_capacityOf`: what is left in the cluster, as a sum over the nodes.
* `placeable_within_estimate`: **the estimate never blocks a replica that can be placed.**  Replicas
  that the scheduler's tests place one by one (`Places`) are within the estimate.
-/

namespace NimbusCore.Controller

open Api Registry Scheduler List Int64

/-! ### What fits -/

/-- A number of replicas fits into the rest, if one of them asks for something. -/
theorem le_fitCount_iff {remaining perUnit : Int64} {k : Int} (h0 : 0 ≤ k) (hk : k < 2 ^ 31) :
    k ≤ (fitCount remaining perUnit).toInt ↔
      (0 < perUnit.toInt → 0 < k → k * perUnit.toInt ≤ remaining.toInt) := by
  have hmax : Int32.maxValue.toInt = 2 ^ 31 - 1 := rfl
  have hmax' : Int32.maxValue.toInt64.toInt = 2 ^ 31 - 1 := rfl
  have hzero : (0 : Int64).toInt = 0 := rfl
  have hzero' : (0 : Int32).toInt = 0 := rfl
  rw [fitCount]
  simp only [le_iff_toInt_le, lt_iff_toInt_lt, hzero, hmax']
  split
  · next hp => exact iff_of_true (by omega) fun h => absurd h (by omega)
  · next hp =>
    split
    · next hr =>
      rw [hzero']
      constructor
      · intro h _ hpos; omega
      · intro h
        by_contra hlt
        have := h (by omega) (by omega)
        have : 0 < k * perUnit.toInt := Int.mul_pos (by omega) (by omega)
        omega
    · next hr =>
      -- both are positive, so the quotient is the floor
      have hdiv : (remaining / perUnit).toInt = remaining.toInt / perUnit.toInt := by
        have hne : remaining ≠ Int64.minValue := by
          rintro rfl
          exact hr (by decide)
        rw [toInt_div_of_ne_left _ _ hne, Int.tdiv_eq_ediv_of_nonneg (by omega)]
      have hfloor : k ≤ remaining.toInt / perUnit.toInt ↔ k * perUnit.toInt ≤ remaining.toInt :=
        Int.le_ediv_iff_mul_le (by omega)
      have hnonneg : 0 ≤ remaining.toInt / perUnit.toInt := Int.ediv_nonneg (by omega) (by omega)
      have himp : (0 < perUnit.toInt → 0 < k → k * perUnit.toInt ≤ remaining.toInt) ↔
          k * perUnit.toInt ≤ remaining.toInt := by
        constructor
        · intro h
          rcases Int.lt_or_eq_of_le h0 with hpos | rfl
          · exact h (by omega) hpos
          · omega
        · exact fun h _ _ => h
      rw [hdiv, himp, ← hfloor]
      split
      · next hlt => exact iff_of_true (by omega) (by omega)
      · next hlt =>
        rw [toInt_toInt32, hdiv, Int.bmod_eq_of_le (by omega) (by omega)]

/-- The least of some numbers. -/
theorem le_fold_lower_iff {k : Int} {x : Int32} (m : Multiset Int32) :
    k ≤ (m.fold lower x).toInt ↔ k ≤ x.toInt ∧ ∀ y ∈ m, k ≤ y.toInt := by
  induction m using Multiset.induction with
  | empty => simp
  | cons y m ih =>
    rw [Multiset.fold_cons_left, toInt_lower, le_min_iff, ih, Multiset.forall_mem_cons]
    tauto

/-! ### Amounts of the cluster -/

namespace ClusterCapacity

/-- An amount that the nodes hold. -/
def capacity (c : ClusterCapacity) : Amount → Int64
  | .cpu => c.cpuCapacity
  | .memory => c.memCapacity
  | .accelerator name => c.acceleratorCapacity.getD name 0

/-- An amount in use. -/
def used (c : ClusterCapacity) : Amount → Int64
  | .cpu => c.cpuUsed
  | .memory => c.memUsed
  | .accelerator name => c.acceleratorUsed.getD name 0

end ClusterCapacity

/-- What one replica asks for, amount by amount. -/
def perAmount (per : Int64 × Int64 × Dict String Int64) : Amount → Int64
  | .cpu => per.1
  | .memory => per.2.1
  | .accelerator name => per.2.2.getD name 0

/-- **A number of replicas is within the estimate** exactly if what is left holds them all. -/
theorem le_maxAdditionalReplicas_iff {c : ClusterCapacity} (per : Int64 × Int64 × Dict String Int64)
    {k : Int} (h0 : 0 ≤ k) (hk : k < 2 ^ 31) :
    k ≤ (c.maxAdditionalReplicas per.1 per.2.1 per.2.2).toInt ↔
      ∀ a, 0 < (perAmount per a).toInt → 0 < k →
        k * (perAmount per a).toInt ≤ (c.capacity a - c.used a).toInt := by
  have hmax : k ≤ Int32.maxValue.toInt := Int.le_sub_one_of_lt hk
  have haccel : (∀ y ∈ per.2.2.entries.map fun e =>
        fitCount (c.acceleratorCapacity.getD e.1 0 - c.acceleratorUsed.getD e.1 0) e.2,
          k ≤ y.toInt) ↔
      ∀ name, 0 < (perAmount per (.accelerator name)).toInt → 0 < k →
        k * (perAmount per (.accelerator name)).toInt ≤
          (c.capacity (.accelerator name) - c.used (.accelerator name)).toInt := by
    constructor
    · intro h name hpos
      -- an accelerator that is not asked for counts as zero
      cases hl : per.2.2.lookup name with
      | none => simp [perAmount, Finmap.getD, hl] at hpos
      | some v =>
        have hv : perAmount per (.accelerator name) = v := by simp [perAmount, Finmap.getD, hl]
        rw [hv] at hpos ⊢
        exact (le_fitCount_iff h0 hk).mp
          (h _ (Multiset.mem_map.mpr ⟨⟨name, v⟩, Finmap.lookup_eq_some_iff.mp hl, rfl⟩)) hpos
    · intro h y hy
      obtain ⟨⟨name, v⟩, hm, rfl⟩ := Multiset.mem_map.mp hy
      have hl : per.2.2.lookup name = some v := Finmap.lookup_eq_some_iff.mpr hm
      have hv : perAmount per (.accelerator name) = v := by simp [perAmount, Finmap.getD, hl]
      have := h name
      rw [hv] at this
      exact (le_fitCount_iff h0 hk).mpr this
  rw [ClusterCapacity.maxAdditionalReplicas, le_fold_lower_iff, toInt_lower, toInt_lower,
    le_min_iff,
    le_min_iff, le_fitCount_iff h0 hk, le_fitCount_iff h0 hk, haccel]
  constructor
  · rintro ⟨⟨⟨-, hcpu⟩, hmem⟩, hacc⟩ a
    cases a with
    | cpu => exact hcpu
    | memory => exact hmem
    | accelerator name => exact hacc name
  · intro h
    exact ⟨⟨⟨hmax, h .cpu⟩, h .memory⟩, fun name => h (.accelerator name)⟩

theorem maxAdditionalReplicas_nonneg (c : ClusterCapacity)
    (per : Int64 × Int64 × Dict String Int64) :
    0 ≤ (c.maxAdditionalReplicas per.1 per.2.1 per.2.2).toInt :=
  (le_maxAdditionalReplicas_iff _ (le_refl 0) (by decide)).mpr fun _ _ h => absurd h (by decide)

/-! ### What the nodes hold together -/

/-- What is free on a node: what can be allocated there, less what is in use. -/
def freeOn (usage : Dict String NodeResourceUsage) (a : Amount) (n : Node) : Int :=
  (amountOf n.allocatable a).toInt - ((usage.getD n.getMetadata.name {}).amount a).toInt

/-- What is free on the nodes that can be scheduled on. -/
def freeOnAll (usage : Dict String NodeResourceUsage) (all : List Node) (a : Amount) : Int :=
  ((all.filter fun n => Schedulable n).map (freeOn usage a)).sum

theorem remaining_add (usage : Dict String NodeResourceUsage) (c : ClusterCapacity) (n : Node)
    (a : Amount) :
    (c.add usage n).capacity a - (c.add usage n).used a =
      c.capacity a - c.used a + Int64.ofInt (freeOn usage a n) := by
  have hcap : (c.add usage n).capacity a = c.capacity a + amountOf n.allocatable a := by
    cases a with
    | cpu => rfl
    | memory => rfl
    | accelerator name => exact Finmap.getD_addAll rfl _ _ _
  have hused : (c.add usage n).used a =
      c.used a + (usage.getD n.getMetadata.name {}).amount a := by
    cases a with
    | cpu => rfl
    | memory => rfl
    | accelerator name => exact Finmap.getD_addAll rfl _ _ _
  rw [hcap, hused, freeOn, ofInt_sub, ofInt_toInt, ofInt_toInt]
  grind

/-- **What is left in the cluster** is what is free on the nodes together, reduced to 64 bits. -/
theorem remaining_capacityOf (usage : Dict String NodeResourceUsage) (all : List Node)
    (a : Amount) :
    (capacityOf usage all).capacity a - (capacityOf usage all).used a =
      Int64.ofInt (freeOnAll usage all a) := by
  have key := measure_foldl (f := ClusterCapacity.add usage) (g := freeOn usage a)
    (μ := fun c => c.capacity a - c.used a) fun c n => remaining_add ..
  have h0 : ({} : ClusterCapacity).capacity a - ({} : ClusterCapacity).used a = 0 := by
    cases a with
    | cpu => rfl
    | memory => rfl
    | accelerator name => simp [ClusterCapacity.capacity, ClusterCapacity.used]
  rw [capacityOf, key, h0, Int64.zero_add]
  rfl

/-! ### Placing replicas one by one -/

/-- The candidate with one more replica on it. -/
def place (req : PodRequest) (n : NodeCandidate) : NodeCandidate :=
  { n with
    cpuUsed := n.cpuUsed + req.cpuRequest
    memUsed := n.memUsed + req.memRequest
    acceleratorUsed := n.acceleratorUsed.addAll req.acceleratorsRequested }

/-- The tests of the scheduler, that for ports apart. -/
def Takes (req : PodRequest) (n : NodeCandidate) : Prop :=
  n.fits { req with containerPorts := [] } = true

instance (req : PodRequest) (n : NodeCandidate) : Decidable (Takes req n) :=
  inferInstanceAs (Decidable (_ = true))

/-- So many replicas can be placed on the candidates, one by one. -/
inductive Places (req : PodRequest) : List NodeCandidate → Nat → Prop
  | nil (ns : List NodeCandidate) : Places req ns 0
  | cons {l r : List NodeCandidate} {n : NodeCandidate} {k : Nat} :
      Takes req n → Places req (l ++ place req n :: r) k → Places req (l ++ n :: r) (k + 1)

section

variable {req : PodRequest} {n : NodeCandidate} {a : Amount}

theorem free_place (req : PodRequest) (n : NodeCandidate) (a : Amount) :
    free (place req n) a = free n a - requested req a := by
  cases a with
  | cpu | memory => exact (Int64.sub_sub ..).symm
  | accelerator name =>
    have : (n.acceleratorUsed.addAll req.acceleratorsRequested).getD name 0 =
        n.acceleratorUsed.getD name 0 + req.acceleratorsRequested.getD name 0 :=
      Finmap.getD_addAll rfl ..
    simp only [free, place, requested, this]
    exact (Int64.sub_sub ..).symm

/-- What a candidate takes, it has. -/
theorem Takes.le_free (h : Takes req n) (hn : 0 ≤ (free n a).toInt) :
    (requested req a).toInt ≤ (free n a).toInt := by
  obtain ⟨⟨hcpu, hmem⟩, hacc, -⟩ := fits_iff.mp h
  cases a with
  | cpu => exact Int64.le_iff_toInt_le.mp (Int64.not_lt.mp hcpu)
  | memory => exact Int64.le_iff_toInt_le.mp (Int64.not_lt.mp hmem)
  | accelerator name =>
    by_cases hpos : 0 < requested req (.accelerator name)
    · exact Int64.le_iff_toInt_le.mp (Int64.not_lt.mp (hacc name hpos))
    · have := Int64.le_iff_toInt_le.mp (Int64.not_lt.mp hpos)
      exact this.trans hn

/-- Taking a replica takes off what it asks for. -/
theorem Takes.toInt_free_place (h : Takes req n) (hreq : 0 ≤ (requested req a).toInt)
    (hn : 0 ≤ (free n a).toInt) :
    (free (place req n) a).toInt = (free n a).toInt - (requested req a).toInt := by
  have hle := h.le_free hn
  have hlt := toInt_lt (free n a)
  rw [free_place, toInt_sub, Int.bmod_eq_of_le (by omega) (by omega)]

/-- **Replicas that can be placed are within what is free**, on all candidates together. -/
theorem Places.le_free {ns : List NodeCandidate} {k : Nat} (h : Places req ns k)
    (hreq : 0 ≤ (requested req a).toInt) (hns : ∀ n ∈ ns, 0 ≤ (free n a).toInt) :
    k * (requested req a).toInt ≤ (ns.map fun n => (free n a).toInt).sum := by
  induction h with
  | nil ns =>
    rw [Int.ofNat_zero, Int.zero_mul]
    exact sum_nonneg (forall_mem_map.mpr hns)
  | @cons l r n k ht _ ih =>
    obtain ⟨hl, hn, hr⟩ : (∀ m ∈ l, 0 ≤ (free m a).toInt) ∧ 0 ≤ (free n a).toInt ∧
        ∀ m ∈ r, 0 ≤ (free m a).toInt := by
      rwa [forall_mem_append, forall_mem_cons] at hns
    have hplaced := ht.toInt_free_place hreq hn
    have hle := ht.le_free hn
    have hns' : ∀ m ∈ l ++ place req n :: r, 0 ≤ (free m a).toInt := by
      rw [forall_mem_append, forall_mem_cons]
      exact ⟨hl, by omega, hr⟩
    have ih := ih hns'
    simp only [map_append, map_cons, sum_append, sum_cons] at ih ⊢
    rw [Int.natCast_add, Int.add_mul, Int.natCast_one, Int.one_mul]
    omega

end

/-! ### The estimate -/

/-- The store lists these nodes. -/
def ListsNodes (all : List Node) : (c : Cmd) → c.Answer → Prop
  | .list .nodes _, x => x = .ok all
  | _, _ => True

/-- No amount is over-committed on the node. -/
def WithinAllocatable (usage : Dict String NodeResourceUsage) (n : Node) : Prop :=
  ∀ a, ((usage.getD n.getMetadata.name {}).amount a).toInt ≤ (amountOf n.allocatable a).toInt

/-- **The estimate never blocks a replica that can be placed.**  On nodes that are not
over-committed, whose free amounts together fit into 64 bits, the estimate is at least the number of
replicas that can be placed one by one. -/
theorem placeable_within_estimate {usage : Dict String NodeResourceUsage} {all : List Node}
    {req : PodRequest} {k : Nat} (hfull : ∀ n ∈ all, Schedulable n → WithinAllocatable usage n)
    (hreq : ∀ a, 0 ≤ (requested req a).toInt) (hsum : ∀ a, freeOnAll usage all a < 2 ^ 63)
    (hk : k ≤ 2 ^ 31 - 1) (hplaces : Places req (candidatesOf usage all) k) :
    (computeClusterCapacity usage).Ensures (ListsNodes all) Cmd.Reads fun r => ∃ c, r = .ok c ∧
      (k : Int) ≤ (c.maxAdditionalReplicas req.cpuRequest req.memRequest
        req.acceleratorsRequested).toInt := by
  refine Prog.ensures_ask_bind.mpr ⟨rfl, fun x hx => ?_⟩
  cases hx
  refine ⟨capacityOf usage all, rfl, ?_⟩
  have hfree : ∀ a, ∀ n ∈ all.filter fun n => Schedulable n, 0 ≤ freeOn usage a n := by
    intro a n hn
    obtain ⟨hn, hs⟩ := mem_filter.mp hn
    have := hfull n hn (of_decide_eq_true hs) a
    rw [freeOn]
    omega
  have hnonneg : ∀ a, 0 ≤ freeOnAll usage all a := fun a =>
    sum_nonneg (forall_mem_map.mpr (hfree a))
  -- one node has no more than all of them, so what is free on it does not wrap either
  have hcand : ∀ a, ∀ n ∈ all.filter fun n => Schedulable n,
      (free (candidateOf usage n) a).toInt = freeOn usage a n := by
    intro a n hn
    have hle : freeOn usage a n ≤ freeOnAll usage all a :=
      single_le_sum (forall_mem_map.mpr (hfree a)) _ (mem_map.mpr ⟨n, hn, rfl⟩)
    have h0 := hfree a n hn
    have hlt := hsum a
    have heq : (free (candidateOf usage n) a).toInt = (freeOn usage a n).bmod (2 ^ 64) := by
      rw [free_candidateOf, toInt_sub, freeOn]
    rw [heq, Int.bmod_eq_of_le (by omega) (by omega)]
  refine (le_maxAdditionalReplicas_iff (req.cpuRequest, req.memRequest,
    req.acceleratorsRequested) (by omega) (by omega)).mpr fun a _ _ => ?_
  have hper : perAmount (req.cpuRequest, req.memRequest, req.acceleratorsRequested) a =
      requested req a := by cases a <;> rfl
  have hsums : ((candidatesOf usage all).map fun n => (free n a).toInt).sum =
      freeOnAll usage all a := by
    rw [candidatesOf, map_map, freeOnAll]
    exact congrArg List.sum (map_congr_left (hcand a))
  rw [hper, remaining_capacityOf,
      toInt_ofInt_of_le (by have := hnonneg a; omega) (hsum a), ← hsums]
  refine hplaces.le_free (hreq a) (forall_mem_map.mpr fun n hn => ?_)
  rw [hcand a n hn]
  exact hfree a n hn

/-- A node with room for one replica of the request, and half another. -/
def roomyNode (name : String) : Node :=
  { metadata := some { name := name }
    status := some { ready := true, allocatable := some { cpuMillis := 3, memoryBytes := 5 } } }

def sampleReplica : PodRequest :=
  { name := "web-0"
    cpuRequest := 2
    memRequest := 1
    acceleratorsRequested := ∅
    containerPorts := [80] }

theorem places_sampleReplica :
    Places sampleReplica (candidatesOf ∅ [roomyNode "a", roomyNode "b"]) 2 := by
  have hfirst : Takes sampleReplica (candidateOf ∅ (roomyNode "a")) := by decide
  have hsecond : Takes sampleReplica (candidateOf ∅ (roomyNode "b")) := by decide
  exact .cons (l := []) hfirst (.cons (l := [_]) hsecond (.nil _))

theorem placeable_within_estimate_sample :
    Places sampleReplica (candidatesOf ∅ [roomyNode "a", roomyNode "b"]) 2 ∧
      (computeClusterCapacity ∅).Ensures (ListsNodes [roomyNode "a", roomyNode "b"]) Cmd.Reads
        fun r => ∃ c, r = .ok c ∧ ((2 : Nat) : Int) ≤ (c.maxAdditionalReplicas
          sampleReplica.cpuRequest sampleReplica.memRequest
          sampleReplica.acceleratorsRequested).toInt := by
  have hamount : ∀ name a, 0 ≤ freeOn ∅ a (roomyNode name) ∧ freeOn ∅ a (roomyNode name) ≤ 5 := by
    intro name a
    cases a with
    | cpu => exact ⟨Int.zero_le_ofNat 3, show (3 : Int) ≤ 5 by decide⟩
    | memory => exact ⟨Int.zero_le_ofNat 5, le_refl (5 : Int)⟩
    | accelerator _ => exact ⟨le_refl (0 : Int), Int.zero_le_ofNat 5⟩
  refine ⟨places_sampleReplica, placeable_within_estimate (fun n hn _ a => ?_)
    (fun a => ?_) (fun a => ?_) (by decide) places_sampleReplica⟩
  · have hfree : 0 ≤ freeOn ∅ a n := by
      simp only [mem_cons, not_mem_nil, or_false] at hn
      rcases hn with rfl | rfl <;> exact (hamount _ a).1
    rw [freeOn] at hfree
    omega
  · cases a with
    | cpu => decide
    | memory => decide
    | accelerator name => exact le_refl (0 : Int)
  · have hall : freeOnAll ∅ [roomyNode "a", roomyNode "b"] a =
        freeOn ∅ a (roomyNode "a") + (freeOn ∅ a (roomyNode "b") + 0) := rfl
    have ha := (hamount "a" a).2
    have hb := (hamount "b" a).2
    omega

end NimbusCore.Controller
