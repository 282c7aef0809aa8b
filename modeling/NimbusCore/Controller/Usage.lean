import Mathlib.Algebra.Order.BigOperators.Group.List
import Mathlib.Algebra.Order.Group.Int
import Mathlib.Algebra.Ring.Int.Defs
import NimbusCore.Controller.Pass

/-!
# Controller — what the scheduler counts

`computeNodeUsage` and `podResourceRequest` add up `int64` amounts that wrap; `Schedule` compares
them.  Here they are related to sums of integers:

* `requested_requestOf`, `amount_nodeUsage`: what a pod asks for and what is used on a node are the
  sums of the requests, reduced to 64 bits.
* `eligible_of_fuller`: **a node that takes a pod now would have taken it before others were placed
  there.**  So a pod that was refused is refused again.
-/

namespace NimbusCore.Controller

open Api Registry Scheduler List Finmap Int64

/-- What is counted in amounts. -/
inductive Amount where
  | cpu
  | memory
  | accelerator (name : String)
  deriving DecidableEq

/-- An entry of a resource list. -/
def amountOf (l : ResourceList) : Amount → Int64
  | .cpu => l.cpuMillis
  | .memory => l.memoryBytes
  | .accelerator name => l.accelerators.getD name 0

/-- An amount in use. -/
def NodeResourceUsage.amount (u : NodeResourceUsage) : Amount → Int64
  | .cpu => u.cpuMillis
  | .memory => u.memoryBytes
  | .accelerator name => u.accelerators.getD name 0

/-- An amount the scheduler is asked for. -/
def requested (pod : PodRequest) : Amount → Int64
  | .cpu => pod.cpuRequest
  | .memory => pod.memRequest
  | .accelerator name => pod.acceleratorsRequested.getD name 0

/-- An amount that is free. -/
def free (n : NodeCandidate) : Amount → Int64
  | .cpu => n.freeCPU
  | .memory => n.freeMem
  | .accelerator name => n.acceleratorCapacity.getD name 0 - n.acceleratorUsed.getD name 0

/-- What some containers ask for together. -/
def containersAmount (cs : List Container) (a : Amount) : Int :=
  (cs.map fun c => (amountOf c.requests a).toInt).sum

/-- What a pod asks for. -/
def podAmount (p : Pod) (a : Amount) : Int := containersAmount p.getSpec.containers a

/-- What some pods ask for together. -/
def podsAmount (ps : List Pod) (a : Amount) : Int := (ps.map fun p => podAmount p a).sum

/-- What is asked for by the pods on a node. -/
def load (all : List Pod) (name : String) (a : Amount) : Int :=
  podsAmount (all.filter fun p => p.getSpec.nodeName = name) a

/-- The sum of `f` over the stored pods on a node. -/
def onNode (pods : Dict String Pod) (name : String) (f : Pod → Int) : Int :=
  pods.sum fun _ p => if p.getSpec.nodeName = name then f p else 0

/-! ### The sums of the code -/

variable {name : String} {q : Int32}

/-- A loop in which each element adds to a measure. -/
theorem measure_foldl {σ β : Type} {f : σ → β → σ} {μ : σ → Int64} {g : β → Int}
    (h : ∀ s b, μ (f s b) = μ s + Int64.ofInt (g b)) :
    ∀ (l : List β) (s : σ), μ (l.foldl f s) = μ s + Int64.ofInt (l.map g).sum
  | [], s => by simp
  | b :: l, s => by
    rw [foldl_cons, measure_foldl h l, h, map_cons, sum_cons, Int64.ofInt_add, Int64.add_assoc]

section

variable {p : Pod} {a : Amount}

@[simp] theorem containersAmount_cons (c : Container) (cs : List Container) :
    containersAmount (c :: cs) a = (amountOf c.requests a).toInt + containersAmount cs a := by
  simp [containersAmount]

@[simp] theorem podsAmount_cons (p : Pod) (ps : List Pod) :
    podsAmount (p :: ps) a = podAmount p a + podsAmount ps a := by
  simp [podsAmount]

theorem amount_add (u : NodeResourceUsage) (c : Container) :
    (u.add c).amount a = u.amount a + amountOf c.requests a := by
  cases a with
  | cpu => rfl
  | memory => rfl
  | accelerator name => exact Finmap.getD_addAll rfl _ _ _

theorem amount_foldl_add (cs : List Container) (u : NodeResourceUsage) :
    (cs.foldl NodeResourceUsage.add u).amount a =
      u.amount a + Int64.ofInt (containersAmount cs a) :=
  measure_foldl (μ := (·.amount a)) (fun u c => by rw [amount_add, Int64.ofInt_toInt]) cs u

/-- The containers of a pod, counted. -/
def NodeResourceUsage.addPod (u : NodeResourceUsage) (p : Pod) : NodeResourceUsage :=
  p.getSpec.containers.foldl NodeResourceUsage.add u

theorem amount_foldl_addPod (ps : List Pod) (u : NodeResourceUsage) :
    (ps.foldl NodeResourceUsage.addPod u).amount a = u.amount a + Int64.ofInt (podsAmount ps a) :=
  measure_foldl (μ := (·.amount a)) (g := (podAmount · a)) (fun u _ => amount_foldl_add _ u) ps u

/-- The usage of a node counts its own pods only. -/
theorem getD_nodeUsageOf (hn : name ≠ "") (all : List Pod) :
    (nodeUsageOf all).getD name {} =
      (all.filter fun p => p.getSpec.nodeName = name).foldl NodeResourceUsage.addPod {} := by
  -- the induction is on the pods still to be counted, from any usage so far
  have key : ∀ (all : List Pod) (usage : Dict String NodeResourceUsage),
      (all.foldl (fun usage p =>
        if p.getSpec.nodeName = "" then usage
        else usage.insert p.getSpec.nodeName
          (p.getSpec.containers.foldl NodeResourceUsage.add
            (usage.getD p.getSpec.nodeName {}))) usage).getD name {} =
      (all.filter fun p => p.getSpec.nodeName = name).foldl NodeResourceUsage.addPod
        (usage.getD name {}) := by
    intro all
    induction all with
    | nil => intro usage; rfl
    | cons p all ih =>
      intro usage
      rw [foldl_cons, ih]
      by_cases he : p.getSpec.nodeName = name
      · rw [filter_cons_of_pos (by simpa using he), foldl_cons, he, if_neg hn,
          Finmap.getD_insert, if_pos rfl]
        rfl
      · rw [filter_cons_of_neg (by simpa using he)]
        split
        · rfl
        · rw [Finmap.getD_insert, if_neg fun h => he h.symm]
  have := key all ∅
  rwa [Finmap.getD_empty] at this

/-- **What is used on a node is the load**, reduced to 64 bits. -/
theorem amount_nodeUsage (hn : name ≠ "") (all : List Pod) :
    ((nodeUsageOf all).getD name {}).amount a = Int64.ofInt (load all name a) := by
  have h0 : (({} : NodeResourceUsage).amount a) = 0 := by cases a <;> rfl
  rw [getD_nodeUsageOf hn, amount_foldl_addPod, h0, Int64.zero_add]
  rfl

theorem mem_ports_foldl_add (cs : List Container) :
    ∀ u : NodeResourceUsage, q ∈ (cs.foldl NodeResourceUsage.add u).ports ↔
      q ∈ u.ports ∨ ∃ c ∈ cs, q ∈ c.containerPorts := by
  induction cs with
  | nil => intro u; simp
  | cons c cs ih =>
    intro u
    rw [foldl_cons, ih]
    simp [NodeResourceUsage.add, or_assoc]

theorem mem_ports_foldl_addPod (ps : List Pod) :
    ∀ u : NodeResourceUsage, q ∈ (ps.foldl NodeResourceUsage.addPod u).ports ↔
      q ∈ u.ports ∨ ∃ p ∈ ps, ∃ c ∈ p.getSpec.containers, q ∈ c.containerPorts := by
  induction ps with
  | nil => intro u; simp
  | cons p ps ih =>
    intro u
    rw [foldl_cons, ih, NodeResourceUsage.addPod, mem_ports_foldl_add]
    simp [or_assoc]

/-- The ports in use on a node are those its pods declare. -/
theorem mem_ports_nodeUsage (hn : name ≠ "") {all : List Pod} :
    q ∈ ((nodeUsageOf all).getD name {}).ports ↔
      ∃ p ∈ all, p.getSpec.nodeName = name ∧
        ∃ c ∈ p.getSpec.containers, q ∈ c.containerPorts := by
  rw [getD_nodeUsageOf hn, mem_ports_foldl_addPod]
  simp [and_assoc]

/-- The loop of `podResourceRequest`, from any sums so far. -/
theorem requests_foldl (cs : List Container) :
    ∀ (cpu mem : Int64) (acc : Dict String Int64) (ports : List Int32),
      cs.foldl (fun (cpuMillis, memoryBytes, accelerators, ports) c =>
        (cpuMillis + c.requests.cpuMillis, memoryBytes + c.requests.memoryBytes,
          accelerators.addAll c.requests.accelerators, ports ++ c.containerPorts))
        (cpu, mem, acc, ports) =
      (cpu + Int64.ofInt (containersAmount cs .cpu),
        mem + Int64.ofInt (containersAmount cs .memory),
        cs.foldl (fun acc c => acc.addAll c.requests.accelerators) acc,
        ports ++ cs.flatMap fun c => c.containerPorts) := by
  induction cs with
  | nil => intro cpu mem acc ports; simp [containersAmount]
  | cons c cs ih =>
    intro cpu mem acc ports
    simp only [foldl_cons, ih, containersAmount_cons, Int64.ofInt_add, Int64.ofInt_toInt,
      Int64.add_assoc, flatMap_cons, append_assoc, amountOf]

theorem getD_foldl_addAll (cs : List Container) (name : String) (acc : Dict String Int64) :
    (cs.foldl (fun acc c => acc.addAll c.requests.accelerators) acc).getD name 0 =
      acc.getD name 0 + Int64.ofInt (containersAmount cs (.accelerator name)) :=
  measure_foldl (μ := (·.getD name 0)) (fun acc c => by
    rw [Finmap.getD_addAll rfl, Int64.ofInt_toInt]
    rfl) cs acc

/-- **What the scheduler is asked for is what the pod asks for**, reduced to 64 bits. -/
theorem requested_requestOf : requested (requestOf p) a = Int64.ofInt (podAmount p a) := by
  rw [requestOf, podResourceRequest, requests_foldl]
  cases a with
  | cpu | memory => exact Int64.zero_add _
  | accelerator name =>
    rw [requested, getD_foldl_addAll, Finmap.getD_empty]
    exact Int64.zero_add _

theorem containerPorts_requestOf :
    (requestOf p).containerPorts = p.getSpec.containers.flatMap fun c => c.containerPorts := by
  rw [requestOf, podResourceRequest, requests_foldl]
  rfl

theorem free_candidateOf (usage : Dict String NodeResourceUsage) (n : Node) :
    free (candidateOf usage n) a =
      amountOf n.allocatable a - (usage.getD n.getMetadata.name {}).amount a := by
  cases a <;> rfl

end

/-! ### Loads and listings -/

section

variable {s : State} {order : List String}

theorem sum_map_filter (l : List Pod) (name : String) (f : Pod → Int) :
    ((l.filter fun p => p.getSpec.nodeName = name).map f).sum =
      (l.map fun p => if p.getSpec.nodeName = name then f p else 0).sum := by
  induction l with
  | nil => rfl
  | cons p l ih =>
    by_cases h : p.getSpec.nodeName = name <;> simp [h, ih]

/-- **A listing in any order has the load of the store.** -/
theorem load_listed (ho : Finmap.IsOrder order (s.listing .pods "")) (name : String) (a : Amount) :
    load (s.listed .pods "" order) name a = onNode (s .pods) name fun p => podAmount p a := by
  rw [load, podsAmount, sum_map_filter, State.listed, map_map, State.listing_all]
  rw [State.listing_all] at ho
  exact ho.sum_range fun _ p => if p.getSpec.nodeName = name then podAmount p a else 0

/-- Pods that move to a node add to its load. -/
theorem load_map {g : Pod → Pod} {a : Amount} :
    ∀ {l : List Pod}, (∀ p ∈ l, podAmount (g p) a = podAmount p a ∧
      (p.getSpec.nodeName = name → (g p).getSpec.nodeName = name)) →
      load (l.map g) name a = load l name a +
        podsAmount (l.filter fun p =>
          p.getSpec.nodeName ≠ name ∧ (g p).getSpec.nodeName = name) a
  | [], _ => rfl
  | p :: l, h => by
    obtain ⟨⟨ha, hn⟩, hl⟩ := forall_mem_cons.mp h
    have ih := load_map hl
    simp only [load, map_cons] at ih ⊢
    by_cases h₁ : p.getSpec.nodeName = name
    · simp only [filter_cons, h₁, hn h₁, ne_eq, not_true_eq_false, false_and, decide_true,
        decide_false, if_true, Bool.false_eq_true, if_false, podsAmount_cons, ha, ih]
      omega
    · by_cases h₂ : (g p).getSpec.nodeName = name
      · simp only [filter_cons, h₁, h₂, ne_eq, not_false_eq_true, true_and, decide_true,
          decide_false, if_true, Bool.false_eq_true, if_false, podsAmount_cons, ha, ih]
        omega
      · simp only [filter_cons, h₁, h₂, and_false, decide_false, Bool.false_eq_true,
          if_false, ih]

end

/-! ### The tests of the scheduler -/

section

variable {pod : PodRequest} {n : NodeCandidate}

/-- The tests of `Schedule`, amount by amount. -/
theorem fits_iff :
    n.fits pod = true ↔
      (¬ free n .cpu < requested pod .cpu ∧ ¬ free n .memory < requested pod .memory) ∧
      (∀ name, 0 < requested pod (.accelerator name) →
        ¬ free n (.accelerator name) < requested pod (.accelerator name)) ∧
      ∀ q ∈ pod.containerPorts, q ∉ n.usedPorts := by
  have hacc : acceleratorsFit pod.acceleratorsRequested n.acceleratorCapacity
      n.acceleratorUsed = true ↔ ∀ name, 0 < requested pod (.accelerator name) →
        ¬ free n (.accelerator name) < requested pod (.accelerator name) := by
    rw [acceleratorsFit, decide_eq_true_eq]
    constructor
    · intro h name hpos
      refine h name ?_ hpos
      -- an accelerator that is not requested counts as zero
      by_contra hk
      rw [Finmap.mem_keys, ← Finmap.lookup_eq_none] at hk
      simp [requested, Finmap.getD, hk] at hpos
    · intro h name _; exact h name
  have hports : portsFit pod.containerPorts n.usedPorts = true ↔
      ∀ q ∈ pod.containerPorts, q ∉ n.usedPorts := by
    simp [portsFit]
  simp only [NodeCandidate.fits, Bool.and_eq_true, Bool.not_eq_true', Bool.or_eq_false_iff,
    decide_eq_false_iff_not, hacc, hports, and_assoc, free, requested]

/-- Taking a load off an amount that is not negative. -/
theorem toInt_sub_ofInt {x : Int64} {l : Int} (hx : 0 ≤ x.toInt) (h0 : 0 ≤ l) (hl : l < 2 ^ 63) :
    (x - Int64.ofInt l).toInt = x.toInt - l := by
  have hlt := toInt_lt x
  rw [toInt_sub, toInt_ofInt_of_le (by omega) hl]
  exact Int.bmod_eq_of_le (by omega) (by omega)

end

/-! ### Fuller nodes -/

/-- No container of the pod asks for a negative amount. -/
def NonNegative (p : Pod) : Prop :=
  ∀ c ∈ p.getSpec.containers, ∀ a, 0 ≤ (amountOf c.requests a).toInt

section

variable {p : Pod} {ps : List Pod} {a : Amount}

theorem podAmount_nonneg (h : NonNegative p) : 0 ≤ podAmount p a := by
  refine sum_nonneg fun x hx => ?_
  obtain ⟨c, hc, rfl⟩ := mem_map.mp hx
  exact h c hc a

theorem podsAmount_nonneg (h : ∀ p ∈ ps, NonNegative p) : 0 ≤ podsAmount ps a := by
  refine sum_nonneg fun x hx => ?_
  obtain ⟨p, hp, rfl⟩ := mem_map.mp hx
  exact podAmount_nonneg (h p hp)

theorem podAmount_le_podsAmount (h : ∀ p ∈ ps, NonNegative p) (hp : p ∈ ps) :
    podAmount p a ≤ podsAmount ps a := by
  refine single_le_sum (fun x hx => ?_) _ (mem_map.mpr ⟨p, hp, rfl⟩)
  obtain ⟨q, hq, rfl⟩ := mem_map.mp hx
  exact podAmount_nonneg (h q hq)

/-- Without overflow the scheduler is asked for what the pod asks for. -/
theorem toInt_requested (h : ∀ p ∈ ps, NonNegative p) (hlt : podsAmount ps a < 2 ^ 63)
    (hp : p ∈ ps) : (requested (requestOf p) a).toInt = podAmount p a := by
  have h₀ := podAmount_nonneg (a := a) (h p hp)
  have h₁ := podAmount_le_podsAmount (a := a) h hp
  rw [requested_requestOf, toInt_ofInt_of_le (by omega) (by omega)]

/-- **A node that takes a pod now would have taken it before others were placed there.**  The others
were taken against the amounts that were free before, so these were not negative, and taking the
load off does not wrap. -/
theorem eligible_of_fuller {usage usage' : Dict String NodeResourceUsage} {n : Node}
    {pod : PodRequest} (hu : ∀ a, (usage'.getD n.getMetadata.name {}).amount a =
      (usage.getD n.getMetadata.name {}).amount a + Int64.ofInt (podsAmount ps a))
    (hports : (usage.getD n.getMetadata.name {}).ports ⊆ (usage'.getD n.getMetadata.name {}).ports)
    (hnn : ∀ p ∈ ps, NonNegative p) (hlt : ∀ a, podsAmount ps a < 2 ^ 63)
    (hps : ∀ p ∈ ps, Eligible (requestOf p) (candidateOf usage n))
    (he : Eligible pod (candidateOf usage' n)) : Eligible pod (candidateOf usage n) := by
  have hfree : ∀ a, free (candidateOf usage' n) a =
      free (candidateOf usage n) a - Int64.ofInt (podsAmount ps a) := by
    intro a
    rw [free_candidateOf, free_candidateOf, hu, Int64.sub_sub]
  have hsame : ∀ a, podsAmount ps a = 0 →
      free (candidateOf usage' n) a = free (candidateOf usage n) a := by
    intro a h0
    rw [hfree, h0]
    exact Int64.sub_zero _
  have hle : ∀ a, ∀ p ∈ ps, ¬ free (candidateOf usage n) a < requested (requestOf p) a →
      (free (candidateOf usage' n) a).toInt ≤ (free (candidateOf usage n) a).toInt := by
    intro a p hp h
    have h₀ := podAmount_nonneg (a := a) (hnn p hp)
    have hs := podsAmount_nonneg (a := a) hnn
    rw [lt_iff_toInt_lt, toInt_requested hnn (hlt a) hp] at h
    rw [hfree, toInt_sub_ofInt (by omega) hs (hlt a)]
    omega
  obtain ⟨hfit, hscore⟩ := he
  obtain ⟨⟨hcpu, hmem⟩, hacc, hport⟩ := fits_iff.mp hfit
  rw [lt_iff_toInt_lt] at hcpu hmem
  have hport' : ∀ q ∈ pod.containerPorts, q ∉ (candidateOf usage n).usedPorts :=
    fun q hq hm => hport q hq (hports hm)
  -- an accelerator that none of the others asked for is as free as before
  have hacc' : ∀ name, 0 < requested pod (.accelerator name) →
      ¬ free (candidateOf usage n) (.accelerator name) < requested pod (.accelerator name) := by
    intro name hpos
    have hold := hacc name hpos
    by_cases hex : ∃ p ∈ ps, 0 < podAmount p (.accelerator name)
    · obtain ⟨p, hp, hpp⟩ := hex
      obtain ⟨-, hfitp, -⟩ := fits_iff.mp (hps p hp).1
      have hreq : 0 < requested (requestOf p) (.accelerator name) := by
        rw [lt_iff_toInt_lt, toInt_requested hnn (hlt _) hp]
        exact hpp
      have := hle _ p hp (hfitp name hreq)
      rw [lt_iff_toInt_lt] at hold ⊢
      omega
    · have h0 : podsAmount ps (.accelerator name) = 0 := by
        refine List.sum_eq_zero fun x hx => ?_
        obtain ⟨p, hp, rfl⟩ := mem_map.mp hx
        have := podAmount_nonneg (a := .accelerator name) (hnn p hp)
        have : ¬ 0 < podAmount p (.accelerator name) := fun h => hex ⟨p, hp, h⟩
        omega
      rwa [hsame _ h0] at hold
  cases ps with
  | nil =>
    have hsame' : ∀ a, free (candidateOf usage' n) a = free (candidateOf usage n) a :=
      fun a => hsame a rfl
    rw [hsame'] at hcpu hmem
    refine ⟨fits_iff.mpr ⟨⟨?_, ?_⟩, hacc', hport'⟩, ?_⟩
    · rwa [lt_iff_toInt_lt]
    · rwa [lt_iff_toInt_lt]
    · have hs : (candidateOf usage' n).score = (candidateOf usage n).score :=
        congrArg₂ (· + ·) (hsame' .cpu) (hsame' .memory)
      rwa [hs] at hscore
  | cons p ps =>
    -- the score was not negative either, for the first of the others was taken
    obtain ⟨hfitp, hscorep⟩ := hps p mem_cons_self
    obtain ⟨⟨hcpup, hmemp⟩, -, -⟩ := fits_iff.mp hfitp
    have h₁ := hle .cpu p mem_cons_self hcpup
    have h₂ := hle .memory p mem_cons_self hmemp
    refine ⟨fits_iff.mpr ⟨⟨?_, ?_⟩, hacc', hport'⟩, hscorep⟩
    · rw [lt_iff_toInt_lt]; omega
    · rw [lt_iff_toInt_lt]; omega

end

end NimbusCore.Controller
