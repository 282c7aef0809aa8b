import NimbusCore.Support.Maps
import NimbusCore.Support.Selection

/-!
# Scheduler — one pod, a list of candidates

`internal/scheduler/scheduler.go`.  `Schedule` walks the candidates and keeps the one with the
largest score among those that fit.  All amounts are `int64` and wrap.

* `schedule_ok`: the answer names a candidate that fits, and whose score is not negative.
* `schedule_error_iff`: there is no answer exactly when every candidate that fits has a negative
  score.
* `schedule_correct`: where nothing overflows, there is no answer exactly when no candidate fits,
  and else the first with the most free is named.
-/

namespace NimbusCore.Scheduler

open Int64

/-- `NodeCandidate`.  `UsedPorts` is the set of ports it maps to true. -/
structure NodeCandidate where
  name : String
  cpuCapacity : Int64
  memCapacity : Int64
  cpuUsed : Int64
  memUsed : Int64
  acceleratorCapacity : Dict String Int64
  acceleratorUsed : Dict String Int64
  usedPorts : Finset Int32

/-- `PodRequest`. -/
structure PodRequest where
  name : String
  cpuRequest : Int64
  memRequest : Int64
  acceleratorsRequested : Dict String Int64
  containerPorts : List Int32

/-- `ErrNoNodeAvailable`: "scheduler: no node available". -/
inductive ScheduleError where
  | noNodeAvailable
  deriving DecidableEq

/-- `acceleratorsFit`: every accelerator of which some is wanted is free in that amount. -/
def acceleratorsFit (requested capacity used : Dict String Int64) : Bool :=
  decide (∀ name ∈ requested.keys, 0 < requested.getD name 0 →
    ¬ capacity.getD name 0 - used.getD name 0 < requested.getD name 0)

/-- `portsFit`. -/
def portsFit (requested : List Int32) (used : Finset Int32) : Bool :=
  requested.all fun port => port ∉ used

namespace NodeCandidate

def freeCPU (n : NodeCandidate) : Int64 := n.cpuCapacity - n.cpuUsed
def freeMem (n : NodeCandidate) : Int64 := n.memCapacity - n.memUsed
def score (n : NodeCandidate) : Int64 := n.freeCPU + n.freeMem

/-- The tests of `Schedule` that skip a candidate. -/
def fits (pod : PodRequest) (n : NodeCandidate) : Bool :=
  !(n.freeCPU < pod.cpuRequest || n.freeMem < pod.memRequest) &&
    acceleratorsFit pod.acceleratorsRequested n.acceleratorCapacity n.acceleratorUsed &&
    portsFit pod.containerPorts n.usedPorts

end NodeCandidate

/-- The loop of `Schedule`. -/
def scheduleLoop (pod : PodRequest) :
    List NodeCandidate → Option NodeCandidate → Int64 → Option NodeCandidate
  | [], best, _ => best
  | n :: nodes, best, bestScore =>
    if n.fits pod && bestScore < n.score then scheduleLoop pod nodes (some n) n.score
    else scheduleLoop pod nodes best bestScore

/-- `basic.Schedule`. -/
def schedule (pod : PodRequest) (nodes : List NodeCandidate) : Except ScheduleError String :=
  match scheduleLoop pod nodes none (-1) with
  | none => .error .noNodeAvailable
  | some best => .ok best.name

/-! ### What it answers -/

/-- A candidate the loop can take: it fits, and its score is above the first bound. -/
def Eligible (pod : PodRequest) (n : NodeCandidate) : Prop := n.fits pod = true ∧ -1 < n.score

variable {pod : PodRequest}

/-- The loop ends with what it had or with a candidate that it can take. -/
theorem scheduleLoop_some {best' : NodeCandidate} :
    ∀ {nodes : List NodeCandidate} {best : Option NodeCandidate} {bestScore : Int64},
      -1 ≤ bestScore → scheduleLoop pod nodes best bestScore = some best' →
      best = some best' ∨ best' ∈ nodes ∧ Eligible pod best'
  | [], best, _, _, h => .inl h
  | n :: nodes, best, bestScore, hb, h => by
    rw [scheduleLoop] at h
    split at h
    · next hn =>
      simp only [Bool.and_eq_true, decide_eq_true_eq] at hn
      have hs : -1 < n.score := Int64.lt_of_le_of_lt hb hn.2
      rcases scheduleLoop_some (Int64.le_of_lt hs) h with he | ⟨hm, he⟩
      · cases he; exact .inr ⟨List.mem_cons_self, hn.1, hs⟩
      · exact .inr ⟨List.mem_cons_of_mem _ hm, he⟩
    · rcases scheduleLoop_some hb h with he | ⟨hm, he⟩
      · exact .inl he
      · exact .inr ⟨List.mem_cons_of_mem _ hm, he⟩

/-- It ends with nothing only if it had nothing and can take no candidate. -/
theorem scheduleLoop_none :
    ∀ {nodes : List NodeCandidate} {best : Option NodeCandidate} {bestScore : Int64},
      scheduleLoop pod nodes best bestScore = none →
      best = none ∧ ∀ n ∈ nodes, n.fits pod = true → ¬ bestScore < n.score
  | [], best, _, h => ⟨h, fun n hn => absurd hn List.not_mem_nil⟩
  | n :: nodes, best, bestScore, h => by
    rw [scheduleLoop] at h
    split at h
    · exact absurd (scheduleLoop_none h).1 (by simp)
    · next hn =>
      obtain ⟨hb, hall⟩ := scheduleLoop_none h
      refine ⟨hb, fun m hm => ?_⟩
      rcases List.mem_cons.mp hm with rfl | hm
      · intro hf hlt; exact hn (by simp [hf, hlt])
      · exact hall m hm

/-- **The answer names a candidate that fits.** -/
theorem schedule_ok {nodes : List NodeCandidate} {name : String}
    (h : schedule pod nodes = .ok name) : ∃ n ∈ nodes, n.name = name ∧ Eligible pod n := by
  simp only [schedule] at h
  split at h
  · cases h
  · next best hbest =>
    cases h
    rcases scheduleLoop_some (Int64.le_refl _) hbest with he | ⟨hm, he⟩
    · cases he
    · exact ⟨best, hm, rfl, he⟩

/-- **There is no answer exactly when no candidate can be taken.** -/
theorem schedule_error_iff {nodes : List NodeCandidate} :
    schedule pod nodes = .error .noNodeAvailable ↔ ∀ n ∈ nodes, ¬ Eligible pod n := by
  simp only [schedule]
  constructor
  · intro h
    split at h
    · next hnone =>
      intro n hn he
      exact (scheduleLoop_none hnone).2 n hn he.1 he.2
    · cases h
  · intro h
    split
    · rfl
    · next best hbest =>
      rcases scheduleLoop_some (Int64.le_refl _) hbest with he | ⟨hm, he⟩
      · cases he
      · exact absurd he (h best hm)

/-! ### Without overflow -/

namespace NodeCandidate

/-- The free CPU and memory, as numbers. -/
def freeAmount (n : NodeCandidate) : Int × Int :=
  (n.cpuCapacity.toInt - n.cpuUsed.toInt, n.memCapacity.toInt - n.memUsed.toInt)

/-- Free CPU and free memory together. -/
def freeSum (n : NodeCandidate) : Int := n.freeAmount.1 + n.freeAmount.2

/-- The free units of an accelerator. -/
def freeUnits (n : NodeCandidate) (name : String) : Int :=
  (n.acceleratorCapacity.getD name 0).toInt - (n.acceleratorUsed.getD name 0).toInt

end NodeCandidate

/-- A number of 64 bits. -/
def InInt64 (x : Int) : Prop := -2 ^ 63 ≤ x ∧ x < 2 ^ 63

instance (x : Int) : Decidable (InInt64 x) := inferInstanceAs (Decidable (_ ∧ _))

/-- **The pod fits on the node**: the free CPU and memory cover the request, there are enough free
units of every accelerator of which some are requested, and no port of the pod is used. -/
structure Fits (pod : PodRequest) (n : NodeCandidate) : Prop where
  cpu : pod.cpuRequest.toInt ≤ n.freeAmount.1
  mem : pod.memRequest.toInt ≤ n.freeAmount.2
  accelerators : ∀ name want, pod.acceleratorsRequested.lookup name = some want → 0 < want.toInt →
    want.toInt ≤ n.freeUnits name
  ports : ∀ port ∈ pod.containerPorts, port ∉ n.usedPorts

/-- No difference and no sum that `Schedule` takes of the candidate overflows. -/
structure Exact (pod : PodRequest) (n : NodeCandidate) : Prop where
  cpu : InInt64 n.freeAmount.1
  mem : InInt64 n.freeAmount.2
  sum : InInt64 n.freeSum
  accelerators : ∀ name ∈ pod.acceleratorsRequested, InInt64 (n.freeUnits name)

/-- The loop keeps the best. -/
theorem scheduleLoop_eq (pod : PodRequest) :
    ∀ (nodes : List NodeCandidate) (best : Option NodeCandidate) (bestScore : Int64),
      scheduleLoop pod nodes best bestScore =
        keepBest (NodeCandidate.fits pod) (fun n => n.score.toInt) nodes best bestScore.toInt
  | [], _, _ => rfl
  | n :: nodes, best, bestScore => by
    rw [scheduleLoop, keepBest, scheduleLoop_eq pod nodes, scheduleLoop_eq pod nodes]
    simp only [lt_iff_toInt_lt]

theorem toInt_sub_of_inInt64 {a b : Int64} (h : InInt64 (a.toInt - b.toInt)) :
    (a - b).toInt = a.toInt - b.toInt := by
  obtain ⟨hlo, hhi⟩ := h
  rw [toInt_sub, Int.bmod_eq_of_le (by omega) (by omega)]

namespace Exact

variable {pod : PodRequest} {n : NodeCandidate} (h : Exact pod n)

include h

theorem toInt_freeCPU : n.freeCPU.toInt = n.freeAmount.1 := toInt_sub_of_inInt64 h.cpu

theorem toInt_freeMem : n.freeMem.toInt = n.freeAmount.2 := toInt_sub_of_inInt64 h.mem

theorem toInt_score : n.score.toInt = n.freeSum := by
  obtain ⟨hlo, hhi⟩ := h.sum
  rw [NodeCandidate.score, toInt_add, h.toInt_freeCPU, h.toInt_freeMem]
  exact Int.bmod_eq_of_le (by rw [NodeCandidate.freeSum] at hlo; omega)
    (by rw [NodeCandidate.freeSum] at hhi; omega)

theorem acceleratorsFit_iff :
    acceleratorsFit pod.acceleratorsRequested n.acceleratorCapacity n.acceleratorUsed = true ↔
      ∀ name want, pod.acceleratorsRequested.lookup name = some want → 0 < want.toInt →
        want.toInt ≤ n.freeUnits name := by
  have hone : ∀ name want, pod.acceleratorsRequested.lookup name = some want →
      (¬ n.acceleratorCapacity.getD name 0 - n.acceleratorUsed.getD name 0 < want ↔
        want.toInt ≤ n.freeUnits name) := by
    intro name want hw
    have hfree := toInt_sub_of_inInt64 (h.accelerators name (Finmap.mem_of_lookup_eq_some hw))
    rw [lt_iff_toInt_lt, hfree, not_lt]
    exact Iff.rfl
  have hwant : ∀ name want, pod.acceleratorsRequested.lookup name = some want →
      pod.acceleratorsRequested.getD name 0 = want := by
    intro name want hw
    rw [Finmap.getD, hw, Option.getD_some]
  rw [acceleratorsFit, decide_eq_true_eq]
  constructor
  · intro hall name want hw hpos
    have hfit := hall name (Finmap.mem_keys.mpr (Finmap.mem_of_lookup_eq_some hw))
    rw [hwant name want hw] at hfit
    exact (hone name want hw).mp (hfit (lt_iff_toInt_lt.mpr hpos))
  · intro hall name hname hpos
    obtain ⟨want, hw⟩ := Finmap.mem_iff.mp (Finmap.mem_keys.mp hname)
    rw [hwant name want hw] at hpos ⊢
    exact (hone name want hw).mpr (hall name want hw (lt_iff_toInt_lt.mp hpos))

/-- **The tests of `Schedule` say whether the pod fits.** -/
theorem fits_iff : n.fits pod = true ↔ Fits pod n := by
  rw [NodeCandidate.fits, Bool.and_eq_true, Bool.and_eq_true, h.acceleratorsFit_iff]
  simp only [Bool.not_eq_true', Bool.or_eq_false_iff, decide_eq_false_iff_not, portsFit,
    List.all_eq_true, decide_eq_true_eq]
  rw [lt_iff_toInt_lt, lt_iff_toInt_lt, h.toInt_freeCPU, h.toInt_freeMem, not_lt, not_lt]
  constructor
  · rintro ⟨⟨⟨hcpu, hmem⟩, haccelerators⟩, hports⟩
    exact ⟨hcpu, hmem, haccelerators, hports⟩
  · intro hf
    exact ⟨⟨⟨hf.cpu, hf.mem⟩, hf.accelerators⟩, hf.ports⟩

end Exact

/-- What fits leaves nothing below zero. -/
theorem Fits.freeSum_nonneg {n : NodeCandidate} (h : Fits pod n)
    (hcpu : 0 ≤ pod.cpuRequest) (hmem : 0 ≤ pod.memRequest) : 0 ≤ n.freeSum := by
  have hcpu : 0 ≤ pod.cpuRequest.toInt := le_iff_toInt_le.mp hcpu
  have hmem : 0 ≤ pod.memRequest.toInt := le_iff_toInt_le.mp hmem
  have hcpu' := h.cpu
  have hmem' := h.mem
  rw [NodeCandidate.freeSum]
  omega

section

variable {pod : PodRequest} {nodes : List NodeCandidate}

/-- **Nobody is refused without need**: the answer is an error only if no candidate fits. -/
theorem error_iff_of_exact (hcpu : 0 ≤ pod.cpuRequest) (hmem : 0 ≤ pod.memRequest)
    (hexact : ∀ n ∈ nodes, Exact pod n) :
    schedule pod nodes = .error .noNodeAvailable ↔ ∀ n ∈ nodes, ¬ Fits pod n := by
  rw [schedule_error_iff]
  refine forall₂_congr fun n hn => not_congr ?_
  rw [Eligible, (hexact n hn).fits_iff, lt_iff_toInt_lt, (hexact n hn).toInt_score]
  refine and_iff_left_of_imp fun hfits => ?_
  exact lt_of_lt_of_le (by decide) (hfits.freeSum_nonneg hcpu hmem)

/-- **The answer is the first of the candidates that fit with the most free.** -/
theorem ok_iff_of_exact (hcpu : 0 ≤ pod.cpuRequest) (hmem : 0 ≤ pod.memRequest)
    (hexact : ∀ n ∈ nodes, Exact pod n) (name : String) :
    schedule pod nodes = .ok name ↔
      ∃ n, Leads (Fits pod) NodeCandidate.freeSum nodes n ∧ n.name = name := by
  have hsame : ∀ n ∈ nodes, (n.fits pod = true ↔ Fits pod n) ∧ n.score.toInt = n.freeSum :=
    fun n hn => ⟨(hexact n hn).fits_iff, (hexact n hn).toInt_score⟩
  have hloop : ∀ n, scheduleLoop pod nodes none (-1) = some n ↔
      Leads (Fits pod) NodeCandidate.freeSum nodes n := by
    intro n
    rw [scheduleLoop_eq, keepBest_eq_some_iff]
    constructor
    · rintro (⟨hnone, -⟩ | ⟨hleads, -⟩)
      · cases hnone
      · exact hleads.congr hsame
    · intro hleads
      obtain ⟨hn, hfits, -⟩ := hleads.best
      refine .inr ⟨hleads.congr fun m hm => ⟨(hsame m hm).1.symm, (hsame m hm).2.symm⟩, ?_⟩
      -- The score that the loop starts with is below every score of a candidate that fits.
      rw [(hsame n hn).2]
      exact lt_of_lt_of_le (by decide) (hfits.freeSum_nonneg hcpu hmem)
  rw [schedule]
  cases hbest : scheduleLoop pod nodes none (-1) with
  | none =>
    constructor
    · intro h
      cases h
    · rintro ⟨n, hleads, -⟩
      rw [(hloop n).mpr hleads] at hbest
      cases hbest
  | some best =>
    constructor
    · intro h
      cases h
      exact ⟨best, (hloop best).mp hbest, rfl⟩
    · rintro ⟨n, hleads, rfl⟩
      cases hbest.symm.trans ((hloop n).mpr hleads)
      rfl

/-- **The scheduler is correct.**  It answers with an error exactly if no candidate fits, and else
with the first that has the most free; and if no two have the same free, their order makes no
difference. -/
theorem schedule_correct (hcpu : 0 ≤ pod.cpuRequest) (hmem : 0 ≤ pod.memRequest)
    (hexact : ∀ n ∈ nodes, Exact pod n) :
    (schedule pod nodes = .error .noNodeAvailable ↔ ∀ n ∈ nodes, ¬ Fits pod n) ∧
      (∀ name, schedule pod nodes = .ok name ↔
        ∃ n, Leads (Fits pod) NodeCandidate.freeSum nodes n ∧ n.name = name) ∧
      (nodes.Pairwise (fun m n => m.freeSum ≠ n.freeSum) →
        ∀ nodes', nodes.Perm nodes' → schedule pod nodes' = schedule pod nodes) := by
  refine ⟨error_iff_of_exact hcpu hmem hexact, ok_iff_of_exact hcpu hmem hexact, ?_⟩
  intro hne nodes' hperm
  have hexact' : ∀ n ∈ nodes', Exact pod n := fun n hn => hexact n (hperm.mem_iff.mpr hn)
  cases hs : schedule pod nodes with
  | ok name =>
    obtain ⟨n, hleads, hn⟩ := (ok_iff_of_exact hcpu hmem hexact name).mp hs
    exact (ok_iff_of_exact hcpu hmem hexact' name).mpr ⟨n, hleads.perm hne hperm, hn⟩
  | error err =>
    cases err with
    | noNodeAvailable =>
      have hnone := (error_iff_of_exact hcpu hmem hexact).mp hs
      exact (error_iff_of_exact hcpu hmem hexact').mpr fun n hn =>
        hnone n (hperm.mem_iff.mpr hn)

end

/-- A node with as much CPU and memory free, and nothing else. -/
def emptyNode (name : String) (free : Int64) : NodeCandidate where
  name := name
  cpuCapacity := free
  memCapacity := free
  cpuUsed := 0
  memUsed := 0
  acceleratorCapacity := ∅
  acceleratorUsed := ∅
  usedPorts := ∅

/-- A pod that requests one of each. -/
def onePod : PodRequest where
  name := "p"
  cpuRequest := 1
  memRequest := 1
  acceleratorsRequested := ∅
  containerPorts := [80]

theorem schedule_correct_sample :
    (∀ n ∈ [emptyNode "a" 1, emptyNode "b" 2], Exact onePod n) ∧
      schedule onePod [emptyNode "a" 1, emptyNode "b" 2] =
        schedule onePod [emptyNode "b" 2, emptyNode "a" 1] := by
  have hexact : ∀ n ∈ [emptyNode "a" 1, emptyNode "b" 2], Exact onePod n := by
    intro n hn
    rcases List.mem_pair.mp hn with rfl | rfl <;>
      exact ⟨by decide, by decide, by decide, fun _ h => absurd h Finmap.notMem_empty⟩
  exact ⟨hexact, (schedule_correct (by decide) (by decide) hexact).2.2 (by decide)
    [emptyNode "b" 2, emptyNode "a" 1] (List.Perm.swap ..) |>.symm⟩

end NimbusCore.Scheduler
