import Mathlib.Algebra.BigOperators.Ring.List
import Mathlib.Algebra.BigOperators.Ring.Multiset
import Mathlib.Algebra.Order.BigOperators.Group.List
import Mathlib.Algebra.Order.Field.Rat
import Mathlib.Tactic.NormNum
import NimbusCore.Registry.Clock

/-!
# Finops — what pods cost

`internal/finops/cost.go`, over exact numbers.  A pod is charged by the hour, from the time of its
creation in its metadata, for what its containers request; the report adds the charges up, in total,
by namespace and by the value of a label.

* `total_estimate`, `byNamespace_estimate`: the report is the sum of the charges.
* `charge_pos_iff`: a pod is charged if it has a time of creation, which has passed, and its
  requests come to something.
* `contributes_iff`: then, and only then, a report that lists it is larger for it.
-/

namespace NimbusCore.Finops

open Api Registry List Int64

/-- `CostModel`. -/
structure CostModel where
  cpuCoreHour : ℚ
  memoryGBHour : ℚ
  acceleratorHour : Dict String ℚ

/-- `DefaultCostModel`. -/
def defaultCostModel : CostModel := ⟨3 / 100, 4 / 1000, ∅⟩

/-- `Report`. -/
structure Report where
  total : ℚ
  byNamespace : Dict String ℚ
  byLabel : Dict String ℚ

/-- `newReport`. -/
def newReport : Report := ⟨0, ∅, ∅⟩

/-- `m[k] += x`. -/
def addAt (m : Dict String ℚ) (k : String) (x : ℚ) : Dict String ℚ := m.insert k (m.getD k 0 + x)

/-- `runningHours`. -/
def runningHours (p : Pod) (now : Time) : ℚ :=
  let createdAt := p.getMetadata.createdAtUnix
  if createdAt ≤ 0 then 0
  else
    let elapsed := Time.sub now (Time.ofUnix createdAt)
    if elapsed ≤ 0 then 0 else elapsed.toInt / 3600000000000

/-- What a container costs in so many hours. -/
def containerCost (model : CostModel) (hours : ℚ) (c : Container) : ℚ :=
  c.requests.cpuMillis.toInt / 1000 * model.cpuCoreHour * hours +
    c.requests.memoryBytes.toInt / 2 ^ 30 * model.memoryGBHour * hours +
    c.requests.accelerators.sum fun name count =>
      count.toInt * model.acceleratorHour.getD name 0 * hours

/-- What a pod costs in so many hours. -/
def podCost (model : CostModel) (hours : ℚ) (p : Pod) : ℚ :=
  (p.getSpec.containers.map (containerCost model hours)).sum

/-- One round of the loop of `Estimate`. -/
def addPod (model : CostModel) (labelKey : String) (now : Time) (report : Report) (p : Pod) :
    Report :=
  let hours := runningHours p now
  if hours ≤ 0 then report
  else
    { total := report.total + podCost model hours p
      byNamespace := addAt report.byNamespace p.getMetadata.ns (podCost model hours p)
      byLabel :=
        if labelKey ≠ "" then
          addAt report.byLabel ((p.getMetadata.labels.lookup labelKey).getD "unlabeled")
            (podCost model hours p)
        else report.byLabel }

/-- `Estimate`. -/
def estimate (pods : List Pod) (model : CostModel) (labelKey : String) (now : Time) : Report :=
  pods.foldl (addPod model labelKey now) newReport

/-! ### The report is a sum -/

/-- What a pod is charged. -/
def charge (model : CostModel) (now : Time) (p : Pod) : ℚ :=
  if runningHours p now ≤ 0 then 0 else podCost model (runningHours p now) p

section

variable {model : CostModel} {labelKey : String} {now : Time} {p : Pod} {pods : List Pod}

theorem total_addPod (report : Report) :
    (addPod model labelKey now report p).total = report.total + charge model now p := by
  rw [addPod, charge]
  split
  · exact (add_zero _).symm
  · rfl

theorem byNamespace_addPod (report : Report) (ns : String) :
    (addPod model labelKey now report p).byNamespace.getD ns 0 =
      report.byNamespace.getD ns 0 + if p.getMetadata.ns = ns then charge model now p else 0 := by
  rw [addPod, charge]
  split
  · rw [ite_self, add_zero]
  · rw [addAt, Finmap.getD, Finmap.lookup_insert_eq]
    by_cases hns : p.getMetadata.ns = ns
    · rw [if_pos hns.symm, if_pos hns, hns]
      rfl
    · rw [if_neg fun h => hns h.symm, if_neg hns, add_zero]
      rfl

theorem total_foldl (report : Report) :
    (pods.foldl (addPod model labelKey now) report).total =
      report.total + (pods.map (charge model now)).sum := by
  induction pods generalizing report with
  | nil => simp
  | cons p pods ih => rw [foldl_cons, ih, total_addPod, map_cons, sum_cons, add_assoc]

theorem byNamespace_foldl (report : Report) (ns : String) :
    (pods.foldl (addPod model labelKey now) report).byNamespace.getD ns 0 =
      report.byNamespace.getD ns 0 +
        (pods.map fun p => if p.getMetadata.ns = ns then charge model now p else 0).sum := by
  induction pods generalizing report with
  | nil => simp
  | cons p pods ih =>
    rw [foldl_cons, ih, byNamespace_addPod, map_cons, sum_cons, add_assoc]

/-- **The total** is what the pods are charged. -/
theorem total_estimate : (estimate pods model labelKey now).total =
    (pods.map (charge model now)).sum := by
  rw [estimate, total_foldl, newReport, zero_add]

/-- **The part of a namespace** is what its pods are charged. -/
theorem byNamespace_estimate (ns : String) :
    (estimate pods model labelKey now).byNamespace.getD ns 0 =
      (pods.map fun p => if p.getMetadata.ns = ns then charge model now p else 0).sum := by
  rw [estimate, byNamespace_foldl, newReport]
  exact zero_add _

/-! ### What is charged -/

/-- What the requests of a container come to in an hour. -/
def containerRate (model : CostModel) (c : Container) : ℚ :=
  c.requests.cpuMillis.toInt / 1000 * model.cpuCoreHour +
    c.requests.memoryBytes.toInt / 2 ^ 30 * model.memoryGBHour +
    c.requests.accelerators.sum fun name count => count.toInt * model.acceleratorHour.getD name 0

/-- What the requests of a pod come to in an hour. -/
def hourlyRate (model : CostModel) (p : Pod) : ℚ :=
  (p.getSpec.containers.map (containerRate model)).sum

theorem podCost_eq (hours : ℚ) : podCost model hours p = hourlyRate model p * hours := by
  rw [podCost, hourlyRate, ← sum_map_mul_right]
  congr 1
  refine map_congr_left fun c _ => ?_
  rw [containerCost, containerRate, add_mul, add_mul, Finmap.sum, Finmap.sum,
    ← Multiset.sum_map_mul_right]

theorem runningHours_pos_iff : 0 < runningHours p now ↔
    0 < p.getMetadata.createdAtUnix ∧ Time.ofUnix p.getMetadata.createdAtUnix < now := by
  rw [← Time.zero_lt_sub_iff, runningHours]
  dsimp only
  split
  · next h => exact iff_of_false (lt_irrefl 0) fun h' => Int64.not_lt.mpr h h'.1
  · next h =>
    split
    · next h₂ => exact iff_of_false (lt_irrefl 0) fun h' => Int64.not_lt.mpr h₂ h'.2
    · next h₂ =>
      have hlt := Int64.not_le.mp h₂
      refine iff_of_true (div_pos ?_ (by norm_num)) ⟨Int64.not_le.mp h, hlt⟩
      exact_mod_cast lt_iff_toInt_lt.mp hlt

/-- **A pod is charged** if its time of creation is given and has passed, and its requests come to
something. -/
theorem charge_pos_iff : 0 < charge model now p ↔
    0 < p.getMetadata.createdAtUnix ∧ Time.ofUnix p.getMetadata.createdAtUnix < now ∧
      0 < hourlyRate model p := by
  rw [← and_assoc, ← runningHours_pos_iff, charge, podCost_eq]
  split
  · next h => exact iff_of_false (lt_irrefl 0) fun h' => not_lt.mpr h h'.1
  · next h =>
    have hpos := not_le.mp h
    rw [mul_pos_iff_of_pos_right hpos]
    exact (and_iff_right hpos).symm

/-- A container requests processor time or memory. -/
def RequestsSome (p : Pod) : Prop :=
  ∃ c ∈ p.getSpec.containers, 0 < c.requests.cpuMillis ∨ 0 < c.requests.memoryBytes

instance (p : Pod) : Decidable (RequestsSome p) := inferInstanceAs (Decidable (∃ c ∈ _, _))

/-! ### What a pod adds to a report -/

/-- **A pod contributes to the report on the pods**: without it the total is smaller, and so is the
part of its namespace. -/
def Contributes (model : CostModel) (labelKey : String) (now : Time) (p : Pod) (pods : List Pod) :
    Prop :=
  ∃ l₁ l₂, pods = l₁ ++ p :: l₂ ∧
    (estimate (l₁ ++ l₂) model labelKey now).total < (estimate pods model labelKey now).total ∧
    (estimate (l₁ ++ l₂) model labelKey now).byNamespace.getD p.getMetadata.ns 0 <
      (estimate pods model labelKey now).byNamespace.getD p.getMetadata.ns 0

theorem sum_map_middle (f : Pod → ℚ) (l₁ l₂ : List Pod) :
    ((l₁ ++ p :: l₂).map f).sum = ((l₁ ++ l₂).map f).sum + f p := by
  simp only [map_append, map_cons, sum_append, sum_cons]
  rw [add_left_comm, add_comm (f p)]

theorem contributes_iff (hp : p ∈ pods) :
    Contributes model labelKey now p pods ↔ 0 < charge model now p := by
  have hparts : ∀ l₁ l₂ : List Pod, pods = l₁ ++ p :: l₂ →
      ((estimate (l₁ ++ l₂) model labelKey now).total < (estimate pods model labelKey now).total ↔
        0 < charge model now p) ∧
      ((estimate (l₁ ++ l₂) model labelKey now).byNamespace.getD p.getMetadata.ns 0 <
        (estimate pods model labelKey now).byNamespace.getD p.getMetadata.ns 0 ↔
        0 < charge model now p) := by
    rintro l₁ l₂ rfl
    rw [total_estimate, total_estimate, byNamespace_estimate, byNamespace_estimate, sum_map_middle,
      sum_map_middle, if_pos rfl]
    exact ⟨lt_add_iff_pos_right _, lt_add_iff_pos_right _⟩
  constructor
  · rintro ⟨l₁, l₂, heq, htotal, -⟩
    exact (hparts l₁ l₂ heq).1.mp htotal
  · intro hpos
    obtain ⟨l₁, l₂, heq⟩ := append_of_mem hp
    exact ⟨l₁, l₂, heq, (hparts l₁ l₂ heq).1.mpr hpos, (hparts l₁ l₂ heq).2.mpr hpos⟩

end

end NimbusCore.Finops
