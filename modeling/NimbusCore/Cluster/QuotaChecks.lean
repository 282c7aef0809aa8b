import NimbusCore.Cluster.Quota

/-!
# Cluster — what the quota check lets through

`QuotaPolicy` computes in `int64`, and adds the replicas a request asks for to every pod of the
namespace.

* `quota_sound_iff`: what it admits is within every quota over the integers if and only if neither
  sum reaches `2 ^ 63`.  Four replicas of `2 ^ 62` come to nothing (`quota_wraps`).
* `rescale_admitted_iff`: a deployment that has its pods and is submitted again, with another number
  of replicas, is admitted if and only if there is room for the pods it has and for those it asks
  for beside the others.  In a namespace that is full it cannot be scaled down
  (`scale_down_refused`).
-/

namespace NimbusCore.Cluster

open Api Registry Admission Apiserver Int64
open Controller
open Controller.HorizontalAutoscaler (templateAmount)

/-! ### In 64 bits -/

/-- `x` is within `q` as far as 64 bits show: if it is out of their range, what is left of it is. -/
def WithinIn64 (x : Int) (q : Int64) : Prop :=
  if -2 ^ 63 ≤ x ∧ x < 2 ^ 63 then x ≤ q.toInt else x.bmod (2 ^ 64) ≤ q.toInt

theorem ofInt_le_iff {x : Int} {q : Int64} : Int64.ofInt x ≤ q ↔ WithinIn64 x q := by
  rw [le_iff_toInt_le, WithinIn64]
  split
  · next h => rw [toInt_ofInt_of_le h.1 h.2]
  · rw [toInt_ofInt]
    exact Iff.rfl

instance (x : Int) (q : Int64) : Decidable (WithinIn64 x q) := decidable_of_iff _ ofInt_le_iff

theorem le_of_withinIn64 {x : Int} {q : Int64} (hq : 0 < q) (hx : x < 2 ^ 63)
    (h : WithinIn64 x q) : x ≤ q.toInt := by
  have hpos : 0 < q.toInt := lt_iff_toInt_lt.mp hq
  rw [WithinIn64] at h
  split at h
  · exact h
  · omega

theorem withinIn64_maxValue (x : Int) : WithinIn64 x Int64.maxValue :=
  ofInt_le_iff.mp (le_iff_toInt_le.mpr (toInt_le _))

/-! ### Soundness -/

/-- The answers of a store in which a namespace has the pods `existing`. -/
def lists (existing : List Pod) : (c : Cmd) → c.Answer
  | .list .pods _ => .ok existing
  | c => c.failure

theorem outcome_quotaPolicy {t : Texts} {limits : ResourceList} {existing : List Pod}
    {req : Request} : (quotaPolicy t limits req).outcome (lists existing) = .ok (req, none) ↔
      ∀ a, Counted a → 0 < amountOf limits a →
        WithinIn64 (podsAmount existing a + Request.demand req a) (amountOf limits a) := by
  simp only [← ofInt_le_iff]
  rw [← overQuota_eq_none (t := t), quotaPolicy]
  split
  · next hoff =>
    refine iff_of_true rfl (overQuota_eq_none.mpr fun a ha hpos => absurd hpos ?_)
    rcases ha with rfl | rfl
    · exact Int64.not_lt.mpr hoff.1
    · exact Int64.not_lt.mpr hoff.2
  · change (Except.ok (req, overQuota t limits existing req) : Except Stop _) = _ ↔ _
    simp

/-- **The quota is sound exactly when no sum leaves the range of `int64`.**  For any pods that exist
and any request. -/
theorem quota_sound_iff (t : Texts) (existing : List Pod) (req : Request) :
    (∀ limits : ResourceList, 0 < limits.cpuMillis → 0 < limits.memoryBytes →
        (quotaPolicy t limits req).outcome (lists existing) = .ok (req, none) →
        ∀ a, Counted a → podsAmount existing a + Request.demand req a ≤ (amountOf limits a).toInt) ↔
      ∀ a, Counted a → podsAmount existing a + Request.demand req a < 2 ^ 63 := by
  constructor
  · intro h a ha
    -- the largest quota lets everything through
    have hmax := h { cpuMillis := Int64.maxValue, memoryBytes := Int64.maxValue } (by decide)
      (by decide) (outcome_quotaPolicy.mpr fun b hb _ => by
        rcases hb with rfl | rfl <;> exact withinIn64_maxValue _) a ha
    refine lt_of_le_of_lt hmax ?_
    rcases ha with rfl | rfl <;> decide
  · intro h limits hcpu hmem hok a ha
    have hpos : 0 < amountOf limits a := by
      rcases ha with rfl | rfl
      · exact hcpu
      · exact hmem
    exact le_of_withinIn64 hpos (h a ha) (outcome_quotaPolicy.mp hok a ha hpos)

/-- A request for some replicas of a container of `2 ^ 62` millicores. -/
def hugeRequest (replicas : Int32) : Request where
  ns := "default"
  name := "web"
  labels := ∅
  spec := some { containers := [
    { name := "c", resources := some { requests := some { cpuMillis := 4611686018427387904 } } }] }
  replicas := replicas

/-- **Four times `2 ^ 62` is within a quota of one.** -/
theorem quota_wraps :
    (quotaPolicy ⟨id, fun _ => ""⟩ { cpuMillis := 1, memoryBytes := 1 } (hugeRequest 4)).outcome
        (lists []) = .ok (hugeRequest 4, none) ∧
      podsAmount [] .cpu + Request.demand (hugeRequest 4) .cpu = 2 ^ 64 := by
  refine ⟨outcome_quotaPolicy.mpr fun a ha _ => ?_, by decide⟩
  rcases ha with rfl | rfl <;> decide

/-! ### Submitting again -/

/-- `d` with another number of replicas. -/
def withReplicas (d : Deployment) (r : Int32) : Deployment :=
  { d with spec := d.spec.map fun spec => { spec with replicas := r } }

/-- The pods of `d`'s namespace that it owns. -/
def podsOf (s : State) (d : Deployment) : Dict String Pod :=
  (s.listing .pods d.getMetadata.ns).filter fun _ p => decide (OwnedBy d p)

/-- What the other pods of the namespace ask for. -/
def otherAmount (s : State) (d : Deployment) (a : Amount) : Int :=
  ((s.listing .pods d.getMetadata.ns).filter fun _ p => !decide (OwnedBy d p)).sum
    fun _ p => podAmount p a

/-- `d` owns `r` pods, which ask for what its template does. -/
structure HasPods (s : State) (d : Deployment) (r : Nat) : Prop where
  count : (podsOf s d).keys.card = r
  amount : ∀ k p, (podsOf s d).lookup k = some p → podAmount p .cpu = templateAmount d .cpu ∧
    podAmount p .memory = templateAmount d .memory

instance (s : State) (d : Deployment) (r : Nat) : Decidable (HasPods s d r) :=
  decidable_of_iff (_ ∧ _) ⟨fun h => ⟨h.1, h.2⟩, fun h => ⟨h.1, h.2⟩⟩

section

variable {t : Texts} {limits : ResourceList} {s s' : State} {d : Deployment} {r : Nat}
  {req : Request} {x : Except Stop (Request × Option String)}

theorem listedAmount_eq (h : HasPods s d r) {a : Amount} (ha : Counted a) :
    listedAmount s d.getMetadata.ns a = otherAmount s d a + r * templateAmount d a := by
  have howned : (podsOf s d).sum (fun _ p => podAmount p a) = r * templateAmount d a := by
    rw [Finmap.sum_const (c := templateAmount d a), h.count, nsmul_eq_mul]
    intro k p hp
    rcases ha with rfl | rfl
    · exact (h.amount k p hp).1
    · exact (h.amount k p hp).2
  rw [listedAmount, ← Finmap.sum_filter_add fun _ p => decide (OwnedBy d p), ← howned, add_comm]
  rfl

theorem demand_withReplicas {r' : Int32} (hr : 1 ≤ r') (a : Amount) :
    Request.demand (normalise (admitReq (withReplicas d r'))) a =
      r'.toInt * templateAmount d a := by
  have hpos : ¬ r' ≤ 0 := fun h0 => absurd (Int32.le_trans hr h0) (by decide)
  rw [HorizontalAutoscaler.templateAmount, mul_comm]
  cases hspec : d.spec with
  | none =>
    simp [withReplicas, admitReq, normalise, Request.demand, Request.containers,
      Deployment.getSpec, Deployment.getTemplate, hspec, containersAmount]
  | some spec =>
    simp [withReplicas, admitReq, normalise, Request.demand, Request.containers,
      Deployment.getSpec, Deployment.getTemplate, hspec, hpos]

/-- What `QuotaPolicy` says is what it would say of a listing of the namespace. -/
theorem runs_quotaPolicy (h : (quotaPolicy t limits req).Runs serve s x s') :
    x = .ok (req, none) ↔ ∀ a, Counted a → 0 < amountOf limits a →
      WithinIn64 (listedAmount s req.ns a + Request.demand req a) (amountOf limits a) := by
  have hlist : ∃ existing, (∀ a, podsAmount existing a = listedAmount s req.ns a) ∧
      x = (quotaPolicy t limits req).outcome (lists existing) := by
    rw [quotaPolicy] at h ⊢
    split at h
    · next hoff =>
      obtain ⟨y, s₁, hc⟩ := serve_total (.list .pods req.ns) s
      have hshows := shows_of_serve (.inl hc)
      obtain ⟨-, order, -, rfl⟩ := hc
      rw [if_pos hoff]
      exact ⟨_, hshows, h.1⟩
    · next hon =>
      obtain ⟨y, s₁, hc, h⟩ := h
      have hshows := shows_of_serve (.inl hc)
      obtain ⟨rfl, order, ho, rfl⟩ := hc
      rw [if_neg hon]
      exact ⟨_, hshows, h.1⟩
  obtain ⟨existing, hamount, rfl⟩ := hlist
  rw [outcome_quotaPolicy]
  simp only [hamount]

/-- **A deployment submitted again is admitted exactly when there is room for its pods twice**: for
the `r` pods it has and the `r'` replicas it asks for, beside the other pods of the namespace.  The
request may have passed other validators before. -/
theorem rescale_admitted_iff (hpods : HasPods s d r) {r' : Int32} (hr : 1 ≤ r')
    (hreq : SameDemand (normalise (admitReq (withReplicas d r'))) req) :
    (∀ x s', (quotaPolicy t limits req).Runs serve s x s' → x = .ok (req, none)) ↔
      ∀ a, Counted a → 0 < amountOf limits a →
        WithinIn64 (otherAmount s d a + (r + r'.toInt) * templateAmount d a)
          (amountOf limits a) := by
  have hns : req.ns = d.getMetadata.ns := by
    rw [hreq.ns, normalise]
    split <;> rfl
  have hsum : ∀ a, Counted a → listedAmount s req.ns a + Request.demand req a =
      otherAmount s d a + (r + r'.toInt) * templateAmount d a := by
    intro a ha
    rw [hns, listedAmount_eq hpods ha, hreq.demand, demand_withReplicas hr]
    rw [add_assoc, ← add_mul]
  have hroom : (∀ a, Counted a → 0 < amountOf limits a →
      WithinIn64 (listedAmount s req.ns a + Request.demand req a) (amountOf limits a)) ↔
      ∀ a, Counted a → 0 < amountOf limits a →
        WithinIn64 (otherAmount s d a + (r + r'.toInt) * templateAmount d a) (amountOf limits a) :=
    forall_congr' fun a => forall_congr' fun ha => by rw [hsum a ha]
  rw [← hroom]
  constructor
  · intro hall
    obtain ⟨x, s', hrun⟩ := Prog.exists_runs serve_total (quotaPolicy t limits req) s
    exact (runs_quotaPolicy hrun).mp (hall x s' hrun)
  · intro h x s' hrun
    exact (runs_quotaPolicy hrun).mpr h

end

/-- A deployment of pods that ask for five. -/
def asksForFives (replicas : Int32) : Deployment where
  metadata := some { name := "web", ns := "default" }
  spec := some {
    replicas := replicas
    template := some { containers := [
      { name := "c"
        resources := some { requests := some { cpuMillis := 5, memoryBytes := 5 } } }] } }

/-- A pod of it. -/
def fivePod (name : String) : Pod where
  metadata := some
    { name := name, ns := "default"
      labels := (∅ : Dict String String).insert OwnerDeploymentLabel "web" }
  spec := (asksForFives 2).getSpec.template

/-- A namespace with the deployment and its pods. -/
def ofFives (names : List String) : State :=
  (State.empty.set .deployments ((∅ : Dict String Deployment).insert (path "default" "web")
    (asksForFives names.length.toInt32))).set .pods
      ((∅ : Dict String Pod).insertAll (names.map fun name => (path "default" name, fivePod name)))

/-- Submitted again as it is, with one pod of five in a quota of ten: it is admitted. -/
theorem rescale_admitted_iff_one :
    HasPods (ofFives ["web-0"]) (asksForFives 1) 1 ∧
      ∀ x s', (quotaPolicy ⟨id, fun _ => ""⟩ quotaOfTen
          (normalise (admitReq (withReplicas (asksForFives 1) 1)))).Runs serve
            (ofFives ["web-0"]) x s' →
        x = .ok (normalise (admitReq (withReplicas (asksForFives 1) 1)), none) := by
  have hpods : HasPods (ofFives ["web-0"]) (asksForFives 1) 1 := by decide +kernel
  refine ⟨hpods, (rescale_admitted_iff hpods (by decide) ⟨rfl, rfl, fun _ => rfl⟩).mpr ?_⟩
  rintro a (rfl | rfl) - <;> decide +kernel

/-- **A full namespace cannot be scaled down.**  Two pods of five are in a quota of ten; the
deployment with one replica is refused. -/
theorem scale_down_refused :
    ((ofFives ["web-0", "web-1"]) .deployments).lookup (path "default" "web") =
        some (asksForFives 2) ∧
      HasPods (ofFives ["web-0", "web-1"]) (asksForFives 2) 2 ∧
      (∀ a, Counted a → 0 ≤ templateAmount (asksForFives 2) a ∧
        listedAmount (ofFives ["web-0", "web-1"]) "default" a ≤ (amountOf quotaOfTen a).toInt) ∧
      ∃ x s', (quotaPolicy ⟨id, fun _ => ""⟩ quotaOfTen
          (normalise (admitReq (withReplicas (asksForFives 2) 1)))).Runs serve
            (ofFives ["web-0", "web-1"]) x s' ∧
        x ≠ .ok (normalise (admitReq (withReplicas (asksForFives 2) 1)), none) := by
  refine ⟨rfl, by decide +kernel, fun a ha => ?_, ?_⟩
  · rcases ha with rfl | rfl <;> decide +kernel
  · obtain ⟨x, s', hrun⟩ := Prog.exists_runs serve_total (quotaPolicy ⟨id, fun _ => ""⟩ quotaOfTen
      (normalise (admitReq (withReplicas (asksForFives 2) 1)))) (ofFives ["web-0", "web-1"])
    refine ⟨x, s', hrun, fun hx => ?_⟩
    have hroom := (runs_quotaPolicy hrun).mp hx .cpu (.inl rfl) (by decide)
    exact absurd hroom (by decide +kernel)

end NimbusCore.Cluster
