import NimbusCore.Cluster.Reservations
import NimbusCore.Cluster.Workloads

/-!
# Cluster — the quota of a namespace

`QuotaPolicy` adds what a request asks for to what the pods of the namespace ask for at that moment.
The pods of a deployment come later, and the autoscaler may raise their number, neither of which is
admitted.

* `Admitted`, `ensures_chainAdmit_quota`: what the chain admits is within the quota, as the store is
  when it is asked.
* `quota_holds`: in every run of calls and passes, the pods of each namespace are within the quota,
  if what has been admitted before is there when the next request comes, and nothing is scaled
  beyond what was admitted.
* `quota_exceeded`: two deployments are admitted before the controller has made the pods of either.
-/

namespace NimbusCore.Cluster

open Api Registry Admission Apiserver Prog Int64
open Controller
open Controller.HorizontalAutoscaler (templateAmount Target)

/-! ### What the quota counts -/

/-- The amounts that a quota is about. -/
def Counted (a : Amount) : Prop := a = .cpu ∨ a = .memory

/-- What the pods of a listing ask for. -/
def listedAmount (s : State) (ns : String) (a : Amount) : Int :=
  (s.listing .pods ns).sum fun _ p => podAmount p a

/-- What a request asks for, with all its replicas. -/
def Request.demand (req : Request) (a : Amount) : Int :=
  containersAmount req.containers a * req.replicas.toInt

/-- A pair of sums, by what is counted. -/
def sumOf (sums : Int64 × Int64) : Amount → Int64
  | .cpu => sums.1
  | .memory => sums.2
  | .accelerator _ => 0

variable {req : Request}

section

variable {a : Amount}

theorem sumOf_requestSums (ha : Counted a) (cs : List Container) :
    sumOf (requestSums cs) a = Int64.ofInt (containersAmount cs a) := by
  refine (measure_foldl (μ := (sumOf · a)) (g := fun c => (amountOf c.requests a).toInt)
    (fun sums c => ?_) cs _).trans ?_
  · rw [ofInt_toInt]
    rcases ha with rfl | rfl <;> rfl
  · rcases ha with rfl | rfl <;> exact Int64.zero_add _

theorem containersAmount_flatMap (ps : List Pod) :
    containersAmount (ps.flatMap fun pod => pod.getSpec.containers) a = podsAmount ps a := by
  induction ps with
  | nil => rfl
  | cons p ps ih =>
    rw [List.flatMap_cons, podsAmount_cons, ← ih]; simp [containersAmount, podAmount]

/-- **What is used**, reduced to 64 bits. -/
theorem sumOf_usedSums (ha : Counted a) (existing : List Pod) :
    sumOf (usedSums existing) a = Int64.ofInt (podsAmount existing a) := by
  rw [usedSums, sumOf_requestSums ha, containersAmount_flatMap]

/-- **What is asked for**, reduced to 64 bits. -/
theorem sumOf_sums (ha : Counted a) (req : Request) :
    sumOf req.sums a = Int64.ofInt (Request.demand req a) := by
  have hreplicas : req.replicas.toInt64 = Int64.ofInt req.replicas.toInt := by
    rw [← Int32.toInt_toInt64, ofInt_toInt]
  have hsums : sumOf req.sums a = sumOf (requestSums req.containers) a * req.replicas.toInt64 := by
    rcases ha with rfl | rfl <;> rfl
  rw [hsums, sumOf_requestSums ha, hreplicas, ← ofInt_mul, Request.demand]

/-- **What the quota does not refuse is within it**, in 64 bits, for what it limits. -/
theorem overQuota_eq_none {t : Texts} {limits : ResourceList} {existing : List Pod} :
    overQuota t limits existing req = none ↔
      ∀ a, Counted a → 0 < amountOf limits a →
        Int64.ofInt (podsAmount existing a + Request.demand req a) ≤ amountOf limits a := by
  have hsum : ∀ a, Counted a → (Int64.ofInt (podsAmount existing a + Request.demand req a) ≤
      amountOf limits a ↔
        ¬ amountOf limits a < sumOf (usedSums existing) a + sumOf req.sums a) := by
    intro a ha
    rw [Int64.ofInt_add, ← sumOf_usedSums ha, ← sumOf_sums ha, Int64.not_lt]
  simp only [overQuota]
  split
  · next hc =>
    refine iff_of_false (by simp) fun h => ?_
    exact (hsum .cpu (.inl rfl)).mp (h .cpu (.inl rfl) hc.1) hc.2
  · next hc =>
    split
    · next hm =>
      refine iff_of_false (by simp) fun h => ?_
      exact (hsum .memory (.inr rfl)).mp (h .memory (.inr rfl) hm.1) hm.2
    · next hm =>
      refine iff_of_true rfl fun a ha hpos => (hsum a ha).mpr fun hlt => ?_
      rcases ha with rfl | rfl
      · exact hc ⟨hpos, hlt⟩
      · exact hm ⟨hpos, hlt⟩

end

/-! ### What is admitted -/

/-- What a listing of the store shows. -/
def Shows (s : State) : (c : Cmd) → c.Answer → Prop
  | .list .pods ns, .ok existing => ∀ a, podsAmount existing a = listedAmount s ns a
  | _, _ => True

variable {s : State} {α : Type}

theorem shows_of_serve {s' : State} {c : Cmd} {x : c.Answer} (h : serveOrFail c s x s') :
    Shows s c x := by
  rcases c with _ | _ | _ | ⟨k, ns⟩
  · trivial
  · trivial
  · trivial
  · cases k with
    | pods =>
      rcases h with ⟨-, order, ho, rfl⟩ | ⟨-, rfl⟩
      · intro a
        rw [podsAmount, State.listed, List.map_map]
        exact ho.sum_range fun _ p => podAmount p a
      · trivial
    | _ => cases x <;> trivial

/-- A program that only reads leaves the store, and is shown what is there. -/
theorem runs_reading {p : Reg α} {Φ : α → Prop} {s' : State} {x : α}
    (hp : p.Ensures (Shows s) Cmd.Reads Φ) (hr : p.Runs serveOrFail s (.ok x) s') :
    s' = s ∧ Φ x := by
  have hkeeps := hp.keeps (I := (· = s)) (fun _ _ _ _ ht hc => shows_of_serve (ht ▸ hc))
    (fun _ hc _ _ _ ht hs => (eq_of_reads hc hs).trans ht) hr rfl
  exact ⟨hkeeps.1, hkeeps.2 x rfl⟩

theorem visits_reading {p : Reg α} {Φ : α → Prop} {t : State}
    (hp : p.Ensures (Shows s) Cmd.Reads Φ) (hr : p.Visits serveOrFail s t) : t = s :=
  hp.visits (I := (· = s)) (fun _ _ _ _ ht hc => shows_of_serve (ht ▸ hc))
    (fun _ hc _ _ _ ht hs => (eq_of_reads hc hs).trans ht) hr rfl

/-- The request as the validators leave it: it asks for the same, and that is within the quota. -/
structure Admitted (limits : ResourceList) (s : State) (req req' : Request) : Prop where
  amount : ∀ a, containersAmount req'.containers a = containersAmount req.containers a
  within : ∀ a, Counted a → Int64.ofInt (listedAmount s req.ns a + Request.demand req a) ≤
    amountOf limits a

/-- The same is asked for, in the same namespace. -/
structure SameDemand (req req' : Request) : Prop where
  ns : req'.ns = req.ns
  replicas : req'.replicas = req.replicas
  amount : ∀ a, containersAmount req'.containers a = containersAmount req.containers a

variable {req' : Request}

theorem SameDemand.trans {req'' : Request} (h : SameDemand req req')
    (h' : SameDemand req' req'') : SameDemand req req'' :=
  ⟨h'.ns.trans h.ns, h'.replicas.trans h.replicas, fun a => (h'.amount a).trans (h.amount a)⟩

/-- Security contexts ask for nothing. -/
theorem Hardens.sameDemand (h : Hardens req req') : SameDemand req req' := by
  cases h with
  | refl => exact ⟨rfl, rfl, fun _ => rfl⟩
  | secured quote allowed =>
    refine ⟨rfl, rfl, fun a => ?_⟩
    rw [containers_hardens_secured, containersAmount, map_secureLoop fun _ => rfl]
    rfl

theorem SameDemand.demand (h : SameDemand req req') (a : Amount) :
    Request.demand req' a = Request.demand req a := by
  rw [Request.demand, h.amount, h.replicas]
  rfl

section

variable {t : Texts} {vs : List PackageValidator} {limits : ResourceList} {s : State}

/-- The quota, as the store is. -/
theorem establishes_quota (hcpu : 0 < limits.cpuMillis) (hmem : 0 < limits.memoryBytes) :
    Establishes (Shows s) (fun req => ∀ a, Counted a →
        Int64.ofInt (listedAmount s req.ns a + Request.demand req a) ≤ amountOf limits a)
      ((PackageValidator.quota limits).validator t) := by
  intro req
  have hon : ¬ (limits.cpuMillis ≤ 0 ∧ limits.memoryBytes ≤ 0) := fun h =>
    Int64.not_lt.mpr h.1 hcpu
  simp only [PackageValidator.validator, quotaPolicy, if_neg hon]
  refine ensures_ask_bind.mpr ⟨rfl, fun x hx => ?_⟩
  rcases x with err | existing
  · exact fun h => by cases h
  intro h a ha
  rw [← hx a]
  refine overQuota_eq_none.mp h a ha ?_
  rcases ha with rfl | rfl
  · exact hcpu
  · exact hmem

/-- **What the chain admits is within the quota**, as the store is when it is asked. -/
theorem ensures_chainAdmit_quota (hq : .quota limits ∈ vs) (hcpu : 0 < limits.cpuMillis)
    (hmem : 0 < limits.memoryBytes) (req : Request) :
    (chainAdmit (packageChain t vs) req).Ensures (Shows s) Cmd.Reads
      fun r => r.2 = none → Admitted limits s (normalise req) r.1 := by
  have hsame : (chainAdmit (packageChain t vs) req).Ensures (Shows s) Cmd.Reads
      fun r => SameDemand (normalise req) r.1 :=
    keeps_admitLoop (keeps_packageChain fun _ _ h hs => hs.trans (Hardens.sameDemand h))
      ⟨rfl, rfl, fun _ => rfl⟩
  have hwithin := establishes_packageChain (t := t)
    (fun _ _ h hreq a ha => by
      rw [(Hardens.sameDemand h).ns, (Hardens.sameDemand h).demand]
      exact hreq a ha) hq (establishes_quota (s := s) hcpu hmem) req
  refine (hsame.and hwithin).mono (fun _ _ h => h) (fun _ h => h.1) fun r hr hnone => ?_
  refine ⟨hr.1.amount, fun a ha => ?_⟩
  rw [← hr.1.ns, ← hr.1.demand]
  exact hr.2 hnone a ha

end

/-! ### The operations -/

/-- An operation by which pods come into the store. -/
inductive QuotaOp where
  | createPod (pod : Pod)
  | createDeployment (d : Deployment)
  | deploymentPass
  | autoscalerPass (target : Target)

namespace QuotaOp

/-- What it runs. -/
def prog (validators : List Validator) : QuotaOp → Reg Unit
  | .createPod pod => do
    let _ ← Apiserver.createPod validators pod
    return ()
  | .createDeployment d => do
    let _ ← Apiserver.createDeployment validators d
    return ()
  | .deploymentPass => Controller.reconcileAll
  | .autoscalerPass target => HorizontalAutoscaler.reconcileAll target

/-- What it asks the chain for. -/
def request : QuotaOp → Option Request
  | .createPod pod => some (normalise (podAdmitReq pod))
  | .createDeployment d => some (normalise (admitReq d))
  | .deploymentPass | .autoscalerPass _ => none

/-- Nothing negative is asked for, and no sum is out of the range of `int64`. -/
def Measured (s : State) (op : QuotaOp) : Prop :=
  ∀ req ∈ op.request, ∀ a, Counted a → 0 ≤ containersAmount req.containers a ∧
    listedAmount s req.ns a + Request.demand req a < 2 ^ 63

/-- **Admission foresees what comes of it.**  The deployments that were admitted before have all
their pods; a pod is not passed off as one of theirs; and a deployment is new, and not to be scaled
beyond what is admitted. -/
def Foreseen (s : State) : QuotaOp → Prop
  | .createPod pod => owner pod = "" ∧ Settled s pod.getMetadata.ns
  | .createDeployment d => (s .deployments).lookup (deploymentPath d) = none ∧
      d.getSpec.maxReplicas ≤ (normalise (admitReq d)).replicas ∧ Settled s d.getMetadata.ns
  | .deploymentPass | .autoscalerPass _ => True

end QuotaOp

/-- An operation that meets the condition leads from `s` to `t`, or comes through it. -/
def QuotaStep (G : State → QuotaOp → Prop) (validators : List Validator) (s t : State) : Prop :=
  ∃ op, G s op ∧ (op.prog validators).Visits serveOrFail s t

/-! ### The calls -/

variable {d : Deployment} {D : Dict String Deployment} {S : Finset (String × String)}

section

variable {t : Texts} {vs : List PackageValidator} {limits : ResourceList} {s s' : State}

theorem visits_put {k : Kind} {ns name : String} {obj : k.Obj}
    {f : Except RegistryError Unit → Reg α} (hf : ∀ x, ∃ y, f x = pure y)
    (h : (Registry.put k ns name obj >>= f).Visits serveOrFail s s') :
    s' = s ∨ s' = s.set k ((s k).insert (path ns name) obj) := by
  rcases h with h | ⟨x, s₁, hc, h⟩
  · exact .inl h
  · obtain ⟨y, hy⟩ := hf x
    change (f x).Visits serveOrFail s₁ s' at h
    rw [hy] at h
    cases h
    rcases hc with ⟨h, -⟩ | ⟨h, -⟩
    · exact .inr h
    · exact .inl h

section

variable (hq : .quota limits ∈ vs) (hcpu : 0 < limits.cpuMillis) (hmem : 0 < limits.memoryBytes)

include hq hcpu hmem

/-- What is submitted is stored as it was admitted, or not at all. -/
theorem visits_submit {k : Kind} (ns name : String) {req₀ : Request}
    {obj : Request → k.Obj} {f : Request × Option String → Reg α}
    (h : (chainAdmit (packageChain t vs) req₀ >>= f).Visits serveOrFail s s')
    (herr : ∀ req err, ∃ y, f (req, some err) = pure y)
    (hok : ∀ req, ∃ g, f (req, none) = Registry.put k ns name (obj req) >>= g ∧
      ∀ x, ∃ y, g x = pure y) :
    s' = s ∨ ∃ req, Admitted limits s (normalise req₀) req ∧
      s' = s.set k ((s k).insert (path ns name) (obj req)) := by
  have hchain := ensures_chainAdmit_quota (t := t) (s := s) hq hcpu hmem req₀
  rcases visits_bind h with h | ⟨⟨req, err⟩, s₁, hr, h⟩
  · exact .inl (visits_reading hchain h)
  · obtain ⟨rfl, hadmitted⟩ := runs_reading hchain hr
    cases err with
    | some err =>
      obtain ⟨y, hy⟩ := herr req err
      rw [hy] at h
      exact .inl h
    | none =>
      obtain ⟨g, hg, hret⟩ := hok req
      rw [hg] at h
      exact (visits_put hret h).imp_right fun h => ⟨req, hadmitted rfl, h⟩

/-- **`CreatePod`** stores a pod that was admitted, or nothing. -/
theorem visits_createPod {pod : Pod}
    (h : (createPod (packageChain t vs) pod).Visits serveOrFail s s') :
    s' = s ∨ ∃ req, Admitted limits s (normalise (podAdmitReq pod)) req ∧
      s' = s.set .pods ((s .pods).insert (podPath pod) (withSpec pod req)) := by
  rw [createPod] at h
  split at h
  · exact .inl h
  · exact visits_submit hq hcpu hmem _ _ h (fun _ _ => ⟨_, rfl⟩) fun _ =>
      ⟨_, rfl, fun x => by cases x <;> exact ⟨_, rfl⟩⟩

/-- **`CreateDeployment`** stores a deployment that was admitted, or nothing. -/
theorem visits_createDeployment
    (h : (createDeployment (packageChain t vs) d).Visits serveOrFail s s') :
    s' = s ∨ d.getMetadata.name ≠ "" ∧ ∃ req, Admitted limits s (normalise (admitReq d)) req ∧
      s' = s.set .deployments
        ((s .deployments).insert (deploymentPath d) (withTemplate d req)) := by
  rw [createDeployment] at h
  split at h
  · exact .inl h
  · next hname =>
    have hstored := visits_submit hq hcpu hmem d.getMetadata.ns d.getMetadata.name h
      (fun _ _ => ⟨_, rfl⟩) fun req => ⟨_, rfl, fun x => by cases x <;> exact ⟨_, rfl⟩⟩
    exact hstored.imp_right fun hstored => ⟨hname, hstored⟩

end

/-! ### One operation -/

theorem containers_normalise (req : Request) : (normalise req).containers = req.containers := by
  rw [normalise]
  split <;> rfl

theorem replicas_normalise (req : Request) : 1 ≤ (normalise req).replicas.toInt ∧
    req.replicas.toInt ≤ (normalise req).replicas.toInt := by
  rw [normalise]
  split
  · next h =>
    have hle : req.replicas.toInt ≤ 0 := Int32.le_iff_toInt_le.mp h
    exact ⟨le_rfl, hle.trans (show (0 : Int) ≤ (1 : Int32).toInt by decide)⟩
  · next h =>
    have hlt : 0 < req.replicas.toInt := Int32.lt_iff_toInt_lt.mp (Int32.not_le.mp h)
    exact ⟨hlt, le_rfl⟩

/-- What the validators make of a pod asks for the same. -/
theorem Admitted.podAmount {pod : Pod} (h : Admitted limits s (normalise (podAdmitReq pod)) req)
    (a : Amount) : podAmount (withSpec pod req) a = Controller.podAmount pod a := by
  rw [Controller.podAmount, containers_withSpec]
  split
  · next hnone => rw [Controller.podAmount, Pod.getSpec, hnone]; rfl
  · rw [h.amount, containers_normalise]; rfl

theorem Admitted.templateAmount (h : Admitted limits s (normalise (admitReq d)) req) (a : Amount) :
    templateAmount (withTemplate d req) a = HorizontalAutoscaler.templateAmount d a := by
  rw [HorizontalAutoscaler.templateAmount, containers_withTemplate]
  split
  · next hnone =>
    rw [HorizontalAutoscaler.templateAmount, Deployment.getTemplate, Deployment.getSpec, hnone]
    rfl
  · rw [h.amount, containers_normalise]; rfl

/-- A deployment that is not to be scaled beyond what was admitted. -/
theorem reserved_withTemplate_le (req : Request)
    (hmax : d.getSpec.maxReplicas ≤ (normalise (admitReq d)).replicas) :
    reserved (withTemplate d req) ≤ (normalise (admitReq d)).replicas.toInt := by
  have hspec : (withTemplate d req).getSpec.replicas = d.getSpec.replicas ∧
      (withTemplate d req).getSpec.maxReplicas = d.getSpec.maxReplicas := by
    rcases d with ⟨md, _ | spec, status⟩ <;> exact ⟨rfl, rfl⟩
  rw [reserved, hspec.1, hspec.2]
  exact (mayWant_le _ _).trans
    (max_le (replicas_normalise (admitReq d)).2 (Int32.le_iff_toInt_le.mp hmax))

variable {ns : String} {a : Amount} {limit : Int}

/-- There are places for what the deployments may come to, within the limit. -/
def Provided (ns : String) (a : Amount) (limit : Int) (s : State) : Prop :=
  ∃ S, Reserved ns a (s .deployments) S limit s

theorem provided_empty (h : 0 ≤ limit) : Provided ns a limit State.empty := by
  refine ⟨∅, ⟨?_, ?_, ?_, ?_, ?_⟩, ?_, ?_, ?_, ?_, ?_, h⟩
  all_goals intros; contradiction

theorem Reserved.listed_nonneg (h : Reserved ns a D S limit s) (n : String) (k : String) (p : Pod)
    (hk : (s.listing .pods n).lookup k = some p) : 0 ≤ podAmount p a := by
  rw [State.lookup_listing] at hk
  split at hk
  · exact h.pods_nonneg k p hk
  · cases hk

theorem Reserved.listedAmount_nonneg (h : Reserved ns a D S limit s) (n : String) :
    0 ≤ listedAmount s n a := by
  have hle : (∅ : Dict String Pod).sum (fun _ p => podAmount p a) ≤ listedAmount s n a :=
    Finmap.sum_le_of_sub (fun _ _ hk => by cases hk) (h.listed_nonneg n)
  exact hle

/-- A listing shows the pods of its namespace, and perhaps others. -/
theorem Reserved.usedIn_le_listed (h : Reserved ns a D S limit s) :
    usedIn s ns a ≤ listedAmount s ns a := by
  refine Finmap.sum_le_of_sub (fun k p hk => ?_) (h.listed_nonneg ns)
  obtain ⟨hl, hns⟩ := lookup_podsIn.mp hk
  have hlisted : Listed ns k := by
    rw [← h.keyed k p hl, podPath, hns]
    by_cases he : ns = ""
    · exact .inl he
    · exact listed_path he _
  rw [State.lookup_listing, if_pos hlisted]
  exact hl

/-- **A pod that is within the limit.** -/
theorem Provided.add_pod (h : Provided ns a limit s) {p : Pod} (howner : owner p = "")
    (hnn : 0 ≤ podAmount p a) (hset : Settled s p.getMetadata.ns)
    (hle : listedAmount s p.getMetadata.ns a + podAmount p a ≤ limit) :
    Provided ns a limit (s.set .pods ((s .pods).insert (podPath p) p)) := by
  obtain ⟨S, hS⟩ := h
  rw [Provided, State.set_of_ne s (by decide)]
  by_cases hns : p.getMetadata.ns = ns
  · rw [hns] at hset hle
    refine ⟨_, ((hS.settled hset).add_pod howner hnn).mono ?_⟩
    have := hS.usedIn_le_listed
    omega
  · refine ⟨S, hS.set_placed (k := podPath p) (o := some p) (fun j => ?_)
      (State.set_of_ne s (by decide) _) (fun q hq => ?_) fun q hq => ?_⟩
    · rw [State.set_self]
      exact Finmap.lookup_insert_eq ..
    · cases hq
      exact ⟨rfl, hnn, fun hns' => absurd hns' hns⟩
    · cases hq
      exact fun hns' => absurd hns' hns

/-- **A deployment that is within the limit** with `n` pods. -/
theorem Provided.add_deployment (h : Provided ns a limit s)
    (hnew : (s .deployments).lookup (deploymentPath d) = none) (hname : d.getMetadata.name ≠ "")
    (hnn : 0 ≤ templateAmount d a) (hset : Settled s d.getMetadata.ns) {n : Nat}
    (hn : reserved d ≤ n)
    (hle : listedAmount s d.getMetadata.ns a + templateAmount d a * n ≤ limit) :
    Provided ns a limit
      (s.set .deployments ((s .deployments).insert (deploymentPath d) d)) := by
  obtain ⟨S, hS⟩ := h
  rw [Provided, State.set_self]
  by_cases hns : d.getMetadata.ns = ns
  · rw [hns] at hset hle
    -- a place for each of the pods
    have hadd := (hS.settled hset).add_deployment hnew hname hnn
      (X := (Finset.range n).image fun i => (d.getMetadata.name, podName d i))
      (fun x hx => by
        obtain ⟨i, -, rfl⟩ := Finset.mem_image.mp hx
        rw [deploymentPath, hns])
      fun _ i hi => Finset.mem_image.mpr ⟨i, Finset.mem_range.mpr (by omega), rfl⟩
    refine ⟨_, hadd.mono ?_⟩
    have hcard : (((Finset.range n).image fun i => (d.getMetadata.name, podName d i)).card : Int) *
        templateAmount d a ≤ templateAmount d a * n := by
      rw [Int.mul_comm]
      refine Int.mul_le_mul_of_nonneg_left (Int.ofNat_le.mpr ?_) hnn
      exact Finset.card_image_le.trans (Finset.card_range n).le
    have := hS.usedIn_le_listed
    omega
  · have hadd := hS.add_deployment hnew hname hnn (X := ∅) (by simp) fun hns' => absurd hns' hns
    exact ⟨_, hadd.mono (by simp)⟩

/-- **A pass** that keeps to the places. -/
theorem Provided.pass (h : Provided ns a limit s) {p : Reg Unit}
    (hp : ∀ S, Plan ns a (s .deployments) S → p.Ensures (Tells ns a (s .deployments) S)
      (Respects ns a (s .deployments) S) fun _ => True)
    (hv : p.Visits serveOrFail s s') : Provided ns a limit s' := by
  obtain ⟨S, hS⟩ := h
  have hS' := (hp S hS.toPlan).visits (H := serveOrFail)
    (I := Reserved ns a (s .deployments) S limit) (fun _ _ _ _ h hc => h.tells hc)
    (fun _ hc _ _ _ h hs => h.step hc hs) hv hS
  exact ⟨S, hS'.rebase⟩

/-- What was admitted is within the limit, as integers. -/
theorem Admitted.le (h : Admitted limits s req req') (ha : Counted a)
    (hprov : Provided ns a limit s) (hnn : 0 ≤ containersAmount req.containers a)
    (hreplicas : 0 ≤ req.replicas.toInt)
    (hlt : listedAmount s req.ns a + Request.demand req a < 2 ^ 63) :
    listedAmount s req.ns a + Request.demand req a ≤ (amountOf limits a).toInt := by
  obtain ⟨S, hS⟩ := hprov
  have hlisted := hS.listedAmount_nonneg req.ns
  have hdemand : 0 ≤ Request.demand req a := Int.mul_nonneg hnn hreplicas
  have hle := le_iff_toInt_le.mp (h.within a ha)
  rwa [toInt_ofInt_of_le (by omega) hlt] at hle

section

variable (hq : .quota limits ∈ vs) (hcpu : 0 < limits.cpuMillis) (hmem : 0 < limits.memoryBytes)
  (ha : Counted a)

include hq hcpu hmem ha

/-- **One operation** leaves places for what may come. -/
theorem Provided.step {op : QuotaOp} (hm : op.Measured s) (hf : op.Foreseen s)
    (h : Provided ns a (amountOf limits a).toInt s)
    (hv : (op.prog (packageChain t vs)).Visits serveOrFail s s') :
    Provided ns a (amountOf limits a).toInt s' := by
  cases op with
  | createPod pod =>
    rcases visits_createPod hq hcpu hmem (visits_of_discard hv) with rfl | ⟨req, hadm, rfl⟩
    · exact h
    · obtain ⟨howner, hset⟩ := hf
      obtain ⟨hnn, hlt⟩ := hm _ rfl a ha
      have hreplicas := (replicas_normalise (podAdmitReq pod)).1
      have hle := hadm.le ha h hnn (by omega) hlt
      have hone : Request.demand (normalise (podAdmitReq pod)) a = podAmount pod a := Int.mul_one _
      rw [hone] at hle
      refine h.add_pod (p := withSpec pod req) howner ?_ hset ?_
      · rw [hadm.podAmount]
        exact hnn
      · rw [hadm.podAmount]
        exact hle
  | createDeployment d =>
    rcases visits_createDeployment hq hcpu hmem (visits_of_discard hv) with
      rfl | ⟨hname, req, hadm, rfl⟩
    · exact h
    · obtain ⟨hnew, hmax, hset⟩ := hf
      obtain ⟨hnn, hlt⟩ := hm _ rfl a ha
      have hone := (replicas_normalise (admitReq d)).1
      have hle := hadm.le ha h hnn (by omega) hlt
      have hn : ((normalise (admitReq d)).replicas.toInt.toNat : Int) =
          (normalise (admitReq d)).replicas.toInt := Int.toNat_of_nonneg (by omega)
      have hns : (normalise (admitReq d)).ns = d.getMetadata.ns := by
        rw [normalise]
        split <;> rfl
      rw [Request.demand, containers_normalise, hns] at hle
      rw [containers_normalise] at hnn
      refine h.add_deployment (d := withTemplate d req)
        (n := (normalise (admitReq d)).replicas.toInt.toNat) hnew hname ?_ hset ?_ ?_
      · rw [hadm.templateAmount]
        exact hnn
      · rw [hn]
        exact reserved_withTemplate_le req hmax
      · rw [hadm.templateAmount, hn]
        exact hle
  | deploymentPass => exact h.pass (fun _ hplan => ensures_deploymentPass_places hplan) hv
  | autoscalerPass target => exact h.pass (fun _ _ => ensures_autoscalerPass_places target) hv

/-! ### Every run -/

theorem provided_run
    (h : Relation.ReflTransGen (QuotaStep (fun s op => op.Measured s ∧ op.Foreseen s)
      (packageChain t vs)) State.empty s) : Provided ns a (amountOf limits a).toInt s := by
  induction h with
  | refl =>
    refine provided_empty ?_
    rcases ha with rfl | rfl
    · exact (lt_iff_toInt_lt.mp hcpu).le
    · exact (lt_iff_toInt_lt.mp hmem).le
  | tail _ hstep ih =>
    obtain ⟨op, ⟨hm, hf⟩, hv⟩ := hstep
    exact ih.step hq hcpu hmem ha hm hf hv

end

/-- **The quota of a namespace holds over runs**, if admission foresees what comes of what it
admits. -/
theorem quota_holds (hq : .quota limits ∈ vs) (hcpu : 0 < limits.cpuMillis)
    (hmem : 0 < limits.memoryBytes)
    (h : Relation.ReflTransGen (QuotaStep (fun s op => op.Measured s ∧ op.Foreseen s)
      (packageChain t vs)) State.empty s) (ns : String) :
    usedIn s ns .cpu ≤ limits.cpuMillis.toInt ∧ usedIn s ns .memory ≤ limits.memoryBytes.toInt := by
  have hcpus : Provided ns .cpu limits.cpuMillis.toInt s := provided_run hq hcpu hmem (.inl rfl) h
  have hmems : Provided ns .memory limits.memoryBytes.toInt s :=
    provided_run hq hcpu hmem (.inr rfl) h
  obtain ⟨S, hS⟩ := hcpus
  obtain ⟨S', hS'⟩ := hmems
  exact ⟨hS.usedIn_le, hS'.usedIn_le⟩

end

/-! ### Two deployments -/

/-- A quota of ten of each. -/
def quotaOfTen : ResourceList := { cpuMillis := 10, memoryBytes := 10 }

def quotaChain : List Validator := packageChain ⟨id, fun _ => ""⟩ [.quota quotaOfTen]

/-- A deployment of one pod, which asks for six of each. -/
def asksForSix (name : String) : Deployment :=
  { metadata := some { name := name, ns := "default" }
    spec := some
      { replicas := 1
        template := some { containers := [
          { name := "c"
            resources := some { requests := some { cpuMillis := 6, memoryBytes := 6 } } }] } } }

instance (s : State) (op : QuotaOp) : Decidable (op.Measured s) :=
  decidable_of_iff (∀ req ∈ op.request,
      (0 ≤ containersAmount req.containers .cpu ∧
        listedAmount s req.ns .cpu + Request.demand req .cpu < 2 ^ 63) ∧
      0 ≤ containersAmount req.containers .memory ∧
        listedAmount s req.ns .memory + Request.demand req .memory < 2 ^ 63)
    ⟨fun h req hreq a ha => by
        rcases ha with rfl | rfl
        · exact (h req hreq).1
        · exact (h req hreq).2,
      fun h req hreq => ⟨h req hreq .cpu (.inl rfl), h req hreq .memory (.inr rfl)⟩⟩

theorem settled_empty (ns : String) : Settled State.empty ns := fun _ _ h => by cases h

theorem quota_holds_one :
    ∃ s, Relation.ReflTransGen (QuotaStep (fun s op => op.Measured s ∧ op.Foreseen s) quotaChain)
        State.empty s ∧
      usedIn s "default" .cpu = 6 ∧ usedIn s "default" .cpu ≤ quotaOfTen.cpuMillis.toInt ∧
      usedIn s "default" .memory ≤ quotaOfTen.memoryBytes.toInt := by
  -- the deployment is created, and the controller makes its pod
  obtain ⟨s₁, hv₁, hT⟩ := exists_of_follow serveOrFail_of_resolve
    (p := (QuotaOp.createDeployment (asksForSix "web")).prog quotaChain) (s := State.empty)
    (T := fun s => (Prog.follow resolve [["default/web"], [], []]
      (QuotaOp.deploymentPass.prog quotaChain) s).any (usedIn · "default" .cpu = 6) = true)
    [[], []] (by decide +kernel)
  obtain ⟨s₂, hv₂, hused⟩ := exists_of_follow serveOrFail_of_resolve _ hT
  have hfirst : (QuotaOp.createDeployment (asksForSix "web")).Foreseen State.empty :=
    ⟨rfl, by decide +kernel, settled_empty _⟩
  have hrun :
      Relation.ReflTransGen (QuotaStep (fun s op => op.Measured s ∧ op.Foreseen s) quotaChain)
      State.empty s₂ :=
    .tail (.single ⟨_, ⟨by decide +kernel, hfirst⟩, hv₁⟩)
      ⟨.deploymentPass, ⟨fun _ h => (by cases h), trivial⟩, hv₂⟩
  exact ⟨s₂, hrun, hused, quota_holds (List.mem_singleton.mpr rfl) (by decide) (by decide) hrun
    "default"⟩

/-- The orders in which a pass lists what there is, until both pods are made. -/
def bothOrders : List (List String) :=
  [["default/api", "default/web"], [], [], ["default/api-0"], ["default/api-0"], [], [], [], [],
    ["default/api-0"], []]

/-- **Two deployments are admitted** before either has its pod: six and six, within ten each
time. -/
theorem quota_exceeded :
    ∃ s, Relation.ReflTransGen (QuotaStep (fun s op => op.Measured s) quotaChain) State.empty s ∧
      quotaOfTen.cpuMillis.toInt < usedIn s "default" .cpu := by
  obtain ⟨s₁, hv₁, hm, hT⟩ := exists_of_follow serveOrFail_of_resolve
    (p := (QuotaOp.createDeployment (asksForSix "web")).prog quotaChain) (s := State.empty)
    (T := fun s => (QuotaOp.createDeployment (asksForSix "api")).Measured s ∧
      (Prog.follow resolve [[], []] ((QuotaOp.createDeployment (asksForSix "api")).prog quotaChain)
        s).any (fun s => (Prog.follow resolve bothOrders (QuotaOp.deploymentPass.prog quotaChain)
          s).any (quotaOfTen.cpuMillis.toInt < usedIn · "default" .cpu) = true) = true)
    [[], []] (by decide +kernel)
  obtain ⟨s₂, hv₂, hT⟩ := exists_of_follow serveOrFail_of_resolve _ hT
  obtain ⟨s₃, hv₃, hused⟩ := exists_of_follow serveOrFail_of_resolve _ hT
  exact ⟨s₃, .tail (.tail (.single ⟨_, by decide +kernel, hv₁⟩) ⟨_, hm, hv₂⟩)
    ⟨.deploymentPass, fun _ h => (by cases h), hv₃⟩, hused⟩

end NimbusCore.Cluster
