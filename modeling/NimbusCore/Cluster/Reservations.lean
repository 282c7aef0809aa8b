import Mathlib.Algebra.Order.BigOperators.Group.Finset
import NimbusCore.Controller.AutoscalerBounds
import NimbusCore.Controller.Contract
import NimbusCore.Support.Edits

/-!
# Cluster — places for the pods of a namespace

The pods of a namespace are those that were created directly and those of deployments.  The latter
come and go: the controller makes them when it passes, and the autoscaler says how many there are to
be.  What the deployments of a namespace may come to is a set of places, each for one pod of one
deployment (`Reserved`): as long as the pods that were created directly and the places together are
within a limit, so are the pods (`Reserved.usedIn_le`).

* `Reserved.step`: what the two controllers write (`Respects`) keeps to the places.
* `ensures_deploymentPass_places`, `ensures_autoscalerPass_places`: that is all they write, given
  what they are shown (`Tells`).
* `Reserved.rebase`: the places are those of the deployments as they are stored now.
-/

namespace NimbusCore.Cluster

open Api Registry Controller Prog Finset
open Controller.HorizontalAutoscaler (templateAmount Target)

/-! ### The pods of a namespace -/

/-- The deployment that a pod belongs to, by its label. -/
def owner (p : Pod) : String := p.getMetadata.label OwnerDeploymentLabel

def podsIn (s : State) (ns : String) : Dict String Pod :=
  (s .pods).filter fun _ p => p.getMetadata.ns = ns

/-- What the pods of a namespace ask for. -/
def usedIn (s : State) (ns : String) (a : Amount) : Int :=
  (podsIn s ns).sum fun _ p => podAmount p a

/-- The pods that belong to no deployment. -/
def directIn (s : State) (ns : String) : Dict String Pod :=
  (podsIn s ns).filter fun _ p => owner p = ""

/-- The pods that belong to one. -/
def ownedIn (s : State) (ns : String) : Dict String Pod :=
  (podsIn s ns).filter fun _ p => !decide (owner p = "")

section

variable {s : State} {ns k : String} {p : Pod}

theorem lookup_podsIn : (podsIn s ns).lookup k = some p ↔
    (s .pods).lookup k = some p ∧ p.getMetadata.ns = ns := by
  rw [podsIn, Finmap.lookup_filter, Option.filter_eq_some_iff, decide_eq_true_eq]

theorem lookup_directIn : (directIn s ns).lookup k = some p ↔
    (s .pods).lookup k = some p ∧ p.getMetadata.ns = ns ∧ owner p = "" := by
  rw [directIn, Finmap.lookup_filter, Option.filter_eq_some_iff, decide_eq_true_eq, lookup_podsIn,
    and_assoc]

theorem lookup_ownedIn : (ownedIn s ns).lookup k = some p ↔
    (s .pods).lookup k = some p ∧ p.getMetadata.ns = ns ∧ owner p ≠ "" := by
  rw [ownedIn, Finmap.lookup_filter, Option.filter_eq_some_iff, lookup_podsIn, and_assoc]
  simp

theorem usedIn_eq (s : State) (ns : String) (a : Amount) : usedIn s ns a =
    ((directIn s ns).sum fun _ p => podAmount p a) + (ownedIn s ns).sum fun _ p => podAmount p a :=
  (Finmap.sum_filter_add _).symm

end

/-! ### What a deployment may come to -/

/-- The number of pods for a number of replicas. -/
def mayWant (d : Deployment) (n : Int) : Int :=
  if 0 < d.getTemplate.volumes.length ∧ 1 < n then 1 else n

/-- The number of pods for the replicas it has, and for those that it may be scaled to. -/
def reserved (d : Deployment) : Int :=
  mayWant d (max d.getSpec.replicas.toInt d.getSpec.maxReplicas.toInt)

theorem mayWant_mono (d : Deployment) {m n : Int} (h : m ≤ n) : mayWant d m ≤ mayWant d n := by
  simp only [mayWant]
  split <;> split <;> omega

theorem mayWant_le (d : Deployment) (n : Int) : mayWant d n ≤ n := by
  rw [mayWant]
  split <;> omega

theorem wanted_le_reserved (d : Deployment) : wanted d ≤ reserved d :=
  mayWant_mono d (le_max_left _ _)

def deploymentPath (d : Deployment) : String := path d.getMetadata.ns d.getMetadata.name

/-- The same deployment, which may not come to more pods. -/
structure Alike (d d₀ : Deployment) : Prop where
  metadata : d.getMetadata = d₀.getMetadata
  template : d.getTemplate = d₀.getTemplate
  maxReplicas : d.getSpec.maxReplicas = d₀.getSpec.maxReplicas
  reserved_le : reserved d ≤ reserved d₀

theorem Alike.refl (d : Deployment) : Alike d d := ⟨rfl, rfl, rfl, le_rfl⟩

variable {d d₀ : Deployment}

theorem Alike.templateAmount (h : Alike d d₀) (a : Amount) :
    templateAmount d a = HorizontalAutoscaler.templateAmount d₀ a := by
  rw [HorizontalAutoscaler.templateAmount, h.template]
  rfl

theorem Alike.podName (h : Alike d d₀) (i : Nat) : podName d i = podName d₀ i := by
  rw [Controller.podName, h.metadata]
  rfl

/-! ### Places -/

section

variable (ns : String) (a : Amount) (D : Dict String Deployment) (S : Finset (String × String))

/-- The deployment is one of `D`. -/
def Known (d : Deployment) : Prop := ∃ d₀, D.lookup (deploymentPath d) = some d₀ ∧ Alike d d₀

/-- What a pod at a place asks for.  A place is a deployment of the namespace and a pod, by their
names. -/
def weight (x : String × String) : Int :=
  (D.lookup (path ns x.1)).elim 0 fun d => templateAmount d a

/-- If the pod belongs to a deployment of the namespace, it has a place. -/
def HasPlace (p : Pod) : Prop :=
  p.getMetadata.ns = ns → owner p ≠ "" → (owner p, p.getMetadata.name) ∈ S ∧
    ∃ d, D.lookup (path ns (owner p)) = some d ∧ podAmount p a = templateAmount d a

/-- Each deployment of the namespace has a place for every pod that it may come to. -/
structure Plan : Prop where
  path_eq : ∀ K d, D.lookup K = some d → deploymentPath d = K
  named : ∀ K d, D.lookup K = some d → d.getMetadata.name ≠ ""
  nonneg : ∀ K d, D.lookup K = some d → 0 ≤ templateAmount d a
  places : ∀ K d, D.lookup K = some d → d.getMetadata.ns = ns → ∀ i : Nat, (i : Int) < reserved d →
    (d.getMetadata.name, podName d i) ∈ S
  owners : ∀ x ∈ S, ∃ d, D.lookup (path ns x.1) = some d

/-- **The pods are within the places, and the places within the limit.** -/
structure Reserved (limit : Int) (s : State) : Prop extends Plan ns a D S where
  keyed : ∀ k p, (s .pods).lookup k = some p → podPath p = k
  pods_nonneg : ∀ k p, (s .pods).lookup k = some p → 0 ≤ podAmount p a
  hasPlace : ∀ k p, (s .pods).lookup k = some p → HasPlace ns a D S p
  stored : ∀ K d, (s .deployments).lookup K = some d → deploymentPath d = K ∧ Known D d
  kept : ∀ K d, D.lookup K = some d → ∃ d', (s .deployments).lookup K = some d'
  bound : ((directIn s ns).sum fun _ p => podAmount p a) + ∑ x ∈ S, weight ns a D x ≤ limit

/-- What a controller is shown. -/
def Tells : (c : Cmd) → c.Answer → Prop
  | .list .pods _, .ok all => ∀ p ∈ all, 0 ≤ podAmount p a ∧ HasPlace ns a D S p
  | .list .deployments _, .ok deployments => ∀ d ∈ deployments, Known D d
  | .get .deployments n m, .ok d => deploymentPath d = path n m ∧ Known D d
  | _, _ => True

/-- What a controller writes: pods that have places, and the deployments that there are. -/
def Respects : Cmd → Prop
  | .put .pods n m p => (n = p.getMetadata.ns ∧ m = p.getMetadata.name) ∧ owner p ≠ "" ∧
      0 ≤ podAmount p a ∧ HasPlace ns a D S p
  | .put .deployments n m d => (n = d.getMetadata.ns ∧ m = d.getMetadata.name) ∧ Known D d
  | .delete .deployments _ _ => False
  | _ => True

end

variable {p : Pod} {c : Cmd} {limit' : Int} {k : String} {o : Option Pod} {x : c.Answer}

section

variable {ns : String} {a : Amount} {D : Dict String Deployment} {S : Finset (String × String)}
  {limit : Int} {s s' : State}

theorem Plan.weight_nonneg (h : Plan ns a D S) (x : String × String) : 0 ≤ weight ns a D x := by
  rw [weight]
  cases hd : D.lookup (path ns x.1) with
  | none => exact le_rfl
  | some d => exact h.nonneg _ d hd

theorem Plan.known_named (h : Plan ns a D S) (hd : Known D d) : d.getMetadata.name ≠ "" := by
  obtain ⟨d₀, hl, halike⟩ := hd
  rw [halike.metadata]
  exact h.named _ d₀ hl

namespace Reserved

variable (h : Reserved ns a D S limit s)

include h

/-- **The pods of the namespace are within the limit.** -/
theorem usedIn_le : usedIn s ns a ≤ limit := by
  have howned : ((ownedIn s ns).sum fun _ p => podAmount p a) ≤ ∑ x ∈ S, weight ns a D x := by
    refine Finmap.sum_le_sum_places (g := fun _ p => (owner p, p.getMetadata.name))
      (fun x => path ns x.2) (fun x _ => h.weight_nonneg x) fun k p hp => ?_
    obtain ⟨hl, hns, howner⟩ := lookup_ownedIn.mp hp
    obtain ⟨hmem, d, hd, hamount⟩ := h.hasPlace k p hl hns howner
    refine ⟨hmem, ?_, ?_⟩
    · rw [← h.keyed k p hl, podPath, hns]
    · rw [weight, hd, hamount]
      rfl
  rw [usedIn_eq]
  have := h.bound
  omega

/-- Only the pods and the deployments matter. -/
theorem congr (hp : s' .pods = s .pods) (hd : s' .deployments = s .deployments) :
    Reserved ns a D S limit s' := by
  have hdirect : directIn s' ns = directIn s ns := by rw [directIn, podsIn, hp]; rfl
  exact { h with
    keyed := hp ▸ h.keyed
    pods_nonneg := hp ▸ h.pods_nonneg
    hasPlace := hp ▸ h.hasPlace
    stored := hd ▸ h.stored
    kept := hd ▸ h.kept
    bound := hdirect ▸ h.bound }

theorem mono (hle : limit ≤ limit') : Reserved ns a D S limit' s :=
  { h with bound := h.bound.trans hle }

theorem direct_nonneg (k : String) (p : Pod) (hk : (directIn s ns).lookup k = some p) :
    0 ≤ podAmount p a :=
  h.pods_nonneg k p (lookup_directIn.mp hk).1

/-- **One pod** is put, or deleted.  It has a place, or it was created directly and adds to those
that were. -/
theorem set_pod (hs' : ∀ j, (s' .pods).lookup j = if j = k then o else (s .pods).lookup j)
    (hd : s' .deployments = s .deployments)
    (ho : ∀ p, o = some p → podPath p = k ∧ 0 ≤ podAmount p a ∧ HasPlace ns a D S p)
    (hle : ((directIn s' ns).sum fun _ p => podAmount p a) + limit ≤
      ((directIn s ns).sum fun _ p => podAmount p a) + limit') : Reserved ns a D S limit' s' := by
  have hpods : ∀ j p, (s' .pods).lookup j = some p →
      podPath p = j ∧ 0 ≤ podAmount p a ∧ HasPlace ns a D S p := by
    intro j p hj
    rw [hs'] at hj
    split at hj
    · next hjk => exact hjk ▸ ho p hj
    · exact ⟨h.keyed j p hj, h.pods_nonneg j p hj, h.hasPlace j p hj⟩
  exact { h with
    keyed := fun j p hj => (hpods j p hj).1
    pods_nonneg := fun j p hj => (hpods j p hj).2.1
    hasPlace := fun j p hj => (hpods j p hj).2.2
    stored := hd ▸ h.stored
    kept := hd ▸ h.kept
    bound := by have := h.bound; omega }

/-- A pod that has a place, or none. -/
theorem set_placed (hs' : ∀ j, (s' .pods).lookup j = if j = k then o else (s .pods).lookup j)
    (hd : s' .deployments = s .deployments)
    (ho : ∀ p, o = some p → podPath p = k ∧ 0 ≤ podAmount p a ∧ HasPlace ns a D S p)
    (howner : ∀ p, o = some p → p.getMetadata.ns = ns → owner p ≠ "") :
    Reserved ns a D S limit s' := by
  refine h.set_pod hs' hd ho (add_le_add_left (Finmap.sum_le_of_sub (fun j p hj => ?_)
    h.direct_nonneg) limit)
  obtain ⟨hl, hns, hown⟩ := lookup_directIn.mp hj
  rw [hs'] at hl
  split at hl
  · exact absurd hown (howner p hl hns)
  · exact lookup_directIn.mpr ⟨hl, hns, hown⟩

/-- **A pod that is created directly.** -/
theorem add_pod (howner : owner p = "") (hnn : 0 ≤ podAmount p a) :
    Reserved ns a D S (limit + podAmount p a) (s.set .pods ((s .pods).insert (podPath p) p)) := by
  have hlookup : ∀ j, ((s.set .pods ((s .pods).insert (podPath p) p)) .pods).lookup j =
      if j = podPath p then some p else (s .pods).lookup j := by
    intro j
    rw [State.set_self]
    exact Finmap.lookup_insert_eq ..
  refine h.set_pod hlookup (State.set_of_ne s (by decide) _) (fun q hq => ?_) ?_
  · cases hq
    exact ⟨rfl, hnn, fun _ hne => absurd howner hne⟩
  · have hinsert := Finmap.sum_insert_le h.direct_nonneg (podPath p) p
    refine le_trans (add_le_add_left (Finmap.sum_le_of_sub (fun j q hj => ?_) fun j q hj => ?_) _)
      (b := ((directIn s ns).insert (podPath p) p).sum (fun _ p => podAmount p a) + limit) ?_
    · obtain ⟨hl, hns, hown⟩ := lookup_directIn.mp hj
      rw [hlookup] at hl
      rw [Finmap.lookup_insert_eq]
      split at hl
      · next hjk => rw [if_pos hjk, hl]
      · next hjk => rw [if_neg hjk, lookup_directIn.mpr ⟨hl, hns, hown⟩]
    · rw [Finmap.lookup_insert_eq] at hj
      split at hj
      · cases hj
        exact hnn
      · exact h.direct_nonneg j q hj
    · omega

/-- **One deployment**, of those there are. -/
theorem set_deployment (hd : Known D d) (hp : s' .pods = s .pods)
    (hs' : s' .deployments = (s .deployments).insert (deploymentPath d) d) :
    Reserved ns a D S limit s' := by
  have hdirect : directIn s' ns = directIn s ns := by rw [directIn, podsIn, hp]; rfl
  refine { h with
    keyed := hp ▸ h.keyed
    pods_nonneg := hp ▸ h.pods_nonneg
    hasPlace := hp ▸ h.hasPlace
    stored := fun K d' hK => ?_
    kept := fun K d₀ hK => ?_
    bound := hdirect ▸ h.bound }
  · rw [hs', Finmap.lookup_insert_eq] at hK
    split at hK
    · next he => cases hK; exact ⟨he.symm, hd⟩
    · exact h.stored K d' hK
  · rw [hs', Finmap.lookup_insert_eq]
    split
    · exact ⟨d, rfl⟩
    · exact h.kept K d₀ hK

/-- **What the controllers write keeps to the places.** -/
theorem step (hc : Respects ns a D S c) (hH : serveOrFail c s x s') :
    Reserved ns a D S limit s' := by
  have hpost := serveOrFail_post hH
  rcases c with _ | ⟨k, n, m, obj⟩ | ⟨k, n, m⟩ | _
  · exact hpost ▸ h
  · rcases x with e | _
    · exact hpost ▸ h
    cases k with
    | pods =>
      obtain ⟨⟨rfl, rfl⟩, howner, hnn, hplace⟩ := hc
      rw [hpost]
      refine h.set_placed (k := podPath obj) (o := some obj)
        (fun j => Finmap.lookup_insert_eq ..) rfl (fun p hp => ?_) fun p hp _ => ?_
      · cases hp
        exact ⟨rfl, hnn, hplace⟩
      · cases hp
        exact howner
    | deployments =>
      obtain ⟨⟨rfl, rfl⟩, hknown⟩ := hc
      rw [hpost]
      exact h.set_deployment hknown rfl rfl
    | _ => rw [hpost]; exact h.congr rfl rfl
  · rcases x with e | _
    · exact hpost ▸ h
    cases k with
    | pods =>
      rw [hpost]
      refine h.set_placed (k := path n m) (o := none) (fun j => Finmap.lookup_erase_eq ..) rfl
        (fun p hp => ?_) fun p hp => ?_
      · cases hp
      · cases hp
    | deployments => exact absurd hc id
    | _ => rw [hpost]; exact h.congr rfl rfl
  · exact hpost ▸ h

/-- What the controllers are shown is what there is. -/
theorem tells (hH : serveOrFail c s x s') : Tells ns a D S c x := by
  rcases c with ⟨k, n, m⟩ | _ | _ | ⟨k, n⟩
  · cases k with
    | deployments =>
      cases x with
      | error e => trivial
      | ok d => exact h.stored _ d (lookup_of_get hH)
    | _ => cases x <;> trivial
  · trivial
  · trivial
  · cases k with
    | pods =>
      rcases x with e | all
      · trivial
      intro p hp
      obtain ⟨k, -, hk⟩ := (mem_of_list hH).mp hp
      exact ⟨h.pods_nonneg k p hk, h.hasPlace k p hk⟩
    | deployments =>
      rcases x with e | deployments
      · trivial
      intro d hd
      obtain ⟨K, -, hK⟩ := (mem_of_list hH).mp hd
      exact (h.stored K d hK).2
    | _ => cases x <;> trivial

/-- **The places are those of the deployments as they are stored now.** -/
theorem rebase : Reserved ns a (s .deployments) S limit s := by
  -- what is stored at a path is what `D` has there, or less
  have halike : ∀ K d₀, D.lookup K = some d₀ →
      ∃ d, (s .deployments).lookup K = some d ∧ Alike d d₀ := by
    intro K d₀ hK
    obtain ⟨d, hd⟩ := h.kept K d₀ hK
    obtain ⟨hpath, d₁, hd₁, halike⟩ := h.stored K d hd
    rw [hpath, hK] at hd₁
    cases hd₁
    exact ⟨d, hd, halike⟩
  have hknown : ∀ K d, (s .deployments).lookup K = some d →
      ∃ d₀, D.lookup K = some d₀ ∧ Alike d d₀ := by
    intro K d hd
    obtain ⟨hpath, d₀, hd₀, halike⟩ := h.stored K d hd
    exact ⟨d₀, hpath ▸ hd₀, halike⟩
  have hweight : ∀ x ∈ S, weight ns a (s .deployments) x = weight ns a D x := by
    intro x hx
    obtain ⟨d₀, hd₀⟩ := h.owners x hx
    obtain ⟨d, hd, hal⟩ := halike _ d₀ hd₀
    rw [weight, weight, hd, hd₀]
    exact hal.templateAmount a
  exact
    { path_eq := fun K d hd => (h.stored K d hd).1
      named := fun K d hd => h.known_named (h.stored K d hd).2
      nonneg := fun K d hd => by
        obtain ⟨d₀, hd₀, hal⟩ := hknown K d hd
        rw [hal.templateAmount]
        exact h.nonneg K d₀ hd₀
      places := fun K d hd hns i hi => by
        obtain ⟨d₀, hd₀, hal⟩ := hknown K d hd
        rw [hal.podName, hal.metadata]
        exact h.places K d₀ hd₀ (hal.metadata ▸ hns) i (lt_of_lt_of_le hi hal.reserved_le)
      owners := fun x hx => by
        obtain ⟨d₀, hd₀⟩ := h.owners x hx
        exact h.kept _ d₀ hd₀
      keyed := h.keyed
      pods_nonneg := h.pods_nonneg
      hasPlace := fun k p hp hns howner => by
        obtain ⟨hmem, d₀, hd₀, hamount⟩ := h.hasPlace k p hp hns howner
        obtain ⟨d, hd, hal⟩ := halike _ d₀ hd₀
        exact ⟨hmem, d, hd, hamount.trans (hal.templateAmount a).symm⟩
      stored := fun K d hd => ⟨(h.stored K d hd).1, d, (h.stored K d hd).1 ▸ hd, .refl d⟩
      kept := fun K d hd => ⟨d, hd⟩
      bound := by rw [Finset.sum_congr rfl hweight]; exact h.bound }

end Reserved

/-! ### New places -/

/-- Each deployment of the namespace has all the pods that it may come to. -/
def Settled (s : State) (ns : String) : Prop :=
  ∀ K d, (s .deployments).lookup K = some d → d.getMetadata.ns = ns →
    ∀ i : Nat, (i : Int) < reserved d → ∃ p, (s .pods).lookup (path ns (podName d i)) = some p ∧
      p.getMetadata.ns = ns ∧ OwnedBy d p

/-- The places that are taken. -/
def taken (s : State) (ns : String) : Finset (String × String) :=
  (ownedIn s ns).values fun _ p => (owner p, p.getMetadata.name)

namespace Reserved

/-- **If all the pods are there, no other places are needed**, and what is used is the limit. -/
theorem settled (h : Reserved ns a (s .deployments) S limit s) (hset : Settled s ns) :
    Reserved ns a (s .deployments) (taken s ns) (usedIn s ns a) s := by
  have hplace : ∀ k p, (ownedIn s ns).lookup k = some p → ∃ d,
      (s .deployments).lookup (path ns (owner p)) = some d ∧
        podAmount p a = templateAmount d a := by
    intro k p hk
    obtain ⟨hl, hns, howner⟩ := lookup_ownedIn.mp hk
    exact (h.hasPlace k p hl hns howner).2
  have hweight : ((ownedIn s ns).sum fun _ p =>
      weight ns a (s .deployments) (owner p, p.getMetadata.name)) =
      (ownedIn s ns).sum fun _ p => podAmount p a := by
    refine Finmap.sum_congr fun k p hk => ?_
    obtain ⟨d, hd, hamount⟩ := hplace k p hk
    rw [weight, hd, hamount]
    rfl
  have hsum := Finmap.sum_values_le (m := ownedIn s ns) (w := weight ns a (s .deployments))
    (g := fun _ p => (owner p, p.getMetadata.name)) fun x _ => h.weight_nonneg x
  refine { h with
    places := fun K d hd hns i hi => ?_
    owners := fun x hx => ?_
    hasPlace := fun k p hk hns howner => ?_
    bound := ?_ }
  · obtain ⟨p, hp, hpns, howned⟩ := hset K d hd hns i hi
    have hname : podName d i = p.getMetadata.name := by
      have hpath : path ns (podName d i) = path ns p.getMetadata.name := by
        rw [← h.keyed _ p hp, podPath, hpns]
      exact path_right_inj hpath
    have howner : owner p = d.getMetadata.name := howned
    refine Finmap.mem_values.mpr ⟨_, p, lookup_ownedIn.mpr ⟨hp, hpns, ?_⟩, ?_⟩
    · rw [howner]
      exact h.named K d hd
    · rw [howner, hname]
  · obtain ⟨k, p, hk, rfl⟩ := Finmap.mem_values.mp hx
    obtain ⟨d, hd, -⟩ := hplace k p hk
    exact ⟨d, hd⟩
  · have howned := lookup_ownedIn.mpr ⟨hk, hns, howner⟩
    exact ⟨Finmap.mem_values.mpr ⟨k, p, howned, rfl⟩, hplace k p howned⟩
  · rw [usedIn_eq, ← hweight]
    exact add_le_add_right hsum _

/-- **A new deployment**, with the places `X`. -/
theorem add_deployment (h : Reserved ns a (s .deployments) S limit s)
    (hnew : (s .deployments).lookup (deploymentPath d) = none) (hname : d.getMetadata.name ≠ "")
    (hnn : 0 ≤ templateAmount d a) {X : Finset (String × String)}
    (hX : ∀ x ∈ X, path ns x.1 = deploymentPath d)
    (hplaces : d.getMetadata.ns = ns → ∀ i : Nat, (i : Int) < reserved d →
      (d.getMetadata.name, podName d i) ∈ X) :
    Reserved ns a ((s .deployments).insert (deploymentPath d) d) (S ∪ X)
      (limit + X.card * templateAmount d a)
      (s.set .deployments ((s .deployments).insert (deploymentPath d) d)) := by
  obtain ⟨D, hD⟩ : ∃ D, D = (s .deployments).insert (deploymentPath d) d := ⟨_, rfl⟩
  rw [← hD]
  have hlookup : ∀ K, D.lookup K =
      if K = deploymentPath d then some d else (s .deployments).lookup K :=
    fun K => hD ▸ Finmap.lookup_insert_eq ..
  -- what was there stays, since nothing was at the path
  have hold : ∀ K d', (s .deployments).lookup K = some d' →
      D.lookup K = some d' := by
    intro K d' hK
    rw [hlookup, if_neg fun he => by rw [he, hnew] at hK; cases hK]
    exact hK
  have hplan : Plan ns a D (S ∪ X) := by
    have hall : ∀ K d', D.lookup K = some d' → deploymentPath d' = K ∧ d'.getMetadata.name ≠ "" ∧
        0 ≤ templateAmount d' a ∧ (d'.getMetadata.ns = ns → ∀ i : Nat, (i : Int) < reserved d' →
          (d'.getMetadata.name, podName d' i) ∈ S ∪ X) := by
      intro K d' hK
      rw [hlookup] at hK
      split at hK
      · next he =>
        cases hK
        exact ⟨he.symm, hname, hnn, fun hns i hi => mem_union_right _ (hplaces hns i hi)⟩
      · exact ⟨h.path_eq K d' hK, h.named K d' hK, h.nonneg K d' hK,
          fun hns i hi => mem_union_left _ (h.places K d' hK hns i hi)⟩
    refine ⟨fun K d' hK => (hall K d' hK).1, fun K d' hK => (hall K d' hK).2.1,
      fun K d' hK => (hall K d' hK).2.2.1, fun K d' hK => (hall K d' hK).2.2.2, fun x hx => ?_⟩
    rcases mem_union.mp hx with hx | hx
    · obtain ⟨d', hd'⟩ := h.owners x hx
      exact ⟨d', hold _ d' hd'⟩
    · exact ⟨d, by rw [hlookup, if_pos (hX x hx)]⟩
  have hS : ∑ x ∈ S, weight ns a D x =
      ∑ x ∈ S, weight ns a (s .deployments) x := by
    refine Finset.sum_congr rfl fun x hx => ?_
    obtain ⟨d', hd'⟩ := h.owners x hx
    rw [weight, weight, hold _ d' hd', hd']
  have hXsum : ∑ x ∈ X, weight ns a D x =
      X.card * templateAmount d a := by
    rw [Finset.sum_congr rfl fun x hx => ?_, Finset.sum_const, Int.nsmul_eq_mul]
    rw [weight, hlookup, if_pos (hX x hx)]
    rfl
  have hunion : ∑ x ∈ S ∪ X, weight ns a D x +
      ∑ x ∈ S ∩ X, weight ns a D x = _ :=
    sum_union_inter
  have hinter := sum_nonneg (s := S ∩ X) fun x _ => hplan.weight_nonneg x
  have hpods : (s.set .deployments D) .pods = s .pods :=
    State.set_of_ne s (by decide) _
  have hdirect : directIn (s.set .deployments D) ns =
      directIn s ns := by
    rw [directIn, podsIn, hpods]
    rfl
  refine { hplan with
    keyed := hpods ▸ h.keyed
    pods_nonneg := hpods ▸ h.pods_nonneg
    hasPlace := hpods ▸ fun k p hk hns howner => ?_
    stored := fun K d' hK => ?_
    kept := fun K d' hK => ⟨d', by rw [State.set_self]; exact hK⟩
    bound := ?_ }
  · obtain ⟨hmem, d', hd', hamount⟩ := h.hasPlace k p hk hns howner
    exact ⟨mem_union_left _ hmem, d', hold _ d' hd', hamount⟩
  · rw [State.set_self] at hK
    have hpath := hplan.path_eq K d' hK
    exact ⟨hpath, d', hpath.symm ▸ hK, .refl d'⟩
  · rw [hdirect]
    have := h.bound
    omega

end Reserved

/-! ### The controllers -/

theorem respects_of_reads (h : c.Reads) : Respects ns a D S c := by
  cases c with
  | get k n m => trivial
  | list k n => trivial
  | put k n m obj => cases h
  | delete k n m => cases h

theorem respects_of_volumes (h : c.OnlyWrites .volumes) : Respects ns a D S c := by
  cases c with
  | get k n m => trivial
  | list k n => trivial
  | put k n m obj | delete k n m => cases h k rfl; trivial

theorem HasPlace.congr {p' : Pod} (h : HasPlace ns a D S p) (hmd : p'.getMetadata = p.getMetadata)
    (hamount : podAmount p' a = podAmount p a) : HasPlace ns a D S p' := by
  rw [HasPlace, owner, hmd, hamount]
  exact h

theorem Plan.owner_ne (h : Plan ns a D S) (hd : Known D d) (hp : OwnedBy d p) : owner p ≠ "" := by
  have howner : owner p = d.getMetadata.name := hp
  rw [howner]
  exact h.known_named hd

/-- **The pods of a deployment have places**: those that are listed, and those that are made. -/
theorem replicates_places (hplan : Plan ns a D S) (hd : Known D d) :
    Replicates d (Tells ns a D S) (Respects ns a D S)
      (fun p => 0 ≤ podAmount p a ∧ HasPlace ns a D S p)
      (fun p => owner p ≠ "" ∧ 0 ≤ podAmount p a ∧ HasPlace ns a D S p) fun _ => True where
  reads _ := respects_of_reads
  puts _ hp := ⟨⟨rfl, rfl⟩, hp⟩
  lists _ hall := hall
  assigns p nodeName hp ho _ := by
    have hamount : podAmount (assign nodeName p) a = podAmount p a := by
      rw [podAmount, assign_containers]
      rfl
    rw [owner, assign_metadata, hamount]
    exact ⟨hplan.owner_ne hd ho, hp.1, hp.2.congr (assign_metadata nodeName p) hamount⟩
  marks p msg hp ho _ := ⟨hplan.owner_ne hd ho, hp.1, hp.2.congr rfl rfl⟩
  deletes _ _ _ := trivial
  resolves := Within.ensures (Within.weaken (fun _ => respects_of_reads) (fun _ he => he)
    (readsOnly_resolveVolumeNode _ _))
  creates node i _ hi := by
    obtain ⟨d₀, hd₀, halike⟩ := hd
    have howner : owner (created d node i) = d.getMetadata.name := by
      rw [owner, created_metadata]
      exact ownedBy_newPod d i
    have hamount : podAmount (created d node i) a = templateAmount d₀ a := by
      rw [podAmount, created_containers]
      exact halike.templateAmount a
    refine ⟨?_, ?_, fun hns _ => ?_⟩
    · rw [howner, halike.metadata]
      exact hplan.named _ d₀ hd₀
    · rw [hamount]
      exact hplan.nonneg _ d₀ hd₀
    · rw [created_metadata] at hns ⊢
      have hdns : d.getMetadata.ns = ns := hns
      have hlt : (i : Int) < reserved d₀ :=
        lt_of_lt_of_le hi ((wanted_le_reserved d).trans halike.reserved_le)
      have hplace := hplan.places _ d₀ hd₀ (halike.metadata ▸ hdns) i hlt
      rw [← halike.metadata, ← halike.podName] at hplace
      rw [howner]
      refine ⟨hplace, d₀, ?_, hamount⟩
      rw [deploymentPath, hdns] at hd₀
      exact hd₀

/-- A status leaves the deployment what it is. -/
theorem Known.status (h : Known D d) (status : Option DeploymentStatus) :
    Known D { d with status := status } := by
  obtain ⟨d₀, hd₀, halike⟩ := h
  exact ⟨d₀, hd₀, halike.metadata, halike.template, halike.maxReplicas, halike.reserved_le⟩

theorem ensures_reconcileOne_places (hplan : Plan ns a D S) (hd : Known D d) :
    (reconcileOne d).Ensures (Tells ns a D S) (Respects ns a D S) fun _ => True := by
  rw [reconcileOne_eq]
  refine Ensures.bind (replicates_places hplan hd).ensures_podStage fun owned _ => ?_
  refine Ensures.bind (Within.ensures (Within.weaken
    (fun _ => respects_of_volumes) (fun _ he => he) (claimVolumes_inBounds d owned.1)))
      fun _ _ => ?_
  refine Ensures.bind_ok (ensures_asked trivial) fun cur hx => ?_
  refine ensures_ask_bind.mpr ⟨⟨⟨rfl, rfl⟩, hx.2.status _⟩, fun x _ => ?_⟩
  cases x <;> trivial

/-- **A pass of the deployment controller** keeps to the places. -/
theorem ensures_deploymentPass_places (hplan : Plan ns a D S) :
    Controller.reconcileAll.Ensures (Tells ns a D S) (Respects ns a D S) fun _ => True :=
  ensures_reconcileAll trivial fun _ hall d hd => ensures_reconcileOne_places hplan (hall d hd)

/-- A number that is not above the maximum is one the deployment may be scaled to. -/
theorem rescales_places (hd : Known D d) :
    HorizontalAutoscaler.Rescales d (Tells ns a D S) (Respects ns a D S) where
  reads _ := respects_of_reads
  puts cur spec r hcur hspec hr := by
    obtain ⟨hpath, d₁, hd₁, hal₁⟩ := hcur
    obtain ⟨d₀, hd₀, hal₀⟩ := hd
    -- both are the one that is stored there
    obtain rfl : d₁ = d₀ := by
      rw [hpath] at hd₁
      exact Option.some.inj (hd₁.symm.trans hd₀)
    have hmax : r.toInt ≤ cur.getSpec.maxReplicas.toInt := by
      rw [hal₁.maxReplicas, ← hal₀.maxReplicas]
      exact hr
    have hgetSpec : cur.getSpec = spec := by rw [Deployment.getSpec, hspec]; rfl
    have hle : max r.toInt spec.maxReplicas.toInt ≤
        max cur.getSpec.replicas.toInt cur.getSpec.maxReplicas.toInt := by
      rw [← hgetSpec]
      exact max_le (hmax.trans (le_max_right _ _)) (le_max_right _ _)
    have htemplate : cur.getTemplate = spec.template.getD {} := by
      rw [Deployment.getTemplate, hgetSpec]
    refine ⟨⟨rfl, rfl⟩, d₁, hd₁, hal₁.metadata, ?_, ?_, ?_⟩
    · rw [← hal₁.template, htemplate]
      rfl
    · rw [← hal₁.maxReplicas, hgetSpec]
      rfl
    · refine le_trans (le_of_eq_of_le ?_ (mayWant_mono cur hle)) hal₁.reserved_le
      rw [mayWant, htemplate]
      rfl

/-- **A pass of the autoscaler** keeps to the places. -/
theorem ensures_autoscalerPass_places (target : Target) :
    (HorizontalAutoscaler.reconcileAll target).Ensures (Tells ns a D S) (Respects ns a D S)
      fun _ => True :=
  HorizontalAutoscaler.ensures_autoscaleAll trivial fun _ hall d hd =>
    (rescales_places (hall d hd)).ensures_reconcileOne target

end

end NimbusCore.Cluster
