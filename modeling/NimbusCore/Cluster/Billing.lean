import NimbusCore.Apiserver.Objects
import NimbusCore.Controller.Contract
import NimbusCore.Finops.Cost

/-!
# Cluster — pods and what they are billed

A pod is billed from the time of creation in its metadata (`Finops.charge`).  It is made by
`CreatePod`, with the metadata of the request, or by the deployment controller, which gives no time;
the controllers write pods that they have listed back with their metadata.  Any number of these run
at once, beside a clock.

* `along_prog`: what each of them writes.
* `recorded`: who made a pod is known, of each that was not there at the start.
* `billed_iff`: every pod is billed from a second after it was made exactly if none was made by the
  controller, and each request for one gave a time that had come by then.
* `pods_unbilled`: a pod of a deployment is never billed, and neither is one that was requested
  without a time.
-/

namespace NimbusCore.Cluster

open Api Registry Admission Apiserver Prog
open Controller Finops

/-! ### The operations -/

/-- An operation that makes pods, or writes them back. -/
inductive PodOp where
  | createPod (pod : Pod)
  | createDeployment (d : Deployment)
  | deploymentPass
  | podPass

/-- What it runs. -/
def PodOp.prog (validators : List Validator) : PodOp → Reg Unit
  | .createPod pod => do
    let _ ← Apiserver.createPod validators pod
    return ()
  | .createDeployment d => do
    let _ ← Apiserver.createDeployment validators d
    return ()
  | .deploymentPass => Controller.reconcileAll
  | .podPass => PodReconciler.reconcileAll

/-- The metadata of the pods that were listed. -/
def seen : List (Prog.Done Cmd Cmd.Answer) → List ObjectMeta
  | [] => []
  | ⟨.list .pods _, .ok pods⟩ :: h => pods.map (·.getMetadata) ++ seen h
  | _ :: h => seen h

/-- The metadata of a pod that a pass makes, or writes back. -/
def Timeless (h : List (Prog.Done Cmd Cmd.Answer)) (m : ObjectMeta) : Prop :=
  m.createdAtUnix = 0 ∨ m ∈ seen h

/-- **What an operation writes of pods**, after what it has done. -/
def WritesPods (op : PodOp) (h : List (Prog.Done Cmd Cmd.Answer)) : Cmd → Prop
  | .put .pods ns name p =>
    (ns = p.getMetadata.ns ∧ name = p.getMetadata.name) ∧
    match op with
    | .createPod pod => p.getMetadata = pod.getMetadata
    | .createDeployment _ => False
    | .deploymentPass | .podPass => Timeless h p.getMetadata
  | _ => True

/-- The answer shows no pods but those that were listed. -/
def ShowsSeen (h : List (Prog.Done Cmd Cmd.Answer)) : (c : Cmd) → c.Answer → Prop
  | .list .pods _, .ok pods => ∀ p ∈ pods, p.getMetadata ∈ seen h
  | _, _ => True

variable {h : List (Prog.Done Cmd Cmd.Answer)}

/-- What was listed, and before. -/
theorem mem_seen_cons {d : Prog.Done Cmd Cmd.Answer} {m : ObjectMeta} : m ∈ seen (d :: h) ↔
      (∃ ns pods, d = ⟨.list .pods ns, .ok pods⟩ ∧ ∃ p ∈ pods, p.getMetadata = m) ∨ m ∈ seen h := by
  rw [seen.eq_def]
  split
  · next heq => cases heq
  · next ns pods h' heq =>
    cases heq
    rw [List.mem_append, List.mem_map]
    refine or_congr_left ⟨fun hp => ⟨ns, pods, rfl, hp⟩, ?_⟩
    rintro ⟨ns', pods', heq, hp⟩
    cases heq
    exact hp
  · next hno heq =>
    cases heq
    refine ⟨.inr, fun hm => hm.resolve_left ?_⟩
    rintro ⟨ns, pods, rfl, -⟩
    exact hno ns pods rfl

variable {ns : String} {pods : List Pod}

theorem mem_seen (hmem : ⟨.list .pods ns, .ok pods⟩ ∈ h) : ∀ p ∈ pods, p.getMetadata ∈ seen h := by
  intro p hp
  induction h with
  | nil => cases hmem
  | cons d h ih =>
    rw [mem_seen_cons]
    rcases List.mem_cons.mp hmem with rfl | hmem
    · exact .inl ⟨ns, pods, rfl, p, hp, rfl⟩
    · exact .inr (ih hmem)

theorem showsSeen_of_mem (h : List (Prog.Done Cmd Cmd.Answer)) : ∀ d ∈ h, ShowsSeen h d.1 d.2 := by
  rintro ⟨c, x⟩ hd
  cases c with
  | list k ns =>
    cases k with
    | pods =>
      cases x with
      | error err => trivial
      | ok pods => exact mem_seen hd
    | _ => trivial
  | _ => trivial

section

variable {h : List (Prog.Done Cmd Cmd.Answer)} {op : PodOp} {t : Texts} {vs : List PackageValidator}

theorem writesPods_of_reads {c : Cmd} (hc : c.Reads) : WritesPods op h c := by
  cases c with
  | put k ns name obj => cases hc
  | _ => trivial

theorem ensures_deploymentPass_billing : reconcileAll.Ensures (ShowsSeen h)
    (WritesPods .deploymentPass h) fun _ => True := by
  refine ensures_reconcileAll trivial fun deployments _ d _ => ?_
  refine (@ensures_reconcileOne d (Timeless h) (fun _ => True) fun _ => .inl rfl).mono
    (fun c x hx => ?_) (fun c hc => ?_) fun _ h => h
  · cases c with
    | list k ns =>
      cases k with
      | pods =>
        cases x with
        | error err => trivial
        | ok all => exact fun _ p hp _ => .inr (hx p hp)
      | _ => cases x <;> trivial
    | get k ns name => cases k <;> cases x <;> first | trivial | exact fun _ _ => trivial
    | _ => cases x <;> trivial
  · cases c with
    | put k ns name obj =>
      cases k with
      | pods => exact ⟨hc.1, hc.2.1⟩
      | _ => trivial
    | _ => trivial

theorem ensures_podPass_billing : PodReconciler.reconcileAll.Ensures (ShowsSeen h)
    (WritesPods .podPass h) fun _ => True := by
  have hs : Schedules "" Unassigned (ShowsSeen h) (WritesPods .podPass h)
      (fun p => Timeless h p.getMetadata) fun p => Timeless h p.getMetadata :=
    { reads := fun _ => writesPods_of_reads
      puts := fun _ hp => ⟨⟨rfl, rfl⟩, hp⟩
      lists := fun all hall p hp => .inr (hall p hp)
      assigns := fun p nodeName hp _ _ => by rwa [assign_metadata]
      marks := fun _ _ hp _ _ => hp }
  exact hs.ensures_podPass rfl fun _ h => h

/-- What is submitted is written as it was admitted, or not at all. -/
theorem along_submit {α : Type} {req₀ : Request} {f : Request × Option String → Reg α}
    (herr : ∀ req err, ∃ y, f (req, some err) = pure y)
    (hok : ∀ req, ∃ k ns name obj g, f (req, none) = Registry.put k ns name obj >>= g ∧
      (∀ x, ∃ y, g x = pure y) ∧ ∀ h, WritesPods op h (.put k ns name obj)) :
    (chainAdmit (packageChain t vs) req₀ >>= f).Along (WritesPods op) [] := by
  refine Ensures.along_bind (fun _ _ => writesPods_of_reads) (fun r h _ => ?_) []
    (reads_packageChain t vs _)
  obtain ⟨req, _ | err⟩ := r
  · obtain ⟨k, ns, name, obj, g, hput, hret, hw⟩ := hok req
    rw [hput]
    refine ⟨hw h, fun x => ?_⟩
    obtain ⟨y, hy⟩ := hret x
    change (g x).Along _ _
    rw [hy]
    trivial
  · obtain ⟨y, hy⟩ := herr req err
    rw [hy]
    trivial

/-- **What each operation writes of pods.** -/
theorem along_prog (op : PodOp) : (op.prog (packageChain t vs)).Along (WritesPods op) [] := by
  cases op with
  | createPod pod =>
    refine Along.bind (f := fun _ => pure ()) (fun _ _ => trivial) ?_
    rw [createPod]
    split
    · trivial
    · exact along_submit (fun _ _ => ⟨_, rfl⟩) fun req => ⟨_, _, _, _, _, rfl,
        fun x => by cases x <;> exact ⟨_, rfl⟩, fun _ => ⟨⟨rfl, rfl⟩, rfl⟩⟩
  | createDeployment d =>
    refine Along.bind (f := fun _ => pure ()) (fun _ _ => trivial) ?_
    rw [createDeployment]
    split
    · trivial
    · exact along_submit (fun _ _ => ⟨_, rfl⟩) fun req => ⟨_, _, _, _, _, rfl,
        fun x => by cases x <;> exact ⟨_, rfl⟩, fun _ => trivial⟩
  | deploymentPass =>
    exact along_of_ensures showsSeen_of_mem fun _ => ensures_deploymentPass_billing
  | podPass => exact along_of_ensures showsSeen_of_mem fun _ => ensures_podPass_billing

end

/-! ### Who made a pod, and when -/

/-- The store and the clock. -/
def storeClocked : Handler Cmd Cmd.Answer Timed := fun c => clocked (.reg c)

/-- A step of the operations. -/
abbrev BillingStep (ι : Type) := Prog.Event ι Cmd Cmd.Answer Timed

/-- It is `CreatePod`. -/
def PodOp.isCreatePod : PodOp → Bool
  | .createPod _ => true
  | .createDeployment _ | .deploymentPass | .podPass => false

variable {t₀ : Time} {labelKey : String} {p : Pod}

section

variable {ι : Type} [DecidableEq ι] (ops : ι → PodOp)

/-- The step makes a pod: it is of `CreatePod`, or the pod is not one that a pass has listed. -/
def Makes (path : String) (m : ObjectMeta) (tr : List (BillingStep ι)) (e : BillingStep ι) : Bool :=
  match e with
  | ⟨who, .put .pods ns name p, .ok (), _, _⟩ =>
    Registry.path ns name = path ∧ p.getMetadata = m ∧
      ((ops who).isCreatePod = true ∨ m ∉ seen (Prog.history who tr))
  | _ => false

/-- Who last made the pod with the metadata under the path, and when. -/
def made (path : String) (m : ObjectMeta) : List (BillingStep ι) → Option (ι × Time)
  | [] => none
  | e :: tr => if Makes ops path m tr e then some (e.who, e.post.now) else made path m tr

variable {ops} {tr : List (BillingStep ι)} {e : BillingStep ι} {path : String} {m : ObjectMeta}

/-- A step that makes a pod. -/
theorem request_of_makes (hm : Makes ops path m tr e = true)
    (hw : WritesPods (ops e.who) (Prog.history e.who tr) e.cmd) :
    (∃ pod, ops e.who = .createPod pod ∧ m = pod.getMetadata) ∨
      (ops e.who).isCreatePod = false ∧ m.createdAtUnix = 0 := by
  rw [Makes.eq_def] at hm
  split at hm
  · next who ns name p pre post =>
    obtain ⟨-, rfl, hmade⟩ := of_decide_eq_true hm
    have hw := hw.2
    split at hw
    · next pod hop => exact .inl ⟨pod, hop, hw⟩
    · cases hw
    · next hop =>
      rw [hop] at hmade ⊢
      exact .inr ⟨rfl, hw.resolve_right (hmade.resolve_left (by decide))⟩
    · next hop =>
      rw [hop] at hmade ⊢
      exact .inr ⟨rfl, hw.resolve_right (hmade.resolve_left (by decide))⟩
  · cases hm

/-- **A pod was requested, or has no time.** -/
theorem request_of_made
    (hall : EachStep (fun tr e => WritesPods (ops e.who) (Prog.history e.who tr) e.cmd) tr) {i : ι}
    (h : made ops path m tr = some (i, t₀)) :
    (∃ pod, ops i = .createPod pod ∧ m = pod.getMetadata) ∨
      (ops i).isCreatePod = false ∧ m.createdAtUnix = 0 := by
  induction tr with
  | nil => cases h
  | cons e tr ih =>
    rw [made] at h
    split at h
    · next hm => cases h; exact request_of_makes hm hall.1
    · exact ih hall.2 h

/-! ### Every pod has a maker -/

/-- The metadata is that of a pod that was there at the start. -/
def FromStart (s₀ : State) (m : ObjectMeta) : Prop :=
  ∃ path p, (s₀ .pods).lookup path = some p ∧ p.getMetadata = m

variable (ops) in
/-- **Who made a pod is known**, of those that are stored and those that were listed. -/
structure Recorded (s₀ : State) (tr : List (BillingStep ι)) (s : State) : Prop where
  stored : ∀ path p, (s .pods).lookup path = some p →
    Registry.path p.getMetadata.ns p.getMetadata.name = path ∧
      (made ops path p.getMetadata tr).isSome ∨ FromStart s₀ p.getMetadata
  listed : ∀ i, ∀ m ∈ seen (Prog.history i tr),
    (made ops (Registry.path m.ns m.name) m tr).isSome ∨ FromStart s₀ m

theorem Recorded.start (s₀ : State) : Recorded ops s₀ [] s₀ :=
  ⟨fun path p hp => .inr ⟨path, p, hp, rfl⟩, fun _ _ hm => absurd hm List.not_mem_nil⟩

theorem isSome_made_cons (h : (made ops path m tr).isSome) :
    (made ops path m (e :: tr)).isSome := by
  rw [made]
  split
  · rfl
  · exact h

/-- A pod is made, or put back. -/
theorem made_or_seen (i : ι) (ns name : String) (p : Pod) (pre post : Timed) :
    (made ops (Registry.path ns name) p.getMetadata
      (⟨i, .put .pods ns name p, .ok (), pre, post⟩ :: tr)).isSome ∨
        p.getMetadata ∈ seen (Prog.history i tr) := by
  by_cases hseen : p.getMetadata ∈ seen (Prog.history i tr)
  · exact .inr hseen
  · have hm : Makes ops (Registry.path ns name) p.getMetadata tr
        ⟨i, .put .pods ns name p, .ok (), pre, post⟩ = true :=
      decide_eq_true ⟨rfl, rfl, .inr hseen⟩
    rw [made, if_pos hm]
    exact .inl rfl

/-- **The makers stay known.** -/
theorem Recorded.step {s₀ : State} (hr : Recorded ops s₀ tr e.pre.store)
    (hH : storeClocked e.cmd e.pre e.answer e.post)
    (hw : WritesPods (ops e.who) (Prog.history e.who tr) e.cmd) :
    Recorded ops s₀ (e :: tr) e.post.store := by
  obtain ⟨i, c, x, pre, post⟩ := e
  constructor
  · intro path p hp
    rw [serveOrFail_post hH.2, lookup_effect] at hp
    cases hwr : c.writesAt .pods path x with
    | none =>
      rw [hwr] at hp
      exact (hr.stored path p hp).imp_left fun hk => ⟨hk.1, isSome_made_cons hk.2⟩
    | some v =>
      rw [hwr] at hp
      cases hp
      obtain ⟨ns, name, rfl, rfl⟩ := put_of_writesAt hwr
      obtain ⟨⟨rfl, rfl⟩, -⟩ := hw
      rcases x with err | u
      · cases hwr
      rcases made_or_seen i _ _ p pre post with hmade | hseen
      · exact .inl ⟨rfl, hmade⟩
      · -- A pod that is put back was listed, and those have a maker.
        exact (hr.listed i _ hseen).imp_left fun hs => ⟨rfl, isSome_made_cons hs⟩
  · intro j m hm
    have hold : m ∈ seen (Prog.history j tr) → (made ops (Registry.path m.ns m.name) m
        (⟨i, c, x, pre, post⟩ :: tr)).isSome ∨ FromStart s₀ m := fun hm =>
      (hr.listed j m hm).imp_left isSome_made_cons
    rw [Prog.history] at hm
    split at hm
    · rcases mem_seen_cons.mp hm with ⟨ns, pods, heq, p, hp, rfl⟩ | hm
      · cases heq
        obtain ⟨path, -, hl⟩ := (mem_of_list hH.2).mp hp
        refine (hr.stored path p hl).imp_left ?_
        rintro ⟨rfl, hs⟩
        exact isSome_made_cons hs
      · exact hold hm
    · exact hold hm

theorem recorded {t : Texts} {vs : List PackageValidator} {s₀ s : Timed} {Q : ι → Reg Unit}
    (h : Prog.Interleaves Prog.unguarded storeClocked (fun i => (ops i).prog (packageChain t vs)) s₀
      tr Q s) : Recorded ops s₀.store tr s.store :=
  h.invariant (I := fun tr _ s => Recorded ops s₀.store tr s.store) (Recorded.start _)
    fun _ _ _ _ _ _ _ _ hrun hr hQ hH _ =>
      hr.step hH
        (hrun.along_next (Φ := fun i => WritesPods (ops i)) (fun i => along_prog (ops i)) hQ)

/-! ### Bills -/

variable (ops) (model : CostModel)

/-- **Every pod is billed**: each that was made and requests something contributes to every report
on it from a second after it was made. -/
def Billed (tr : List (BillingStep ι)) (s : State) : Prop :=
  ∀ path p i t₀, (s .pods).lookup path = some p → made ops path p.getMetadata tr = some (i, t₀) →
    RequestsSome p → ∀ now, t₀ + 1000000000 ≤ now →
      ∀ ns labelKey pods s', Listed ns path → serveOrFail (.list .pods ns) s (.ok pods) s' →
        Contributes model labelKey now p pods

/-- Each pod that requests something was requested with a time that has come a second after, and its
requests come to something. -/
def Dated (tr : List (BillingStep ι)) (s : State) : Prop :=
  ∀ path p i t₀, (s .pods).lookup path = some p → made ops path p.getMetadata tr = some (i, t₀) →
    RequestsSome p → ∃ pod, ops i = .createPod pod ∧ 0 < pod.getMetadata.createdAtUnix ∧
      Time.ofUnix pod.getMetadata.createdAtUnix < t₀ + 1000000000 ∧ 0 < hourlyRate model p

variable {ops model}

/-- The reports that a pod contributes to. -/
theorem contributes_of_list {s s' : State} {now : Time} (hp : (s .pods).lookup path = some p)
    (hl : Listed ns path) (hlist : serveOrFail (.list .pods ns) s (.ok pods) s') :
    Contributes model labelKey now p pods ↔ 0 < charge model now p :=
  contributes_iff ((mem_of_list hlist).mpr ⟨path, hl, hp⟩)

/-- A pod that is billed has a time that has come a second after it was made. -/
theorem Billed.dated {s : State} {i : ι} (hb : Billed ops model tr s)
    (hp : (s .pods).lookup path = some p) (hmade : made ops path p.getMetadata tr = some (i, t₀))
    (hreq : RequestsSome p) : 0 < p.getMetadata.createdAtUnix ∧
      Time.ofUnix p.getMetadata.createdAtUnix < t₀ + 1000000000 ∧ 0 < hourlyRate model p := by
  obtain ⟨order, ho⟩ := Finmap.exists_isOrder (s.listing .pods "")
  have hlist : serveOrFail (.list .pods "") s (.ok (s.listed .pods "" order)) s :=
    .inl ⟨rfl, order, ho, rfl⟩
  have hc := hb path p i t₀ hp hmade hreq (t₀ + 1000000000) (le_refl _) "" "" _ _ (.inl rfl) hlist
  exact charge_pos_iff.mp ((contributes_of_list hp (.inl rfl) hlist).mp hc)

/-- **Every pod is billed exactly if each was requested with a time**; and who made it is known, of
each that was not there at the start. -/
theorem billed_iff {t : Texts} {vs : List PackageValidator} {s₀ s : Timed} {Q : ι → Reg Unit}
    (h : Prog.Interleaves Prog.unguarded storeClocked (fun i => (ops i).prog (packageChain t vs)) s₀
      tr Q s) :
    (∀ path p, (s.store .pods).lookup path = some p →
      (made ops path p.getMetadata tr).isSome ∨ FromStart s₀.store p.getMetadata) ∧
    (Billed ops model tr s.store ↔ Dated ops model tr s.store) := by
  have hall := h.each_along (Φ := fun i => WritesPods (ops i)) fun i => along_prog (ops i)
  refine ⟨fun path p hp => ((recorded h).stored path p hp).imp_left And.right, ?_, ?_⟩
  · intro hb path p i t₀ hp hmade hreq
    obtain ⟨hpos, hlt, hrate⟩ := hb.dated hp hmade hreq
    rcases request_of_made hall hmade with ⟨pod, hop, hm⟩ | ⟨-, hzero⟩
    · rw [hm] at hpos hlt
      exact ⟨pod, hop, hpos, hlt, hrate⟩
    · rw [hzero] at hpos
      exact absurd hpos (by decide)
  · intro hd path p i t₀ hp hmade hreq now hnow ns labelKey pods s' hl hlist
    obtain ⟨pod, hop, hpos, hlt, hrate⟩ := hd path p i t₀ hp hmade hreq
    rw [contributes_of_list hp hl hlist, charge_pos_iff]
    rcases request_of_made hall hmade with ⟨pod', hop', hm⟩ | ⟨hno, -⟩
    · cases hop.symm.trans hop'
      rw [hm]
      exact ⟨hpos, lt_of_lt_of_le hlt hnow, hrate⟩
    · rw [hop] at hno
      cases hno

/-- A pod without a time is not billed. -/
theorem not_billed {s : State} (hp : (s .pods).lookup path = some p)
    (hmade : (made ops path p.getMetadata tr).isSome) (hreq : RequestsSome p)
    (hzero : p.getMetadata.createdAtUnix = 0) : ¬ Billed ops model tr s := by
  intro hb
  obtain ⟨⟨i, t₀⟩, hmade⟩ := Option.isSome_iff_exists.mp hmade
  obtain ⟨hpos, -⟩ := hb.dated hp hmade hreq
  rw [hzero] at hpos
  exact absurd hpos (by decide)

end

/-! ### A pod that was requested, and one of a deployment -/

/-- What a store that never fails answers, while the clock stands still. -/
def resolveStore (c : Cmd) (order : List String) (s : Timed) : Option (c.Answer × Timed) :=
  resolveStill (.reg c) order s

theorem storeClocked_of_resolve (c : Cmd) (order : List String) (s : Timed) (x : c.Answer)
    (s' : Timed) (h : resolveStore c order s = some (x, s')) : storeClocked c s x s' :=
  clocked_of_resolveStill (.reg c) order s x s' h

/-- A container that requests a core. -/
def oneCore : Container :=
  { name := "c", resources := some { requests := some { cpuMillis := 1000 } } }

/-- A pod that is requested with a time of creation. -/
def batchPod (createdAtUnix : Int64) : Pod :=
  { metadata := some { name := "batch", ns := "default", createdAtUnix := createdAtUnix }
    spec := some { containers := [oneCore] } }

/-- A deployment of one pod. -/
def coreDeployment : Deployment :=
  { metadata := some { name := "core", ns := "default" }
    spec := some { replicas := 1, template := some { containers := [oneCore] } } }

/-- Who makes pods. -/
inductive Maker where
  | user
  | owner
  | controller
  deriving DecidableEq

def makerOps (createdAtUnix : Int64) : Maker → PodOp
  | .user => .createPod (batchPod createdAtUnix)
  | .owner => .createDeployment coreDeployment
  | .controller => .deploymentPass

def makerProgs (createdAtUnix : Int64) (i : Maker) : Reg Unit :=
  (makerOps createdAtUnix i).prog (packageChain ⟨id, fun _ => ""⟩ [])

/-- Nothing is stored, 10 seconds after 1970. -/
def tenSeconds : Timed := ⟨State.empty, 10000000000, by decide, by decide⟩

theorem hourlyRate_batchPod (createdAtUnix : Int64) :
    0 < hourlyRate defaultCostModel (batchPod createdAtUnix) := by
  have hcpu : (1000 : Int64).toInt = 1000 := by decide
  have hmem : (0 : Int64).toInt = 0 := by decide
  have hacc : (∅ : Dict String Int64).sum (fun _ _ => (0 : ℚ)) = 0 := rfl
  norm_num [hourlyRate, containerRate, batchPod, Pod.getSpec, oneCore, Container.requests,
    defaultCostModel, hcpu, hmem, hacc]

/-- The pod is requested with the time 5, and is billed. -/
theorem billed_iff_batch :
    ∃ tr Q s, Prog.Interleaves Prog.unguarded storeClocked (makerProgs 5) tenSeconds tr Q s ∧
      (s.store .pods).lookup "default/batch" = some (batchPod 5) ∧
      Dated (makerOps 5) defaultCostModel tr s.store ∧
      ((∀ path p, (s.store .pods).lookup path = some p →
        (made (makerOps 5) path p.getMetadata tr).isSome ∨
          FromStart tenSeconds.store p.getMetadata) ∧
        (Billed (makerOps 5) defaultCostModel tr s.store ↔
          Dated (makerOps 5) defaultCostModel tr s.store)) := by
  obtain ⟨tr, Q, s, h, hkeys, hpod, hmade⟩ := exists_of_play (G := Prog.unguarded)
    (P := makerProgs 5) (s := tenSeconds)
    (T := fun r => (r.state.store .pods).keys = {"default/batch"} ∧
      (r.state.store .pods).lookup "default/batch" = some (batchPod 5) ∧
      made (makerOps 5) "default/batch" (batchPod 5).getMetadata r.trace =
        some (.user, 10000000000))
    storeClocked_of_resolve [(.user, [])] (by decide +kernel)
  refine ⟨tr, Q, s, h, hpod, fun path p i t₀ hp hm _ => ?_, billed_iff h⟩
  have hpath : path = "default/batch" := by
    rw [← Finset.mem_singleton, ← hkeys, Finmap.mem_keys]
    exact Finmap.mem_of_lookup_eq_some hp
  subst hpath
  cases hpod.symm.trans hp
  cases hmade.symm.trans hm
  exact ⟨batchPod 5, rfl, by decide, by decide, hourlyRate_batchPod 5⟩

/-- **A pod of a deployment is not billed**, and neither is one that is requested without a time. -/
theorem pods_unbilled :
    ∃ tr Q s, Prog.Interleaves Prog.unguarded storeClocked (makerProgs 0) tenSeconds tr Q s ∧
      (∀ path ∈ ["default/batch", "default/core-0"], ∃ p ∈ (s.store .pods).lookup path,
        (made (makerOps 0) path p.getMetadata tr).isSome ∧ RequestsSome p ∧
          p.getMetadata.createdAtUnix = 0) ∧
      ¬ Billed (makerOps 0) defaultCostModel tr s.store := by
  obtain ⟨tr, Q, s, h, hT⟩ := exists_of_play (G := Prog.unguarded) (P := makerProgs 0)
    (s := tenSeconds)
    (T := fun r => ∀ path ∈ ["default/batch", "default/core-0"],
      ∃ p ∈ (r.state.store .pods).lookup path,
        (made (makerOps 0) path p.getMetadata r.trace).isSome ∧ RequestsSome p ∧
          p.getMetadata.createdAtUnix = 0)
    storeClocked_of_resolve
    [(.user, []), (.owner, []), (.controller, ["default/core"]), (.controller, ["default/batch"]),
      (.controller, [])] (by decide +kernel)
  obtain ⟨p, hp, hmade, hreq, hzero⟩ := hT "default/core-0" (by simp)
  exact ⟨tr, Q, s, h, hT, not_billed hp hmade hreq hzero⟩

end NimbusCore.Cluster
