import NimbusCore.Controller.Autoscaler
import NimbusCore.Controller.Contract
import NimbusCore.Dashboard.Dashboard
import NimbusCore.Support.Interleaving

/-!
# Controller — three writers of one deployment

The deployment controller writes the status of a deployment, the autoscaler and the dashboard write
its replica count.  Each of them fetches the stored object, changes its part and puts the whole
object back, so a put undoes what was put between the fetch and itself.

Any number of the three run against one deployment, interleaved command by command (`ReplicaOp`),
over a store that may fail at any command.

* `replica_change_kept`: when no replica count is written between a fetch of the deployment
  controller and its put (`Settled`), the stored count is always the last one written, and no status
  update changes the spec.
* `status_restores_replicas`: otherwise a status update brings an older count back.
-/

namespace NimbusCore.Controller

open Api Registry Admission Apiserver Dashboard Prog

/-! ### The writers -/

/-- A run of one of the three writers. -/
inductive ReplicaOp where
  | reconcile (d : Deployment)
  | autoscale (d : Deployment)
  | scale (body : Except String ScaleDeploymentRequest)

namespace ReplicaOp

/-- What it runs. -/
def prog (target : HorizontalAutoscaler.Target) (validators : List Validator) : ReplicaOp → Reg Unit
  | .reconcile d => reconcileOne d
  | .autoscale d => HorizontalAutoscaler.reconcileOne target d
  | .scale body => do
    let _ ← handleScaleDeployment validators body
    return ()

/-- It is about the deployment at `K`. -/
def On (K : String) : ReplicaOp → Prop
  | .reconcile d | .autoscale d => path d.getMetadata.ns d.getMetadata.name = K
  | .scale body => ∀ req, body = .ok req → path req.namespaceOf req.name = K

/-- It writes the replica count. -/
def Scales : ReplicaOp → Bool
  | .reconcile _ => false
  | .autoscale _ | .scale _ => true

end ReplicaOp

/-! ### What is stored, and what is written -/

/-- The spec of the deployment at `K`. -/
def specAt (K : String) (t : State) : Option (Option DeploymentSpec) :=
  ((t .deployments).lookup K).map Deployment.spec

/-- The replica count of the deployment at `K`. -/
def replicasAt (K : String) (t : State) : Option Int32 :=
  (specAt K t).map fun spec => (spec.getD {}).replicas

/-- The deployment that a call has put at `K`. -/
def putAt (K : String) (c : Cmd) (x : c.Answer) : Option Deployment :=
  (c.writesAt .deployments K x).join

/-- The spec that a call has fetched from `K`. -/
def fetchedAt (K : String) : (c : Cmd) → c.Answer → Option (Option (Option DeploymentSpec))
  | .get .deployments ns name, .ok d => if path ns name = K then some (some d.spec) else none
  | _, _ => none

section

variable {ι : Type} (ops : ι → ReplicaOp) (K : String)

/-- A step of the writers. -/
abbrev Step (ι : Type) := Prog.Event ι Cmd Cmd.Answer State

/-- The step writes the replica count. -/
def ScaleWrite (e : Step ι) : Prop := (ops e.who).Scales ∧ (putAt K e.cmd e.answer).isSome

/-- The step is a status update. -/
def StatusUpdate (e : Step ι) : Prop := ¬ (ops e.who).Scales ∧ (putAt K e.cmd e.answer).isSome

/-- The last replica count that was written. -/
def lastScaleWrite : List (Step ι) → Option Int32
  | [] => none
  | e :: tr =>
    if (ops e.who).Scales then
      ((putAt K e.cmd e.answer).map fun d => d.getSpec.replicas).or (lastScaleWrite tr)
    else lastScaleWrite tr

instance : DecidablePred (ScaleWrite ops K) := fun _ => inferInstanceAs (Decidable (_ ∧ _))

instance : DecidablePred (StatusUpdate ops K) := fun _ => inferInstanceAs (Decidable (_ ∧ _))

/-- **No replica count is written between a fetch of the deployment controller and its put.** -/
def Settled [DecidableEq ι] : Prog.Guard ι Cmd Cmd.Answer Stop Unit State := fun tr _ e =>
  StatusUpdate ops K e → Prog.Undisturbed (Prog.Shows (fetchedAt K) e.who) (ScaleWrite ops K) tr

instance [DecidableEq ι] (tr : List (Step ι)) (Q : ι → Reg Unit) (e : Step ι) :
    Decidable (Settled ops K tr Q e) :=
  inferInstanceAs (Decidable (_ → _))

end

/-! ### Names -/

variable {c : Cmd} {d : Deployment} {t t' : State} {validators : List Validator} {op : ReplicaOp}
  {x : c.Answer} {k : Kind}

section

variable {K : String}

/-- What is fetched from `K` is named so. -/
def Named (K : String) : (c : Cmd) → c.Answer → Prop
  | .get .deployments ns name, .ok d =>
    path ns name = K → path d.getMetadata.ns d.getMetadata.name = K
  | _, _ => True

/-- Deployments are put at `K` only, named so, and none is deleted. -/
def PutsNamed (K : String) : Cmd → Prop
  | .put .deployments ns name d =>
    path ns name = K ∧ path d.getMetadata.ns d.getMetadata.name = K
  | .delete .deployments _ _ => False
  | _ => True

theorem putsNamed_of_reads (h : c.Reads) : PutsNamed K c := by
  cases c with
  | get k ns name => trivial
  | list k ns => trivial
  | put k ns name obj => cases h
  | delete k ns name => cases h

theorem ReadsOnly.putsNamed {α : Type} {p : Reg α} (h : ReadsOnly p) :
    p.Ensures (Named K) (PutsNamed K) fun _ => True :=
  Within.ensures (Within.weaken (fun _ hc => putsNamed_of_reads hc) (fun _ he => he) h)

theorem putsNamed_reconcileOne (hd : path d.getMetadata.ns d.getMetadata.name = K) :
    (reconcileOne d).Ensures (Named K) (PutsNamed K) fun _ => True := by
  refine Ensures.mono (fun c x hx => ?_) (fun c hc => ?_) (fun _ h => h)
    (@ensures_reconcileOne d (fun _ => True)
      (fun cur => path cur.getMetadata.ns cur.getMetadata.name = K) fun _ => trivial)
  · -- what the pass relies on
    rcases c with ⟨k, ns, name⟩ | _ | _ | ⟨k, ns⟩
    · cases k <;> cases x <;> try trivial
      rintro rfl rfl
      exact hx hd
    · trivial
    · trivial
    · cases k <;> cases x <;> try trivial
      exact fun _ _ _ _ => trivial
  · -- what it issues
    rcases c with _ | ⟨k, ns, name, obj⟩ | ⟨k, ns, name⟩ | _
    · trivial
    · cases k <;> try trivial
      obtain ⟨⟨rfl, rfl⟩, cur, status, hcur, rfl⟩ := hc
      exact ⟨hcur, hcur⟩
    · cases k <;> trivial
    · trivial

theorem putsNamed_orReturn {α : Type} {Φ : α → Prop} {text : String} {r : Except RegistryError α}
    (h : ∀ a, r = .ok a → Φ a) : (orReturn text r).Ensures (Named K) (PutsNamed K) Φ := by
  cases r with
  | error e => trivial
  | ok a => exact h a rfl

theorem readsOnly_capToClusterCapacity (d : Deployment) (currentReplicas desired : Int32) :
    ReadsOnly (HorizontalAutoscaler.capToClusterCapacity d currentReplicas desired) := by
  refine Within.bind readsOnly_computeNodeUsage fun _ => ?_
  refine Within.bind readsOnly_orReturn fun usage => ?_
  refine Within.bind ?_ fun _ => Within.bind readsOnly_orReturn fun capacity => ?_
  · refine Within.bind readsOnly_list fun r => ?_
    rcases r with _ | _ <;> trivial
  · dsimp only
    split <;> trivial

theorem putsNamed_writeReplicas
    (hd : path d.getMetadata.ns d.getMetadata.name = K) (desired : Int32) :
    (HorizontalAutoscaler.writeReplicas d desired).Ensures (Named K) (PutsNamed K)
      fun _ => True := by
  refine Ensures.bind_ok (ensures_asked trivial) fun cur hr => ?_
  have hcur : path cur.getMetadata.ns cur.getMetadata.name = K := hr hd
  rw [orReturn_ok_bind]
  cases hs : cur.spec with
  | none => trivial
  | some spec =>
    refine ensures_ask_bind.mpr ⟨⟨hcur, hcur⟩, fun r _ => ?_⟩
    exact putsNamed_orReturn fun _ _ => trivial

theorem putsNamed_scaleTo
    (hd : path d.getMetadata.ns d.getMetadata.name = K) (current desired : Int32) :
    (HorizontalAutoscaler.scaleTo d current desired).Ensures (Named K) (PutsNamed K)
      fun _ => True := by
  have hput : ∀ desired, (if desired = d.getSpec.replicas then pure () else
      HorizontalAutoscaler.writeReplicas d desired : Reg Unit).Ensures (Named K)
        (PutsNamed K) fun _ => True := by
    intro desired
    split
    · trivial
    · exact putsNamed_writeReplicas hd desired
  have hcap := ReadsOnly.putsNamed (K := K) (readsOnly_capToClusterCapacity d current desired)
  simp only [HorizontalAutoscaler.scaleTo]
  split
  · exact Ensures.bind hcap.mapStop fun desired _ => hput desired
  · exact hput desired

theorem putsNamed_autoscale (target : HorizontalAutoscaler.Target)
    (hd : path d.getMetadata.ns d.getMetadata.name = K) :
    (HorizontalAutoscaler.reconcileOne target d).Ensures (Named K) (PutsNamed K)
      fun _ => True := by
  simp only [HorizontalAutoscaler.reconcileOne]
  split
  · trivial
  · split
    · trivial
    · split
      · trivial
      · refine ensures_ask_bind.mpr ⟨trivial, fun r _ => ?_⟩
        refine Ensures.bind (Φ := fun _ => True) (putsNamed_orReturn fun _ _ => trivial)
          fun all _ => ?_
        simp only [HorizontalAutoscaler.reconcileListed]
        split
        · trivial
        · simp only [putsNamed_scaleTo hd]

/-- Validators that only read. -/
def ReadingValidators (validators : List Validator) : Prop :=
  ∀ v ∈ validators, ∀ req, (v req).Within Cmd.Reads fun _ => True

theorem putsNamed_admitLoop : ∀ {validators : List Validator}, ReadingValidators validators →
    ∀ req, (admitLoop validators req).Ensures (Named K) (PutsNamed K) fun _ => True
  | [], _, _ => trivial
  | v :: vs, h, req => by
    obtain ⟨hv, hvs⟩ := List.forall_mem_cons.mp h
    refine Ensures.bind (Φ := fun _ => True) (Within.ensures (Within.weaken
      (fun _ hc => putsNamed_of_reads hc) (fun _ he => he) (hv req))) fun r _ => ?_
    rcases r with ⟨req', _ | err⟩
    · exact putsNamed_admitLoop hvs req'
    · trivial

theorem putsNamed_scale (hv : ReadingValidators validators)
    {body : Except String ScaleDeploymentRequest} (hb : (ReplicaOp.scale body).On K) :
    (handleScaleDeployment validators body).Ensures (Named K) (PutsNamed K) fun _ => True := by
  have hcreate : ∀ d : Deployment, path d.getMetadata.ns d.getMetadata.name = K →
      (createDeployment validators d).Ensures (Named K) (PutsNamed K) fun _ => True := by
    intro d hd
    simp only [createDeployment]
    split
    · trivial
    · refine Ensures.bind (putsNamed_admitLoop hv _) fun r _ => ?_
      rcases r with ⟨req, _ | err⟩
      · refine ensures_ask_bind.mpr ⟨⟨hd, hd⟩, fun r _ => ?_⟩
        rcases r with _ | _ <;> trivial
      · trivial
  rcases body with err | req
  · trivial
  simp only [handleScaleDeployment]
  split
  · trivial
  · split
    · trivial
    · refine Ensures.bind (Φ := fun r => ∀ cur, r = .ok cur →
        path cur.getMetadata.ns cur.getMetadata.name = K) ?_ fun r hr => ?_
      · refine ensures_ask_bind.mpr ⟨trivial, fun r hr => ?_⟩
        cases r with
        | error err => intro cur hcur; cases hcur
        | ok d => intro cur hcur; cases hcur; exact hr (hb req rfl)
      · rcases r with err | cur
        · trivial
        dsimp only
        split
        · trivial
        · cases cur.spec with
          | none => trivial
          | some spec =>
            refine Ensures.bind (hcreate _ (hr cur rfl)) fun r _ => ?_
            rcases r with _ | _ <;> trivial

theorem putsNamed_prog (target : HorizontalAutoscaler.Target)
    (hv : ReadingValidators validators) (hop : op.On K) :
    (op.prog target validators).Ensures (Named K) (PutsNamed K) fun _ => True := by
  cases op with
  | reconcile d => exact putsNamed_reconcileOne hop
  | autoscale d => exact putsNamed_autoscale target hop
  | scale body => exact Ensures.bind (putsNamed_scale hv hop) fun _ _ => trivial

/-- The deployment at `K`, if it is stored, is named so. -/
def NamedAt (K : String) (t : State) : Prop :=
  ∀ d, (t .deployments).lookup K = some d → path d.getMetadata.ns d.getMetadata.name = K

theorem put_of_putAt (h : putAt K c x = some d) :
    ∃ ns name, path ns name = K ∧ c = .put .deployments ns name d :=
  put_of_writesAt (Option.join_eq_some_iff.mp h)

/-- A call that does not delete leaves at `K` what it puts there, or what there was. -/
theorem lookup_putAt (hc : PutsNamed K c) (x : c.Answer) (t : State) :
    ((c.effect x t) .deployments).lookup K =
      (putAt K c x).or ((t .deployments).lookup K) := by
  rw [lookup_effect, putAt]
  rcases hw : c.writesAt .deployments K x with _ | _ | d
  · rfl
  · obtain ⟨ns, name, -, rfl⟩ := delete_of_writesAt hw
    exact absurd hc id
  · rfl

theorem named_of_namedAt (ht : NamedAt K t) (h : serveOrFail c t x t') : Named K c x := by
  rcases c with ⟨k, ns, name⟩ | _ | _ | _
  · cases k <;> cases x <;> try trivial
    rintro rfl
    exact ht _ (lookup_of_get h)
  · trivial
  · trivial
  · trivial

theorem NamedAt.step (ht : NamedAt K t)
    (hc : PutsNamed K c) (h : serveOrFail c t x t') : NamedAt K t' := by
  intro d hd
  rw [serveOrFail_post h, lookup_putAt hc, Option.or_eq_some_iff] at hd
  rcases hd with hd | ⟨-, hd⟩
  · obtain ⟨ns, name, -, rfl⟩ := put_of_putAt hd
    exact hc.2
  · exact ht d hd

/-! ### A status update writes what was fetched -/

/-- A deployment is put with the spec that was last fetched from `K`. -/
def PutsFetched (K : String) (h : List (Prog.Done Cmd Cmd.Answer)) : Cmd → Prop
  | .put .deployments _ _ d => Prog.lastSeen (fetchedAt K) h = some (some d.spec)
  | _ => True

theorem putsFetched_of_onlyWrites (hk : k ≠ .deployments)
    (h : List (Prog.Done Cmd Cmd.Answer)) (hc : c.OnlyWrites k) : PutsFetched K h c := by
  rcases c with _ | ⟨k', ns, name, obj⟩ | _ | _
  · trivial
  · obtain rfl := hc k' rfl
    cases k' <;> trivial
  · trivial
  · trivial

/-- A part that writes another kind may stand anywhere. -/
theorem along_onlyWrites_bind {α β : Type} (hk : k ≠ .deployments) {Q : Stop → Prop} {p : Reg α}
    (hp : p.Within (Cmd.OnlyWrites k) Q) {f : α → Reg β} (hf : ∀ a h, (f a).Along (PutsFetched K) h)
    (h : List (Prog.Done Cmd Cmd.Answer)) : (p >>= f).Along (PutsFetched K) h :=
  Ensures.along_bind (Φ := PutsFetched K) (fun h _ hc => putsFetched_of_onlyWrites hk h hc)
    (fun a h _ => hf a h) h hp.ensures

/-- **What a status update puts has the spec that it has fetched.** -/
theorem along_reconcileOne (hd : path d.getMetadata.ns d.getMetadata.name = K)
    (h : List (Prog.Done Cmd Cmd.Answer)) : (reconcileOne d).Along (PutsFetched K) h := by
  refine along_onlyWrites_bind (k := .pods) (by decide) (quiet_ownedPods d).wrap
    (fun owned h => ?_) h
  refine along_onlyWrites_bind (by decide) (onlyWrites_scale d owned) (fun _ h => ?_) h
  refine along_onlyWrites_bind (k := .pods) (by decide) (quiet_ownedPods d).wrap
    (fun owned h => ?_) h
  refine along_onlyWrites_bind (by decide) (quiet_scheduleUnassigned owned) (fun r h => ?_) h
  refine along_onlyWrites_bind (by decide) (claimVolumes_inBounds d r.1) (fun _ h => ?_) h
  refine along_ask_bind.mpr ⟨trivial, fun x => ?_⟩
  rcases x with e | cur
  · trivial
  rw [orReturn_ok_bind]
  refine along_ask_bind.mpr ⟨?_, fun x => ?_⟩
  · simp [PutsFetched, Prog.lastSeen, fetchedAt, hd]
  · cases x <;> trivial

/-! ### The interleavings -/

section

variable {ι : Type} [DecidableEq ι] {ops : ι → ReplicaOp} {target : HorizontalAutoscaler.Target}
  {validators : List Validator} {s : State}

theorem along_prog (hop : op.On K) :
    (op.prog target validators).Along (fun h c => op.Scales = false → PutsFetched K h c) [] := by
  cases op with
  | reconcile d => exact Along.mono (fun _ _ h _ => h) (along_reconcileOne hop [])
  | autoscale d | scale body => exact along_of_forall (fun _ _ h => by cases h) _ _

/-- What is fetched from `K` is there. -/
theorem specAt_of_fetched (h : serveOrFail c t x t')
    {v : Option (Option DeploymentSpec)} (hv : fetchedAt K c x = some v) : specAt K t' = v := by
  rcases c with ⟨k, ns, name⟩ | _ | _ | _ <;> try cases hv
  cases k <;> cases x <;> try cases hv
  simp only [fetchedAt] at hv
  split at hv
  · next hp =>
    cases hv
    have hl := lookup_of_get h
    have ht := serveOrFail_post h
    simp only [Cmd.effect] at ht
    rw [specAt, ht, ← hp, hl]
    rfl
  · cases hv

theorem lastSeen_of_putAt (hd : putAt K c x = some d) {h : List (Prog.Done Cmd Cmd.Answer)}
    (hc : PutsFetched K h c) : Prog.lastSeen (fetchedAt K) h = some (some d.spec) := by
  obtain ⟨ns, name, -, rfl⟩ := put_of_putAt hd
  exact hc

/-- What holds along the run: a writer of the status knows the spec it has fetched, the count is the
last one written, and no status update has changed the spec. -/
structure Kept (ops : ι → ReplicaOp) (K : String) (s : State) (tr : List (Step ι)) (t : State) :
    Prop where
  knows : ∀ i, (ops i).Scales = false →
    Prog.Knows (fun v t => specAt K t = v) (fetchedAt K) (ScaleWrite ops K) i tr t
  count : replicasAt K t = (lastScaleWrite ops K tr).or (replicasAt K s)
  spec : ∀ e ∈ tr, StatusUpdate ops K e → specAt K e.post = specAt K e.pre

/-- **One step.** -/
theorem Kept.step {tr : List (Step ι)} {e : Step ι} (hk : Kept ops K s tr e.pre)
    (he : serveOrFail e.cmd e.pre e.answer e.post) (hc : PutsNamed K e.cmd)
    (hf : (ops e.who).Scales = false → PutsFetched K (Prog.history e.who tr) e.cmd)
    (hg : StatusUpdate ops K e →
      Prog.Undisturbed (Prog.Shows (fetchedAt K) e.who) (ScaleWrite ops K) tr) :
    Kept ops K s (e :: tr) e.post := by
  have hpost : specAt K e.post =
      ((putAt K e.cmd e.answer).map Deployment.spec).or (specAt K e.pre) := by
    rw [serveOrFail_post he, specAt, lookup_putAt hc, specAt]
    cases putAt K e.cmd e.answer <;> rfl
  -- a status update puts the spec that is there
  have hstatus : StatusUpdate ops K e → specAt K e.post = specAt K e.pre := by
    intro hs
    have hn : (ops e.who).Scales = false := by simpa using hs.1
    obtain ⟨d, hd⟩ := Option.isSome_iff_exists.mp hs.2
    have hpre := hk.knows e.who hn (hg hs) _ (lastSeen_of_putAt hd (hf hn))
    rw [hpost, hd, hpre]
    rfl
  have hother : ¬ ScaleWrite ops K e → specAt K e.post = specAt K e.pre := by
    intro hw
    by_cases hp : (putAt K e.cmd e.answer).isSome
    · exact hstatus ⟨fun hs => hw ⟨hs, hp⟩, hp⟩
    · rw [hpost, Option.not_isSome_iff_eq_none.mp hp]
      rfl
  refine ⟨fun i hi => (hk.knows i hi).step (fun v hv => specAt_of_fetched he hv)
    fun hw v hv => (hother hw).trans hv, ?_, ?_⟩
  · by_cases hs : (ops e.who).Scales
    · rw [lastScaleWrite, if_pos hs, replicasAt, hpost]
      cases putAt K e.cmd e.answer with
      | none => exact hk.count
      | some d => rfl
    · rw [lastScaleWrite, if_neg hs, replicasAt, hother fun hw => hs hw.1]
      exact hk.count
  · intro e' he'
    rcases List.mem_cons.mp he' with rfl | he'
    · exact hstatus
    · exact hk.spec e' he'

/-- **No replica change is lost**, and no status update changes the spec, when no replica count is
written between a fetch of the deployment controller and its put.  The validators of the dashboard's
requests write nothing, and the deployment is stored under its own name. -/
theorem replica_change_kept (hv : ReadingValidators validators) (hops : ∀ i, (ops i).On K)
    (hs : NamedAt K s) {tr : List (Step ι)} {Q : ι → Reg Unit} {t : State}
    (h : Prog.Interleaves (Settled ops K) serveOrFail (fun i => (ops i).prog target validators) s
      tr Q t) :
    replicasAt K t = (lastScaleWrite ops K tr).or (replicasAt K s) ∧
      ∀ e ∈ tr, StatusUpdate ops K e → specAt K e.post = specAt K e.pre := by
  have hk : Kept ops K s tr t := by
    refine h.invariant (I := fun tr _ t => Kept ops K s tr t)
      ⟨fun i _ => Prog.knows_nil, rfl, fun e he => by cases he⟩ ?_
    intro tr Q t i c k x t' h hk hQ hH hG
    obtain ⟨-, hens⟩ := h.ensures (I := NamedAt K) (fun c t x t' ht hH => named_of_namedAt ht hH)
      (fun i c hc t x t' ht hH => ht.step hc hH) (fun i => putsNamed_prog target hv (hops i)) hs
    have hc := hens i
    rw [hQ] at hc
    exact hk.step hH hc.1 (h.along_next (fun i => along_prog (hops i)) hQ) hG
  exact ⟨hk.count, hk.spec⟩

end

end

/-! ### A status update in the way -/

/-- One run of each writer. -/
inductive Writer where
  | controller
  | autoscaler
  | dashboard
  deriving DecidableEq

/-- A deployment that is not scaled automatically. -/
def plainWeb (replicas : Int32) : Deployment :=
  { metadata := some { name := "web", ns := "default" }
    spec := some { replicas := replicas } }

/-- The deployment is listed with no replicas, and the dashboard asks for three. -/
def threeWriters : Writer → ReplicaOp
  | .controller => .reconcile (plainWeb 0)
  | .autoscaler => .autoscale (plainWeb 0)
  | .dashboard => .scale (.ok ⟨"default", "web", 3⟩)

/-- The deployment alone. -/
def onlyWeb : State := State.empty.set .deployments (Finmap.singleton "default/web" (plainWeb 0))

/-- The target of the deployment is what it has. -/
def keepTarget : HorizontalAutoscaler.Target := fun current _ _ => current

theorem threeWriters_on (i : Writer) : (threeWriters i).On "default/web" := by
  cases i with
  | controller => rfl
  | autoscaler => rfl
  | dashboard => rintro _ ⟨⟩; rfl

theorem namedAt_onlyWeb : NamedAt "default/web" onlyWeb := by
  intro d hd
  rw [onlyWeb, State.set_self, Finmap.lookup_singleton_iff] at hd
  rw [hd.2]
  rfl

/-- The dashboard scales, and then the controller has its pass. -/
def oneByOne : List (Writer × List String) :=
  [(.dashboard, []), (.dashboard, []), (.controller, []), (.controller, []), (.controller, []),
    (.controller, [])]

theorem replica_change_kept_sample :
    ∃ tr Q t, Prog.Interleaves (Settled threeWriters "default/web") serveOrFail
        (fun i => (threeWriters i).prog keepTarget []) onlyWeb tr Q t ∧
      ((Q .controller).result = some () ∧ (Q .dashboard).result = some ()) ∧
      lastScaleWrite threeWriters "default/web" tr = some 3 ∧
      replicasAt "default/web" t = some 3 := by
  obtain ⟨tr, Q, t, h, hQ, hlast⟩ := exists_of_play (G := Settled threeWriters "default/web")
    (P := fun i => (threeWriters i).prog keepTarget []) (s := onlyWeb)
    (T := fun r => ((r.progs .controller).result = some () ∧
        (r.progs .dashboard).result = some ()) ∧
      lastScaleWrite threeWriters "default/web" r.trace = some 3)
    serveOrFail_of_resolve oneByOne (by decide)
  have hv : ReadingValidators [] := fun _ hv => by cases hv
  have hkept := replica_change_kept hv threeWriters_on namedAt_onlyWeb h
  exact ⟨tr, Q, t, h, hQ, hlast, by rw [hkept.1, hlast]; rfl⟩

/-- The dashboard scales between the fetch of the controller and its put. -/
def intoTheGap : List (Writer × List String) :=
  [(.controller, []), (.controller, []), (.controller, []), (.dashboard, []), (.dashboard, []),
    (.controller, [])]

/-- **A status update brings an older count back.**  All three writers return, the last count
written is three, and none is stored. -/
theorem status_restores_replicas :
    (∀ i, (threeWriters i).On "default/web") ∧ NamedAt "default/web" onlyWeb ∧
    ∃ tr Q t, Prog.Interleaves Prog.unguarded serveOrFail
        (fun i => (threeWriters i).prog keepTarget []) onlyWeb tr Q t ∧
      ((Q .controller).result = some () ∧ (Q .autoscaler).result = some () ∧
        (Q .dashboard).result = some ()) ∧
      lastScaleWrite threeWriters "default/web" tr = some 3 ∧
      replicasAt "default/web" t = some 0 :=
  ⟨threeWriters_on, namedAt_onlyWeb,
    exists_of_play (T := fun r => ((r.progs .controller).result = some () ∧
        (r.progs .autoscaler).result = some () ∧ (r.progs .dashboard).result = some ()) ∧
      lastScaleWrite threeWriters "default/web" r.trace = some 3 ∧
      replicasAt "default/web" r.state = some 0)
    serveOrFail_of_resolve intoTheGap (by decide)⟩

end NimbusCore.Controller
