import NimbusCore.Apiserver.Pods
import NimbusCore.Controller.Deployment
import NimbusCore.Support.Interleaving

/-!
# Apiserver — status reports among the other writers of a pod

The agents report the status of a pod by `UpdatePodStatus`, which puts back the whole pod it has
fetched.  Beside them a pod is created and deleted by its users, scheduled by the controllers, and
evicted by the deployment controller.  Any number of these run interleaved, command by command, over
a store that may fail at any command (`PodOp`).

* `reports_change_status_only`: when no other operation writes a pod between the fetch of a report
  and its put (`Unreplaced`), every pod is there, with its metadata and its spec, as the other
  operations alone have left it (`othersAlone`).
* `report_revives_pod`: otherwise a report brings a deleted pod back.
-/

namespace NimbusCore.Apiserver

open Api Registry Admission Scheduler Prog

/-! ### The operations -/

/-- An operation on pods. -/
inductive PodOp where
  | report (peer : Option String) (req : UpdatePodStatusRequest)
  | create (pod : Pod)
  | delete (ns name : String)
  | schedule (candidates : List NodeCandidate) (p : Pod)
  | evict (d : Deployment)

namespace PodOp

/-- What it runs.  The evictions of the deployment controller are those of `ownedPods`. -/
def prog (quote : String → String) (validators : List Validator) : PodOp → Reg Unit
  | .report peer req => do
    let _ ← updatePodStatus quote peer req
    return ()
  | .create pod => do
    let _ ← createPod validators pod
    return ()
  | .delete ns name => do
    let _ ← deletePod ns name
    return ()
  | .schedule candidates p => do
    let _ ← Controller.schedulePod candidates p
    return ()
  | .evict d => do
    let _ ← Controller.ownedPods d
    return ()

/-- It is a status report. -/
def Reports : PodOp → Bool
  | .report _ _ => true
  | .create _ | .delete _ _ | .schedule _ _ | .evict _ => false

end PodOp

/-! ### What is stored, and what is written -/

/-- All of a pod but its status. -/
def shapeOf (p : Pod) : Option ObjectMeta × Option PodSpec := (p.metadata, p.spec)

/-- Whether there is a pod at `K`, its metadata and its spec. -/
def shapeAt (K : String) (t : State) : Option (Option ObjectMeta × Option PodSpec) :=
  ((t .pods).lookup K).map shapeOf

/-- The path at which a call has written a pod. -/
def podWritten : (c : Cmd) → c.Answer → Option String
  | .put .pods ns name _, .ok () | .delete .pods ns name, .ok () => some (path ns name)
  | _, _ => none

/-- What a call has fetched from `K`. -/
def fetchedPod (K : String) :
    (c : Cmd) → c.Answer → Option (Option (Option ObjectMeta × Option PodSpec))
  | .get .pods ns name, .ok p => if path ns name = K then some (some (shapeOf p)) else none
  | _, _ => none

/-- A step of the operations. -/
abbrev PodStep (ι : Type) := Prog.Event ι Cmd Cmd.Answer State

section

variable {ι : Type} (ops : ι → PodOp)

/-- The step is not of a report, and writes at `K`. -/
def OtherWrite (K : String) (e : PodStep ι) : Prop :=
  (ops e.who).Reports = false ∧ K ∈ podWritten e.cmd e.answer

instance (K : String) : DecidablePred (OtherWrite ops K) :=
  fun _ => inferInstanceAs (Decidable (_ ∧ _))

/-- **No other operation writes a pod between the fetch of a report and its put.** -/
def Unreplaced [DecidableEq ι] : Prog.Guard ι Cmd Cmd.Answer Stop Unit State := fun tr _ e =>
  (ops e.who).Reports = true → ∀ K ∈ podWritten e.cmd e.answer,
    Prog.Undisturbed (Prog.Shows (fetchedPod K) e.who) (OtherWrite ops K) tr

instance [DecidableEq ι] (tr : List (PodStep ι)) (Q : ι → Reg Unit) (e : PodStep ι) :
    Decidable (Unreplaced ops tr Q e) :=
  inferInstanceAs (Decidable (_ → _))

/-- What the other operations alone make of `s`, in their order. -/
def othersAlone (s : State) : List (PodStep ι) → State
  | [] => s
  | e :: tr =>
    if (ops e.who).Reports = true then othersAlone s tr
    else e.cmd.effect e.answer (othersAlone s tr)

end

/-! ### A report puts what it has fetched -/

/-- A pod is put with the metadata and the spec that were last fetched from its path, and none is
deleted. -/
def PutsShape (h : List (Prog.Done Cmd Cmd.Answer)) : Cmd → Prop
  | .put .pods ns name p => Prog.lastSeen (fetchedPod (path ns name)) h = some (some (shapeOf p))
  | .delete .pods _ _ => False
  | _ => True

theorem along_updatePodStatus (quote : String → String) (peer : Option String)
    (req : UpdatePodStatusRequest) : (updatePodStatus quote peer req).Along PutsShape [] := by
  refine along_ask_bind.mpr ⟨trivial, fun x => ?_⟩
  rcases x with err | pod
  · trivial
  dsimp only
  cases deniedNode peer pod with
  | some node => trivial
  | none =>
    refine along_ask_bind.mpr ⟨?_, fun y => ?_⟩
    · simp [PutsShape, Prog.lastSeen, fetchedPod, shapeOf]
    · cases y <;> trivial

theorem along_podOp (quote : String → String) (validators : List Validator) (op : PodOp) :
    (op.prog quote validators).Along (fun h c => op.Reports = true → PutsShape h c) [] := by
  have hother : op.Reports = false → (op.prog quote validators).Along
      (fun h c => op.Reports = true → PutsShape h c) [] := fun hr =>
    along_of_forall (fun _ _ h => by rw [hr] at h; cases h) _ _
  cases op with
  | report peer req =>
    refine Along.mono (fun _ _ h _ => h) (Along.bind ?_ ?_)
    · exact fun _ _ => trivial
    · exact along_updatePodStatus quote peer req
  | create pod | delete ns name | schedule candidates p | evict d => exact hother rfl

/-! ### One command -/

section

variable {c : Cmd} {x : c.Answer} {K : String}

theorem isSome_writesAt_iff : (c.writesAt .pods K x).isSome ↔ K ∈ podWritten c x := by
  rcases c with _ | ⟨k, ns, name, obj⟩ | ⟨k, ns, name⟩ | _
  · simp [Cmd.writesAt, podWritten]
  · cases k <;> cases x <;> simp [Cmd.writesAt, podWritten]
  · cases k <;> cases x <;> simp [Cmd.writesAt, podWritten]
  · simp [Cmd.writesAt, podWritten]

theorem shapeAt_effect (t : State) :
    shapeAt K (c.effect x t) =
      ((c.writesAt .pods K x).map fun p => p.map shapeOf).getD (shapeAt K t) := by
  rw [shapeAt, lookup_effect, shapeAt]
  cases c.writesAt .pods K x <;> rfl

/-- What is fetched from `K` is there. -/
theorem shapeAt_of_fetched {t t' : State} (h : serveOrFail c t x t')
    {v : Option (Option ObjectMeta × Option PodSpec)} (hv : fetchedPod K c x = some v) :
    shapeAt K t' = v := by
  rcases c with ⟨k, ns, name⟩ | _ | _ | _ <;> try cases hv
  cases k <;> cases x <;> try cases hv
  simp only [fetchedPod] at hv
  split at hv
  · next hp =>
    cases hv
    have hl := lookup_of_get h
    have ht := serveOrFail_post h
    simp only [Cmd.effect] at ht
    rw [shapeAt, ht, ← hp, hl]
    rfl
  · cases hv

end

/-! ### The interleavings -/

section

variable {ι : Type} [DecidableEq ι] {ops : ι → PodOp} {s : State}

/-- What holds along the run: a report knows what it has fetched, and the pods are as the other
operations alone have left them. -/
structure AsOthersLeave (ops : ι → PodOp) (s : State) (tr : List (PodStep ι)) (t : State) :
    Prop where
  knows : ∀ i K,
    Prog.Knows (fun v t => shapeAt K t = v) (fetchedPod K) (OtherWrite ops K) i tr t
  shape : ∀ K, shapeAt K t = shapeAt K (othersAlone ops s tr)

/-- **A report changes the status only.** -/
theorem AsOthersLeave.report {tr : List (PodStep ι)} {e : PodStep ι}
    (hk : AsOthersLeave ops s tr e.pre) (he : serveOrFail e.cmd e.pre e.answer e.post)
    (hf : PutsShape (Prog.history e.who tr) e.cmd) (hg : ∀ K ∈ podWritten e.cmd e.answer,
      Prog.Undisturbed (Prog.Shows (fetchedPod K) e.who) (OtherWrite ops K) tr) (K : String) :
    shapeAt K e.post = shapeAt K e.pre := by
  rw [serveOrFail_post he, shapeAt_effect]
  rcases hw : e.cmd.writesAt .pods K e.answer with _ | _ | p
  · rfl
  · obtain ⟨ns, name, -, hcmd⟩ := delete_of_writesAt hw
    rw [hcmd] at hf
    exact absurd hf id
  · have hK : K ∈ podWritten e.cmd e.answer := isSome_writesAt_iff.mp (by rw [hw]; rfl)
    obtain ⟨ns, name, rfl, hcmd⟩ := put_of_writesAt hw
    rw [hcmd] at hf
    exact (hk.knows e.who _ (hg _ hK) _ hf).symm

/-- **One step.** -/
theorem AsOthersLeave.step {tr : List (PodStep ι)} {e : PodStep ι}
    (hk : AsOthersLeave ops s tr e.pre) (he : serveOrFail e.cmd e.pre e.answer e.post)
    (hf : (ops e.who).Reports = true → PutsShape (Prog.history e.who tr) e.cmd)
    (hg : (ops e.who).Reports = true → ∀ K ∈ podWritten e.cmd e.answer,
      Prog.Undisturbed (Prog.Shows (fetchedPod K) e.who) (OtherWrite ops K) tr) :
    AsOthersLeave ops s (e :: tr) e.post := by
  have hquiet : ∀ K, ¬ OtherWrite ops K e → shapeAt K e.post = shapeAt K e.pre := by
    intro K hw
    by_cases hr : (ops e.who).Reports = true
    · exact hk.report he (hf hr) (hg hr) K
    · have hnone : e.cmd.writesAt .pods K e.answer = none := by
        rw [← Option.not_isSome_iff_eq_none, isSome_writesAt_iff]
        exact fun hK => hw ⟨by simpa using hr, hK⟩
      rw [serveOrFail_post he, shapeAt_effect, hnone]
      rfl
  refine ⟨fun i K => (hk.knows i K).step (fun v hv => shapeAt_of_fetched he hv)
    fun hw v hv => (hquiet K hw).trans hv, fun K => ?_⟩
  rw [othersAlone]
  split
  · next hr => exact (hk.report he (hf hr) (hg hr) K).trans (hk.shape K)
  · rw [serveOrFail_post he, shapeAt_effect, shapeAt_effect, hk.shape K]

/-- **A status report changes the status only**: every pod is there, with its metadata and its spec,
as the other operations alone have left it, when none of them writes a pod between the fetch of a
report and its put. -/
theorem reports_change_status_only {quote : String → String} {validators : List Validator}
    {tr : List (PodStep ι)} {Q : ι → Reg Unit} {t : State}
    (h : Prog.Interleaves (Unreplaced ops) serveOrFail (fun i => (ops i).prog quote validators) s
      tr Q t) (K : String) : shapeAt K t = shapeAt K (othersAlone ops s tr) := by
  have hk : AsOthersLeave ops s tr t := by
    refine h.invariant (I := fun tr _ t => AsOthersLeave ops s tr t)
      ⟨fun _ _ => Prog.knows_nil, fun _ => rfl⟩ ?_
    intro tr Q t i c k x t' h hk hQ hH hG
    exact hk.step hH (h.along_next (fun i => along_podOp quote validators (ops i)) hQ) hG
  exact hk.shape K

end

/-! ### A report in the way -/

/-- An agent and a user. -/
inductive PodParty where
  | agent
  | user
  deriving DecidableEq

/-- The agent reports a pod that the user deletes. -/
def reportAndDelete : PodParty → PodOp
  | .agent => .report (some "/node/n1") ⟨"default", "web", some { phase := .running }⟩
  | .user => .delete "default" "web"

/-- The pod, on the node of the agent. -/
def runningWeb : State :=
  State.empty.set .pods (Finmap.singleton "default/web"
    { metadata := some { name := "web", ns := "default" }
      spec := some { nodeName := "n1" } })

/-- The report first, and then the deletion. -/
def reportThenDelete : List (PodParty × List String) :=
  [(.agent, []), (.agent, []), (.user, [])]

theorem reports_change_status_only_sample :
    ∃ tr Q t, Prog.Interleaves (Unreplaced reportAndDelete) serveOrFail
        (fun i => (reportAndDelete i).prog id []) runningWeb tr Q t ∧
      ((Q .agent).result = some () ∧ (Q .user).result = some ()) ∧
      shapeAt "default/web" t =
        shapeAt "default/web" (othersAlone reportAndDelete runningWeb tr) := by
  obtain ⟨tr, Q, t, h, hQ⟩ := exists_of_play (G := Unreplaced reportAndDelete)
    (P := fun i => (reportAndDelete i).prog id []) (s := runningWeb)
    (T := fun r => (r.progs .agent).result = some () ∧ (r.progs .user).result = some ())
    serveOrFail_of_resolve reportThenDelete (by decide)
  exact ⟨tr, Q, t, h, hQ, reports_change_status_only h "default/web"⟩

/-- The deletion between the fetch of the report and its put. -/
def deleteInTheGap : List (PodParty × List String) :=
  [(.agent, []), (.user, []), (.agent, [])]

/-- **A report brings a deleted pod back.** -/
theorem report_revives_pod :
    ∃ tr Q t, Prog.Interleaves Prog.unguarded serveOrFail
        (fun i => (reportAndDelete i).prog id []) runningWeb tr Q t ∧
      ((Q .agent).result = some () ∧ (Q .user).result = some ()) ∧
      shapeAt "default/web" (othersAlone reportAndDelete runningWeb tr) = none ∧
      (shapeAt "default/web" t).isSome :=
  exists_of_play (T := fun r => ((r.progs .agent).result = some () ∧
      (r.progs .user).result = some ()) ∧
    shapeAt "default/web" (othersAlone reportAndDelete runningWeb r.trace) = none ∧
    (shapeAt "default/web" r.state).isSome)
  serveOrFail_of_resolve deleteInTheGap (by decide)

end NimbusCore.Apiserver
