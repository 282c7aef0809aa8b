import NimbusCore.Agent.World

/-!
# Agent — terminal phases

When a workload has exited and the policy of its pod asks for no restart, the agent stops tracking
the pod and reports it as succeeded or failed.  The next tick that lists the pod finds that it is
not tracked, and starts it again.

* `terminal_phase_final`: as long as no listing has the pod on this node again (`Unlisted`), nothing
  is started for it and it is not reported as running again.
* `finished_pod_restarts`: otherwise it is.
-/

namespace NimbusCore.Agent

open Api Apiserver EventLoop Prog List

/-- A step of the agent. -/
abbrev AgentStep := Label AgentEvent AgentCmd AgentCmd.Answer

/-- What a program of the agent has done. -/
abbrev AgentDone := Prog.Done AgentCmd AgentCmd.Answer

/-! ### The end of a pod, and what should not follow -/

/-- The key of the pod that a report is about. -/
def reportKey (req : UpdatePodStatusRequest) : String := req.ns ++ "/" ++ req.name

/-- The phase that is reported. -/
def reportPhase (req : UpdatePodStatusRequest) : PodPhase := (req.status.getD {}).phase

/-- The command starts a workload for a pod with the key, or reports such a pod as running. -/
def Revives (key : String) : AgentCmd → Prop
  | .containerd (.runContainer pod _) => podKey pod = key
  | .os (.startCommand pod _) | .os (.wait pod _) | .os (.runWasm pod _ _) => podKey pod = key
  | .api (.updatePodStatus req) => reportKey req = key ∧ reportPhase req = .running
  | _ => False

instance decidableRevives (key : String) : DecidablePred (Revives key)
  | .containerd (.runContainer _ _) => inferInstanceAs (Decidable (_ = _))
  | .os (.startCommand _ _) | .os (.wait _ _) | .os (.runWasm _ _ _) =>
    inferInstanceAs (Decidable (_ = _))
  | .api (.updatePodStatus _) => inferInstanceAs (Decidable (_ ∧ _))
  | .api .listPods | .containerd .listTasks | .containerd (.taskPid _) => isFalse id
  | .containerd (.removeContainer _) | .containerd (.buildImage ..) => isFalse id
  | .containerd (.localImage _) | .containerd (.pullImage _) => isFalse id
  | .os (.openLog ..) | .os (.ensureVolumeDir ..) | .os (.readFile _) | .os .newWasm => isFalse id
  | .os (.kill _) | .os (.closeWasm _) | .os (.residentSet _) => isFalse id
  | .runtime _ | .send _ | .order _ | .reconcileServices | .stopNodePorts => isFalse id

/-- The pod that a command has found to be tracked. -/
def trackedPod : AgentDone → Option Pod
  | ⟨.runtime (.tracked _), tp⟩ => tp.map (·.pod)
  | _ => none

/-- The pod that `handleExit` has found first. -/
def foundPod (h : List AgentDone) : Option Pod := h.getLast?.bind trackedPod

/-- The key of the pod that the command reports as succeeded or failed, because its workload has
exited and its policy asks for no restart. -/
def finishes (tr : List AgentStep) (c : AgentCmd) : Option String :=
  match event tr, foundPod (current tr), c with
  | some (.exit ev), some pod, .api (.updatePodStatus req) =>
    if shouldRestart pod.getSpec.restartPolicy ev.exitCode = false ∧
        (reportPhase req = .succeeded ∨ reportPhase req = .failed) then some ev.key
    else none
  | _, _, _ => none

/-- The pod with the key has been reported so. -/
def Finished (key : String) : List AgentStep → Prop
  | [] => False
  | .took _ :: tr => Finished key tr
  | .did c _ :: tr => finishes tr c = some key ∨ Finished key tr

instance decidableFinished (key : String) : (tr : List AgentStep) → Decidable (Finished key tr)
  | [] => inferInstanceAs (Decidable False)
  | .took _ :: tr => decidableFinished key tr
  | .did _ _ :: tr =>
    have := decidableFinished key tr
    inferInstanceAs (Decidable (_ ∨ _))

/-- What is listed is not on this node, if it was reported as ended. -/
def ListsUnfinished (cfg : Config) (tr : List AgentStep) : (c : AgentCmd) → c.Answer → Prop
  | .api .listPods, .ok pods =>
    ∀ pod ∈ pods, pod.getSpec.nodeName = cfg.nodeName → ¬ Finished (podKey pod) tr
  | _, _ => True

/-- **No pod that was reported as ended is listed on this node again.** -/
def Unlisted (cfg : Config) : Guard AgentEvent AgentCmd AgentCmd.Answer World where
  allows tr _ c x _ := ListsUnfinished cfg tr c x

instance decidableListsUnfinished (cfg : Config) (tr : List AgentStep) :
    (c : AgentCmd) → (x : c.Answer) → Decidable (ListsUnfinished cfg tr c x)
  | .api .listPods, .ok pods => inferInstanceAs (Decidable (∀ pod ∈ pods, _ → ¬ _))
  | .api .listPods, .error _ => isTrue trivial
  | .api (.updatePodStatus _), _ => isTrue trivial
  | .containerd _, _ | .os _, _ | .runtime _, _ | .send _, _ | .order _, _ => isTrue trivial
  | .reconcileServices, _ | .stopNodePorts, _ => isTrue trivial

instance (cfg : Config) : DecidableGuard (Unlisted cfg) where
  takes _ _ _ := inferInstanceAs (Decidable True)
  allows tr _ c x _ := inferInstanceAs (Decidable (ListsUnfinished cfg tr c x))

/-! ### After the end -/

variable {c : AgentCmd} {pod : Pod}

section

variable {cfg : Config} {key : String}

/-- A pod with the key is not on the list, and nothing is tracked under it. -/
def Gone (cfg : Config) (key : String) : (c : AgentCmd) → c.Answer → Prop
  | .api .listPods, .ok pods => ∀ pod ∈ pods, pod.getSpec.nodeName = cfg.nodeName → podKey pod ≠ key
  | .runtime (.tracked key'), tp => (key' = key → tp = none) ∧ ∀ p ∈ tp, podKey p.pod = key'
  | _, _ => True

/-- The command neither revives nor tracks a pod with the key. -/
def Passes (key : String) (c : AgentCmd) : Prop := ¬ Revives key c ∧ ¬ Tracks key c

theorem passes_of_looks (h : Looks c) : Passes key c := by
  rcases c with c | c | c | c | c | c | c | c <;> try exact ⟨id, id⟩
  all_goals cases c <;> first | exact ⟨id, id⟩ | cases h

theorem passes_of_takesUp (hpod : podKey pod ≠ key) (h : TakesUp pod c) : Passes key c := by
  rcases c with c | c | c | c | c | c | c | c <;> try exact ⟨id, id⟩
  · cases h
  · cases c with
    | runContainer pod' spec => cases h; exact ⟨hpod, id⟩
    | _ => exact ⟨id, id⟩
  · cases c with
    | startCommand pod' args | wait pod' i | runWasm pod' i module => cases h; exact ⟨hpod, id⟩
    | _ => exact ⟨id, id⟩
  · cases c with
    | replace tp | assign tp => cases h; exact ⟨id, hpod⟩
    | _ => exact ⟨id, id⟩

theorem passes_of_stops {key' : String} (h : Stops key' c) : Passes key c := by
  rcases c with c | c | c | c | c | c | c | c <;> try exact ⟨id, id⟩
  all_goals cases c <;> first | exact ⟨id, id⟩ | cases h

theorem ensures_reportStatus (hpod : podKey pod ≠ key) (phase : PodPhase)
    (message : String) (restarts : Int32) (memoryUsageBytes : Int64) :
    (reportStatus pod phase message restarts memoryUsageBytes).Ensures (Gone cfg key) (Passes key)
      fun _ => True :=
  ensures_ask_bind.mpr ⟨⟨fun h => hpod h.1, id⟩, fun _ _ => trivial⟩

theorem ensures_startPod (hpod : podKey pod ≠ key) :
    (startPod cfg pod).Ensures (Gone cfg key) (Passes key) fun _ => True := by
  refine Within.ensures_bind (Q := fun _ => True)
    (within_start (fun c => passes_of_takesUp hpod) cfg) fun x => ?_
  cases x with
  | error err | ok _ => exact ensures_reportStatus hpod _ _ _ _

theorem ensures_startLoop : ∀ {entries : List (String × Pod)},
    (∀ e ∈ entries, podKey e.2 ≠ key) →
      (startLoop cfg entries).Ensures (Gone cfg key) (Passes key) fun _ => True
  | [], _ => trivial
  | (key', pod) :: entries, h => by
    obtain ⟨hpod, hentries⟩ := forall_mem_cons.mp h
    refine Within.ensures_bind (Q := fun _ => True)
      (within_has (fun c => passes_of_looks) key') fun b => ?_
    cases b with
    | true => exact ensures_startLoop hentries
    | false =>
      refine Within.ensures_bind (Q := fun _ => True)
        (within_adoptIfRunning fun c => passes_of_takesUp hpod) fun b => ?_
      cases b with
      | true => exact ensures_startLoop hentries
      | false => exact (ensures_startPod hpod).bind fun _ _ => ensures_startLoop hentries

theorem ensures_reportLoop : ∀ keys : List String,
    (reportLoop keys).Ensures (Gone cfg key) (Passes key) fun _ => True
  | [] => trivial
  | key' :: keys => by
    refine ensures_ask_bind.mpr ⟨passes_of_looks trivial, fun tp htp => ?_⟩
    rcases tp with _ | tp
    · exact ensures_reportLoop keys
    have hpod : podKey tp.pod ≠ key := fun he => by
      have hkey := htp.2 tp rfl
      cases htp.1 (hkey.symm.trans he)
    refine Within.ensures_bind (Q := fun _ => True)
      (within_restartCount (fun c => passes_of_looks) key') fun restarts => ?_
    refine Within.ensures_bind (Q := fun _ => True)
      (within_memoryUsageBytes (fun c => passes_of_looks) key') fun bytes => ?_
    exact (ensures_reportStatus hpod ..).bind fun _ _ => ensures_reportLoop keys

theorem ensures_reconcile : (reconcile cfg).Ensures (Gone cfg key) (Passes key) fun _ => True := by
  have hL : ∀ c, Looks c → Passes key c := fun c => passes_of_looks
  refine Ensures.bind_ok (ensures_asked ⟨id, id⟩) fun pods hx => ?_
  refine Within.ensures_bind (Q := fun _ => True)
    (within_checkContainerdExits hL (fun _ => ⟨id, id⟩) fun _ => ⟨id, id⟩) fun _ => ?_
  refine Within.ensures_bind (Q := fun _ => True)
    (within_reconcileOrphanContainers hL _) fun _ => ?_
  refine ensures_ask_bind.mpr ⟨hL _ trivial, fun keys _ => ?_⟩
  refine Ensures.bind (Φ := fun _ => True) (ensures_startLoop fun e he => ?_) fun _ _ => ?_
  · obtain ⟨hp, hnode, -⟩ := of_lookup_desiredPods (Finmap.mem_range.mp he).2
    exact hx e.2 hp hnode
  · refine ensures_ask_bind.mpr ⟨hL _ trivial, fun keys _ => ?_⟩
    refine Within.ensures_bind (Q := fun _ => True)
      (within_dropLoop (fun _ c => passes_of_stops) _ keys) fun _ => ?_
    exact ensures_ask_bind.mpr ⟨hL _ trivial, fun keys _ => ensures_reportLoop keys⟩

theorem ensures_handleExit (ev : ExitEvent) :
    (handleExit cfg ev).Ensures (Gone cfg key) (Passes key) fun _ => True := by
  have hL : ∀ c, Looks c → Passes key c := fun c => passes_of_looks
  refine ensures_ask_bind.mpr ⟨hL _ trivial, fun tp htp => ?_⟩
  rcases tp with _ | tp
  · trivial
  have hpod : podKey tp.pod ≠ key := fun he => by
    have hkey := htp.2 tp rfl
    cases htp.1 (hkey.symm.trans he)
  refine Within.ensures_bind (Q := fun _ => True) (within_stillRunning hL ev.key) fun b => ?_
  cases b with
  | true => trivial
  | false =>
    simp only [onExit]
    split
    · refine Within.ensures_bind (Q := fun _ => True)
        (within_restart (fun c => passes_of_takesUp hpod) cfg) fun x => ?_
      cases x with
      | error err | ok _ =>
        refine Within.ensures_bind (Q := fun _ => True)
          (within_restartCount hL ev.key) fun restarts => ?_
        exact ensures_reportStatus hpod ..
    · refine Within.ensures_bind (Q := fun _ => True)
        (within_stop fun c => passes_of_stops) fun _ => ?_
      exact ensures_reportStatus hpod ..

/-- **Once a pod is gone** nothing revives it. -/
theorem ensures_round (e : AgentEvent) :
    (round cfg e).Ensures (Gone cfg key) (Passes key) fun _ => True := by
  cases e with
  | tick =>
    refine Ensures.bind ensures_reconcile fun _ _ => ?_
    exact ensures_ask_bind.mpr ⟨⟨id, id⟩, fun _ _ => trivial⟩
  | exit ev => exact Ensures.bind (ensures_handleExit ev) fun _ _ => trivial
  | done =>
    refine Within.ensures_bind (Q := fun _ => True)
      (within_stopAll fun _ c => passes_of_stops) fun _ => ?_
    exact ensures_ask_bind.mpr ⟨⟨id, id⟩, fun _ _ => trivial⟩

end

/-! ### The end -/

/-- The command is a report. -/
def Reports : AgentCmd → Prop
  | .api (.updatePodStatus _) => True
  | _ => False

/-- Nothing was tracked under the key, and what there was no longer is. -/
def Untracks (key : String) (h : List AgentDone) : Prop :=
  (∀ d ∈ h, ¬ Tracks key d.1) ∧ ∃ x, (⟨.runtime (.untrack key), x⟩ : AgentDone) ∈ h

/-- On an exit, a report is the last command; and if no restart is asked for, the pod is no longer
tracked by then. -/
def ReportsLast : AgentEvent → List AgentDone → AgentCmd → Prop
  | .exit ev, h, c => (∀ d ∈ h, ¬ Reports d.1) ∧ (Reports c → ∀ pod, foundPod h = some pod →
      shouldRestart pod.getSpec.restartPolicy ev.exitCode = false → Untracks ev.key h)
  | .tick, _, _ | .done, _, _ => True

/-- The agent handles an exit of `pod`, and has reported nothing yet. -/
structure Handles (pod : Pod) (h : List AgentDone) : Prop where
  found : foundPod h = some pod
  silent : ∀ d ∈ h, ¬ Reports d.1

variable {h : List AgentDone}

theorem Handles.cons (hh : Handles pod h)
    (x : c.Answer) (hc : ¬ Reports c) : Handles pod (⟨c, x⟩ :: h) where
  found := by
    have hne : h ≠ [] := fun h0 => by
      have hf := hh.found
      rw [h0] at hf
      cases hf
    rw [foundPod, List.getLast?_cons_of_ne_nil hne]
    exact hh.found
  silent := forall_mem_cons.mpr ⟨hc, hh.silent⟩

theorem not_reports_of_looks (h : Looks c) : ¬ Reports c := by
  rcases c with c | c | c | c | c | c | c | c <;> try exact id
  cases h

theorem not_reports_of_takesUp (h : TakesUp pod c) : ¬ Reports c := by
  rcases c with c | c | c | c | c | c | c | c <;> try exact id
  cases h

theorem passes_of_ends (key : String) (h : Ends c) : ¬ Reports c ∧ ¬ Tracks key c := by
  refine ⟨?_, (passes_of_stops (show Stops key c from stops_of_ends h)).2⟩
  rcases c with c | c | c | c | c | c | c | c <;> try exact id
  cases h

variable {ev : ExitEvent}

/-- A command that is no report, before any report. -/
theorem reportsLast_of_silent
    (hs : ∀ d ∈ h, ¬ Reports d.1) (hc : ¬ Reports c) : ReportsLast (.exit ev) h c :=
  ⟨hs, fun hr => absurd hr hc⟩

theorem along_restartExited {cfg : Config}
    (hr : shouldRestart pod.getSpec.restartPolicy ev.exitCode = true)
    (hh : Handles pod h) : (restartExited cfg ev pod).Along (ReportsLast (.exit ev)) h := by
  -- the report comes after a restart that was asked for
  have hreport : ∀ (phase : PodPhase) (message : String) (restarts : Int32) (h : List AgentDone),
      Handles pod h →
        (reportStatus pod phase message restarts 0).Along (ReportsLast (.exit ev)) h := by
    intro phase message restarts h hh
    refine along_ask_bind.mpr ⟨⟨hh.silent, fun _ pod' hp hr' => ?_⟩, fun _ => trivial⟩
    rw [hh.found] at hp
    cases hp
    rw [hr] at hr'
    cases hr'
  have hkeep : ∀ (h : List AgentDone) (c : AgentCmd) (x : c.Answer), ¬ Reports c → Handles pod h →
      Handles pod (⟨c, x⟩ :: h) := fun h c x hc hj => hj.cons x hc
  have hstep : ∀ (h : List AgentDone) (c : AgentCmd), ¬ Reports c → Handles pod h →
      ReportsLast (.exit ev) h c := fun h c hc hj => reportsLast_of_silent hj.silent hc
  refine Within.along_bind (Q := fun _ => True) hkeep hstep (fun x h hj => ?_)
    (within_restart (fun c => not_reports_of_takesUp) cfg) hh
  cases x with
  | error err | ok _ =>
    exact Within.along_bind (Q := fun _ => True) hkeep hstep (fun restarts h hj =>
      hreport _ _ _ h hj) (within_restartCount (fun c => not_reports_of_looks) ev.key) hj

theorem along_finishExited (hh : Handles pod h) (ht : ∀ d ∈ h, ¬ Tracks ev.key d.1) :
    (finishExited ev pod).Along (ReportsLast (.exit ev)) h := by
  have hreport : ∀ h : List AgentDone, Handles pod h ∧ Untracks ev.key h →
      (reportStatus pod (exitPhase ev.exitCode) "" 0 0).Along (ReportsLast (.exit ev)) h :=
    fun h hj => along_ask_bind.mpr ⟨⟨hj.1.silent, fun _ _ _ _ => hj.2⟩, fun _ => trivial⟩
  refine along_ask_bind.mpr ⟨reportsLast_of_silent hh.silent id, fun tp => ?_⟩
  have hstopped : ∀ tp, Handles pod (⟨.runtime (.untrack ev.key), tp⟩ :: h) ∧
      Untracks ev.key (⟨.runtime (.untrack ev.key), tp⟩ :: h) := fun tp =>
    ⟨hh.cons tp id, forall_mem_cons.mpr ⟨id, ht⟩, tp, mem_cons_self⟩
  rcases tp with _ | tp
  · exact hreport _ (hstopped none)
  refine Within.along_bind (p := endWorkload tp) (Q := fun _ => True)
    (J := fun h => Handles pod h ∧ Untracks ev.key h) ?_ ?_ (fun _ h hj => hreport h hj)
    (within_endWorkload (fun c => passes_of_ends ev.key) tp) (hstopped (some tp))
  · rintro h c x ⟨hr, htr⟩ ⟨hj, hu, y, hy⟩
    exact ⟨hj.cons x hr, forall_mem_cons.mpr ⟨htr, hu⟩, y, mem_cons_of_mem _ hy⟩
  · rintro h c ⟨hr, -⟩ ⟨hj, -⟩
    exact reportsLast_of_silent hj.silent hr

theorem along_handleExit (cfg : Config) (ev : ExitEvent) :
    (handleExit cfg ev).Along (ReportsLast (.exit ev)) [] := by
  refine along_ask_bind.mpr ⟨⟨by simp, fun h => h.elim⟩, fun tp => ?_⟩
  rcases tp with _ | tp
  · trivial
  refine Within.along_bind (Q := fun _ => True)
    (J := fun h => Handles tp.pod h ∧ ∀ d ∈ h, ¬ Tracks ev.key d.1) ?_ ?_ ?_
    (within_stillRunning (fun c h => h) ev.key) ⟨⟨rfl, ?_⟩, ?_⟩
  · rintro h c x hc ⟨hj, ht⟩
    exact ⟨hj.cons x (not_reports_of_looks hc),
      forall_mem_cons.mpr ⟨(passes_of_looks hc).2, ht⟩⟩
  · rintro h c hc ⟨hj, -⟩
    exact reportsLast_of_silent hj.silent (not_reports_of_looks hc)
  · rintro b h ⟨hj, ht⟩
    cases b with
    | true => trivial
    | false =>
      simp only [onExit]
      split
      · next hr => exact along_restartExited hr hj
      · exact along_finishExited hj ht
  · exact forall_mem_singleton.mpr id
  · exact forall_mem_singleton.mpr id

theorem along_round (cfg : Config) (e : AgentEvent) : (round cfg e).Along (ReportsLast e) [] := by
  cases e with
  | tick | done => exact along_of_forall (fun _ _ => trivial) _ _
  | exit ev =>
    exact Along.bind (f := fun _ => pure true) (fun _ _ => trivial) (along_handleExit cfg ev)

/-! ### The runs -/

section

variable {cfg : Config} {G : Guard AgentEvent AgentCmd AgentCmd.Answer World} {s t : World}
  {tr : List AgentStep} {m : Mode AgentEvent AgentCmd AgentCmd.Answer}

/-- What was untracked since the last event, and not tracked again, is not tracked. -/
theorem untracked_of_untracks {key : String} (h : (agentLoop cfg).Reaches G s tr m t)
    (hu : Untracks key (current tr)) : t.rt.procs.lookup key = none := by
  induction h with
  | nil | take e _ _ _ _ => obtain ⟨-, x, hx⟩ := hu; cases hx
  | drift _ hd ih => rw [hd.rt_eq]; exact ih hu
  | @did tr e c k x t t' _ ha _ ih =>
    obtain ⟨ht, y, hy⟩ := hu
    obtain ⟨hc, ht⟩ := forall_mem_cons.mp ht
    rcases mem_cons.mp hy with hy | hy
    · cases hy
      rw [ha.2]
      simp [ProcessRuntime.lookup_untrack]
    · exact untracked_of_answers hc ha (ih ⟨ht, y, hy⟩)
  | back _ ih => exact ih hu

/-- **Terminal phases are final**, as long as no pod that was reported as ended is listed on this
node again: nothing is started for it, and it is not reported as running. -/
theorem terminal_phase_final (h : (agentLoop cfg).Reaches (Unlisted cfg) s tr m t) (key : String) :
    After (Finished key) (fun c => ¬ Revives key c) tr := by
  refine After.mono (fun c hc => hc.1) (Reaches.after (P := Passes key) (A := Gone cfg key)
    (I := fun w => w.rt.procs.lookup key = none) id
      (fun _ _ h => h) ?_ ensures_round ?_ ?_ ?_ ?_ h).1
  · -- the report is the last command, and the pod is no longer tracked
    intro tr e c k x t t' h ha hnew hS
    have hfin : finishes tr c = some key := hnew.resolve_right hS
    have hal := h.along (Φ := ReportsLast) (along_round cfg)
    simp only [finishes, h.event_eq rfl] at hfin
    split at hfin
    · next ev pod req he hpod =>
      cases he
      split at hfin
      · next hr =>
        cases hfin
        obtain ⟨⟨-, hlast⟩, hrest⟩ := hal
        have hu := hlast trivial pod hpod hr.1
        refine ⟨?_, ensures_of_not_busy ?_⟩
        · rw [show t' = t from ha]
          exact untracked_of_untracks h hu
        · -- any further command would come after a report
          cases hk : k x with
          | ret b => rfl
          | stop e => exact e.elim
          | call c' k' =>
            have := hrest x
            rw [hk] at this
            exact absurd trivial (this.1.1 _ mem_cons_self)
      · cases hfin
    · cases hfin
  · -- what is listed was not reported as ended, and what is tracked is tracked under its own key
    intro tr e c x t t' hS hI ha hg
    rcases c with (_ | _) | _ | _ | (_ | _ | _ | _ | _ | _ | _) | _ | _ | _ | _ <;> try trivial
    · cases x with
      | error err => trivial
      | ok pods => exact fun pod hp hnode he => hg pod hp hnode (he ▸ hS)
    · next key' =>
      obtain ⟨rfl, -⟩ := ha
      exact ⟨fun he => he ▸ hI, fun p hp => t.rt.keyed key' p hp⟩
  · intro c x t t' hP hI ha
    exact untracked_of_answers hP.2 ha hI
  · intro e t t' ha hI
    rw [Arrives.rt_eq ha]
    exact hI
  · intro t t' hd hI
    rw [hd.rt_eq]
    exact hI

end

/-! ### A pod that is listed again -/

/-- The agent of the node `n1`. -/
def nodeOne : Config := { nodeName := "n1" }

/-- A pod on that node that is not to be restarted. -/
def oneShot : Pod :=
  { metadata := some { name := "job", ns := "default" }
    spec := some
      { containers := [{ name := "app", command := ["true"] }]
        nodeName := "n1"
        restartPolicy := .never } }

/-- The pod is listed. -/
def listed (pod : Pod) : Scene := { pods := .ok [pod], keys := ["default/job"] }

/-- It is started, exits with zero, and is reported as succeeded. -/
def runsOnce : List (Move AgentEvent Scene Happens) :=
  [.take .tick, .answer (listed oneShot) 20, .back, .drift (.ends 0 (.waited .success)),
    .drift (.sends 0), .take (.exit ⟨"default/job", 0⟩), .answer {} 5, .back]

theorem terminal_phase_final_sample :
    ∃ tr m t, (agentLoop nodeOne).Reaches (Unlisted nodeOne) .new tr m t ∧
      Finished "default/job" tr ∧
      After (Finished "default/job") (fun c => ¬ Revives "default/job" c) tr := by
  obtain ⟨tr, m, t, h, hfin⟩ :=
    exists_of_play (agentResolver nodeOne) (Unlisted nodeOne) (s := .new)
    (T := fun r => Finished "default/job" r.trace)
    (runsOnce ++ [.take .tick, .answer {} 10, .back]) (by decide)
  exact ⟨tr, m, t, h, hfin, terminal_phase_final h "default/job"⟩

/-- The pod, after the report. -/
def oneShotDone : Pod := { oneShot with status := some { phase := .succeeded } }

/-- **A pod that has succeeded is started again** by the next tick that lists it, and reported as
running. -/
theorem finished_pod_restarts :
    ∃ tr m t, (agentLoop nodeOne).Reaches unguarded .new tr m t ∧
      Finished "default/job" tr ∧
      ¬ After (Finished "default/job") (fun c => ¬ Revives "default/job" c) tr :=
  exists_of_play (agentResolver nodeOne) unguarded
    (T := fun r => Finished "default/job" r.trace ∧
      ¬ After (Finished "default/job") (fun c => ¬ Revives "default/job" c) r.trace)
    (runsOnce ++ [.take .tick, .answer (listed oneShotDone) 20, .back]) (by decide)

end NimbusCore.Agent
