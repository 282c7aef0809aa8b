import NimbusCore.Agent.Runtime

/-!
# Agent — the agent

`internal/agent/agent.go`.  The agent waits for the next tick, the next exit and its own end
(`AgentEvent`).  On a tick it lists the pods, looks which containers have exited, removes containers
without a pod, starts or adopts the pods of its node that it does not track, stops what it tracks
without a pod, and reports everything it tracks as running.  On an exit it restarts the pod, or
stops tracking it and reports how it ended.
-/

namespace NimbusCore.Agent

open Api Apiserver Prog List

/-- The order in which the keys of a map are seen. -/
def order (keys : Finset String) : Act (List String) := Prog.ask (AgentCmd.order keys)

/-- `reportStatus`. -/
def reportStatus (pod : Pod) (phase : PodPhase) (message : String) (restarts : Int32)
    (memoryUsageBytes : Int64) : Act Unit := do
  let _ ← api (.updatePodStatus
    { ns := pod.getMetadata.ns
      name := pod.getMetadata.name
      status := some
        { phase := phase
          message := message
          restartCount := restarts
          memoryUsageBytes := memoryUsageBytes } })
  return ()

/-- `startPod`. -/
def startPod (cfg : Config) (pod : Pod) : Act Unit := do
  match ← start cfg pod with
  | .error err => reportStatus pod .failed err 0 0
  | .ok () => reportStatus pod .running "" 0 0

/-! ### The tick -/

/-- One round of the loop over the listed pods. -/
def desire (cfg : Config) (desired : Dict String Pod) (pod : Pod) : Dict String Pod :=
  if pod.getSpec.nodeName ≠ cfg.nodeName then desired else desired.insert (podKey pod) pod

/-- The pods of the node, by key. -/
def desiredPods (cfg : Config) (pods : List Pod) : Dict String Pod := pods.foldl (desire cfg) ∅

/-- The loop of `removeOrphanContainers`. -/
def orphanLoop (wanted : List String) : List String → Act Unit
  | [] => return ()
  | name :: names => do
    if ¬ "nimbus-".toList <+: name.toList ∨ name ∈ wanted then orphanLoop wanted names
    else
      let _ ← containerd (.removeContainer name)
      orphanLoop wanted names

/-- `removeOrphanContainers`. -/
def removeOrphanContainers (wanted : List String) : Act Unit := do
  match ← containerd .listTasks with
  | .error _ => return ()
  | .ok statuses =>
    let names ← order statuses.keys
    orphanLoop wanted names

/-- `reconcileOrphanContainers`. -/
def reconcileOrphanContainers (desired : Dict String Pod) : Act Unit := do
  let keys ← order desired.keys
  removeOrphanContainers ((desired.range keys).map fun e => containerName e.2)

/-- The first loop of `reconcile`. -/
def startLoop (cfg : Config) : List (String × Pod) → Act Unit
  | [] => return ()
  | (key, pod) :: entries => do
    match ← has key with
    | true => startLoop cfg entries
    | false =>
      match ← adoptIfRunning pod with
      | true => startLoop cfg entries
      | false =>
        startPod cfg pod
        startLoop cfg entries

/-- The second loop. -/
def dropLoop (desired : Dict String Pod) : List String → Act Unit
  | [] => return ()
  | key :: keys => do
    if key ∈ desired then dropLoop desired keys
    else
      stop key
      dropLoop desired keys

/-- The third loop. -/
def reportLoop : List String → Act Unit
  | [] => return ()
  | key :: keys => do
    match ← podOf key with
    | none => reportLoop keys
    | some pod =>
      let restarts ← restartCount key
      let memoryUsageBytes ← memoryUsageBytes key
      reportStatus pod .running "" restarts memoryUsageBytes
      reportLoop keys

/-- `reconcile`, once the pods are listed. -/
def reconcilePods (cfg : Config) (pods : List Pod) : Act Unit := do
  checkContainerdExits
  reconcileOrphanContainers (desiredPods cfg pods)
  let keys ← order (desiredPods cfg pods).keys
  startLoop cfg ((desiredPods cfg pods).range keys)
  let keys ← runtime .keys
  dropLoop (desiredPods cfg pods) keys
  let keys ← runtime .keys
  reportLoop keys

/-- `reconcile`. -/
def reconcile (cfg : Config) : Act Unit := do
  match ← api .listPods with
  | .error _ => return ()
  | .ok pods => reconcilePods cfg pods

/-! ### Exits -/

/-- `shouldRestart` of `handleExit`. -/
def shouldRestart (restartPolicy : RestartPolicy) (exitCode : Int) : Bool :=
  restartPolicy = .unspecified ∨ restartPolicy = .always ∨
    (restartPolicy = .onFailure ∧ exitCode ≠ 0)

/-- The phase of a pod that has exited and is not restarted. -/
def exitPhase (exitCode : Int) : PodPhase := if exitCode ≠ 0 then .failed else .succeeded

/-- `handleExit`, when the pod is restarted. -/
def restartExited (cfg : Config) (ev : ExitEvent) (pod : Pod) : Act Unit := do
  match ← restart cfg pod with
  | .error err =>
    let restarts ← restartCount ev.key
    reportStatus pod .failed err restarts 0
  | .ok () =>
    let restarts ← restartCount ev.key
    reportStatus pod .running "" restarts 0

/-- `handleExit`, when it is not. -/
def finishExited (ev : ExitEvent) (pod : Pod) : Act Unit := do
  stop ev.key
  reportStatus pod (exitPhase ev.exitCode) "" 0 0

/-- `handleExit`, once it has the pod and its task is not running. -/
def onExit (cfg : Config) (ev : ExitEvent) (pod : Pod) : Act Unit :=
  if shouldRestart pod.getSpec.restartPolicy ev.exitCode then restartExited cfg ev pod
  else finishExited ev pod

/-- `handleExit`. -/
def handleExit (cfg : Config) (ev : ExitEvent) : Act Unit := do
  match ← podOf ev.key with
  | none => return ()
  | some pod =>
    match ← stillRunning ev.key with
    | true => return ()
    | false => onExit cfg ev pod

/-! ### The loop -/

/-- What `Run` waits for. -/
inductive AgentEvent where
  | tick
  | exit (ev : ExitEvent)
  | done

/-- One round of `Run`, and whether it goes on. -/
def round (cfg : Config) : AgentEvent → Act Bool
  | .tick => do
    reconcile cfg
    let _ ← Prog.ask AgentCmd.reconcileServices
    return true
  | .exit ev => do
    handleExit cfg ev
    return true
  | .done => do
    stopAll
    let _ ← Prog.ask AgentCmd.stopNodePorts
    return false

/-! ### What the functions do and issue -/

/-- A pod of the node that is listed is desired, or another of its key is. -/
theorem exists_lookup_desiredPods {cfg : Config} {pods : List Pod} {pod : Pod} (h : pod ∈ pods)
    (hnode : pod.getSpec.nodeName = cfg.nodeName) :
    ∃ pod', (desiredPods cfg pods).lookup (podKey pod) = some pod' := by
  induction pods using List.reverseRecOn with
  | nil => cases h
  | append_singleton pods p ih =>
    rw [desiredPods, foldl_append, ← desiredPods, foldl_cons, foldl_nil, desire]
    rcases mem_append.mp h with h | h
    · obtain ⟨pod', hpod⟩ := ih h
      split
      · exact ⟨pod', hpod⟩
      · rw [Finmap.lookup_insert_eq]
        split
        · exact ⟨p, rfl⟩
        · exact ⟨pod', hpod⟩
    · obtain rfl := mem_singleton.mp h
      rw [if_neg (not_not.mpr hnode)]
      exact ⟨pod, Finmap.lookup_insert _⟩

/-- **What is desired** is listed, on this node, and desired under its own key. -/
theorem of_lookup_desiredPods {cfg : Config} {pods : List Pod} {key : String} {pod : Pod}
    (h : (desiredPods cfg pods).lookup key = some pod) :
    pod ∈ pods ∧ pod.getSpec.nodeName = cfg.nodeName ∧ podKey pod = key := by
  -- by the last pod of the list
  induction pods using List.reverseRecOn with
  | nil => simp [desiredPods] at h
  | append_singleton pods p ih =>
    rw [desiredPods, foldl_append, ← desiredPods, foldl_cons, foldl_nil, desire] at h
    split at h
    · obtain ⟨hp, hpod⟩ := ih h
      exact ⟨mem_append_left _ hp, hpod⟩
    · next hnode =>
      rw [Finmap.lookup_insert_eq] at h
      split at h
      · next hk =>
        cases h
        exact ⟨mem_append_right _ (mem_singleton_self _), not_not.mp hnode, hk.symm⟩
      · obtain ⟨hp, hpod⟩ := ih h
        exact ⟨mem_append_left _ hp, hpod⟩

section

variable {P : AgentCmd → Prop} {Q : Empty → Prop}

theorem within_orphanLoop (hP : ∀ c, Looks c → P c) (wanted : List String) :
    ∀ names, (orphanLoop wanted names).Within P Q
  | [] => trivial
  | name :: names => by
    rw [orphanLoop]
    split
    · exact within_orphanLoop hP wanted names
    · exact within_ask_bind.mpr ⟨hP _ trivial, fun _ => within_orphanLoop hP wanted names⟩

theorem within_reconcileOrphanContainers (hP : ∀ c, Looks c → P c) (desired : Dict String Pod) :
    (reconcileOrphanContainers desired).Within P Q := by
  refine within_ask_bind.mpr ⟨hP _ trivial, fun keys => ?_⟩
  refine Within.bind_ok (within_ask.mpr (hP _ trivial)) fun statuses => ?_
  exact within_ask_bind.mpr ⟨hP _ trivial, fun names => within_orphanLoop hP _ names⟩

theorem within_dropLoop (hP : ∀ key c, Stops key c → P c) (desired : Dict String Pod) :
    ∀ keys, (dropLoop desired keys).Within P Q
  | [] => trivial
  | key :: keys => by
    rw [dropLoop]
    split
    · exact within_dropLoop hP desired keys
    · exact Within.bind (within_stop (hP key)) fun _ => within_dropLoop hP desired keys

theorem within_reportStatus (hR : ∀ req, P (.api (.updatePodStatus req))) (pod : Pod)
    (phase : PodPhase) (message : String) (restarts : Int32) (memoryUsageBytes : Int64) :
    (reportStatus pod phase message restarts memoryUsageBytes).Within P Q :=
  within_ask_bind.mpr ⟨hR _, fun _ => trivial⟩

theorem within_startPod (hT : ∀ pod c, TakesUp pod c → P c)
    (hR : ∀ req, P (.api (.updatePodStatus req))) (cfg : Config) (pod : Pod) :
    (startPod cfg pod).Within P Q := by
  refine Within.bind (within_start (hT pod) cfg) fun x => ?_
  cases x with
  | error err | ok _ => exact within_reportStatus hR _ _ _ _ _

theorem within_startLoop (hT : ∀ pod c, TakesUp pod c → P c)
    (hR : ∀ req, P (.api (.updatePodStatus req))) (cfg : Config) :
    ∀ entries, (startLoop cfg entries).Within P Q
  | [] => trivial
  | (key, pod) :: entries => by
    refine Within.bind
      (within_has (fun c h => hT pod c (takesUp_of_looks h)) key) fun b => ?_
    cases b with
    | true => exact within_startLoop hT hR cfg entries
    | false =>
      refine Within.bind (within_adoptIfRunning (hT pod)) fun b => ?_
      cases b with
      | true => exact within_startLoop hT hR cfg entries
      | false =>
        exact Within.bind (within_startPod hT hR cfg pod) fun _ =>
          within_startLoop hT hR cfg entries

theorem within_reportLoop (hP : ∀ c, Looks c → P c) (hR : ∀ req, P (.api (.updatePodStatus req))) :
    ∀ keys, (reportLoop keys).Within P Q
  | [] => trivial
  | key :: keys => by
    refine Within.bind (within_podOf hP key) fun pod => ?_
    rcases pod with _ | pod
    · exact within_reportLoop hP hR keys
    refine Within.bind (within_restartCount hP key) fun _ => ?_
    refine Within.bind (within_memoryUsageBytes hP key) fun _ => ?_
    exact Within.bind (within_reportStatus hR ..) fun _ =>
      within_reportLoop hP hR keys

theorem within_handleExit (hT : ∀ pod c, TakesUp pod c → P c) (hS : ∀ key c, Stops key c → P c)
    (hR : ∀ req, P (.api (.updatePodStatus req))) (cfg : Config) (ev : ExitEvent) :
    (handleExit cfg ev).Within P Q := by
  have hL : ∀ c, Looks c → P c := fun c h => hT {} c (takesUp_of_looks h)
  refine Within.bind (within_podOf hL ev.key) fun pod => ?_
  rcases pod with _ | pod
  · trivial
  refine Within.bind (within_stillRunning hL ev.key) fun b => ?_
  cases b with
  | true => trivial
  | false =>
    simp only [onExit]
    split
    · refine Within.bind (within_restart (hT pod) cfg) fun x => ?_
      cases x with
      | error err | ok _ =>
        exact Within.bind (within_restartCount hL ev.key) fun _ =>
          within_reportStatus hR ..
    · exact Within.bind (within_stop (hS ev.key)) fun _ =>
        within_reportStatus hR ..

end

end NimbusCore.Agent
