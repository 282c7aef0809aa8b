import NimbusCore.Agent.Images
import NimbusCore.Apiserver.Pods

/-!
# Agent — the process runtime

`internal/agent/process.go`.  The runtime starts the workload of a pod as a process of the node, as
a WASM module or as a container, and tracks it under the key of the pod.  What it has started
reports its exit to a channel: a process and a WASM module by a goroutine of their own, a container
by being absent from three listings of the running tasks in a row.

The functions are programs.  The critical sections of the runtime's mutex are commands, each with
what it does to the maps (`ProcessRuntime`); the others go to the API server, to containerd, to the
operating system and to the channel.  Building, pulling and running an image, the preparation of log
files and volume directories, and the forwarding of node ports are commands too.  Log lines are left
out.
-/

namespace NimbusCore.Agent

open Api Apiserver Prog

/-! ### What is tracked -/

/-- `exitEvent`. -/
structure ExitEvent where
  key : String
  exitCode : Int
  deriving DecidableEq

/-- `trackedProcess`.  A command and a WASM runtime are known by the number they were started
under. -/
structure TrackedProcess where
  pod : Pod
  cmd : Option Nat := none
  wasmRuntime : Option Nat := none
  containerID : String := ""
  restarts : Int32 := 0
  deriving DecidableEq

/-- `podKey`. -/
def podKey (pod : Pod) : String := pod.getMetadata.ns ++ "/" ++ pod.getMetadata.name

/-- `containerNameRaw`. -/
def containerNameRaw (ns name : String) : String := "nimbus-" ++ ns ++ "-" ++ name

/-- `containerName`. -/
def containerName (pod : Pod) : String := containerNameRaw pod.getMetadata.ns pod.getMetadata.name

theorem containerName_ne (pod : Pod) : containerName pod ≠ "" := by
  intro h
  have := congrArg String.toList h
  simp [containerName, containerNameRaw] at this

/-- `firstContainer`; nil reads as the empty container. -/
def firstContainer (pod : Pod) : Container := pod.getSpec.containers.headD {}

/-- The maps of `processRuntime`.  What is tracked is tracked under the key of its pod. -/
structure ProcessRuntime where
  procs : Dict String TrackedProcess
  missingStreaks : Dict String Nat
  keyed : ∀ key tp, procs.lookup key = some tp → podKey tp.pod = key

/-- `containerdMissingConfirmations`. -/
def containerdMissingConfirmations : Nat := 3

/-- `statuses[id]`. -/
def running (statuses : Dict String Bool) (id : String) : Bool := statuses.getD id false

/-- The loop of `checkContainerdExits`. -/
def confirmLoop (statuses : Dict String Bool) :
    List (String × TrackedProcess) → Dict String Nat → Dict String Nat × List ExitEvent
  | [], streaks => (streaks, [])
  | (key, tp) :: entries, streaks =>
    if tp.containerID = "" then confirmLoop statuses entries streaks
    else if running statuses tp.containerID then confirmLoop statuses entries (streaks.erase key)
    else if streaks.getD key 0 + 1 < containerdMissingConfirmations then
      confirmLoop statuses entries (streaks.insert key (streaks.getD key 0 + 1))
    else
      let (streaks, exits) := confirmLoop statuses entries (streaks.erase key)
      (streaks, ⟨key, -1⟩ :: exits)

namespace ProcessRuntime

/-- `newProcessRuntime`. -/
def new : ProcessRuntime where
  procs := ∅
  missingStreaks := ∅
  keyed key tp h := by simp at h

/-- `r.procs[key] = tp`, for the key of the pod. -/
def assign (r : ProcessRuntime) (tp : TrackedProcess) : ProcessRuntime where
  procs := r.procs.insert (podKey tp.pod) tp
  missingStreaks := r.missingStreaks
  keyed key tp' h := by
    rw [Finmap.lookup_insert_eq] at h
    split at h
    · next he => cases h; exact he.symm
    · exact r.keyed key tp' h

/-- `restartCount`, of what is tracked. -/
def restartsOf (r : ProcessRuntime) (key : String) : Int32 :=
  ((r.procs.lookup key).map (·.restarts)).getD 0

/-- The same, with the number of restarts of what it replaces. -/
def replace (r : ProcessRuntime) (tp : TrackedProcess) : ProcessRuntime :=
  r.assign { tp with restarts := r.restartsOf (podKey tp.pod) }

/-- `tp.restarts++`. -/
def countRestart (r : ProcessRuntime) (key : String) : ProcessRuntime :=
  match r.procs.lookup key with
  | some tp => r.assign { tp with restarts := tp.restarts + 1 }
  | none => r

/-- `delete(r.procs, key)`. -/
def untrack (r : ProcessRuntime) (key : String) : ProcessRuntime where
  procs := r.procs.erase key
  missingStreaks := r.missingStreaks
  keyed key' tp h := by
    rw [Finmap.lookup_erase_eq] at h
    split at h
    · cases h
    · exact r.keyed key' tp h

/-- The critical section of `checkContainerdExits`, when the map is seen in the order `order`. -/
def confirm (r : ProcessRuntime) (statuses : Dict String Bool) (order : List String) :
    ProcessRuntime × List ExitEvent :=
  let (streaks, exits) := confirmLoop statuses (r.procs.range order) r.missingStreaks
  ({ r with missingStreaks := streaks }, exits)

theorem lookup_assign (r : ProcessRuntime) (tp : TrackedProcess) (key : String) :
    (r.assign tp).procs.lookup key = if key = podKey tp.pod then some tp else r.procs.lookup key :=
  Finmap.lookup_insert_eq ..

theorem lookup_untrack (r : ProcessRuntime) (key key' : String) :
    (r.untrack key).procs.lookup key' = if key' = key then none else r.procs.lookup key' :=
  Finmap.lookup_erase_eq ..

/-- Counting a restart changes no more than the count. -/
theorem lookup_countRestart (r : ProcessRuntime) (key key' : String) :
    (r.countRestart key).procs.lookup key' = (r.procs.lookup key').map fun tp =>
      if key' = key then { tp with restarts := tp.restarts + 1 } else tp := by
  rw [countRestart]
  cases h : r.procs.lookup key with
  | none =>
    by_cases hk : key' = key
    · subst hk; simp [h]
    · simp [hk]
  | some tp =>
    simp only [lookup_assign, r.keyed key tp h]
    by_cases hk : key' = key
    · subst hk; simp [h]
    · simp [hk]

end ProcessRuntime

/-! ### Commands -/

/-- The API server. -/
inductive ApiCmd where
  | listPods
  | updatePodStatus (req : UpdatePodStatusRequest)

/-- What the API server answers, or the text of an error. -/
abbrev ApiCmd.Answer : ApiCmd → Type
  | .listPods => Except String (List Pod)
  | .updatePodStatus _ => Except String Unit

/-- `specs.Mount`, of a volume. -/
structure Mount where
  source : String
  destination : String
  options : List String

/-- `containerdRunSpec`, with the reference of the image. -/
structure ContainerdRunSpec where
  id : String
  image : String
  command : List String
  env : Dict String String
  cpuMillis : Int64
  memBytes : Int64
  mounts : List Mount
  logPath : String

/-- containerd and buildkit.  The pod is the one that a container is run for. -/
inductive ContainerdCmd where
  /-- `listContainerdTaskStatuses`. -/
  | listTasks
  /-- `containerdTaskPID`. -/
  | taskPid (id : String)
  /-- `removeContainerdContainer`. -/
  | removeContainer (id : String)
  /-- `buildImageFromSource`; without a directory, in the default one. -/
  | buildImage (buildkitAddr : String) (buildDir : Option String) (logDir id : String)
      (src : BuildSource)
  /-- `localContainerdImage`. -/
  | localImage (ref : String)
  /-- `pullContainerdImage`. -/
  | pullImage (ref : String)
  /-- `runContainerdContainer`. -/
  | runContainer (pod : Pod) (spec : ContainerdRunSpec)

abbrev ContainerdCmd.Answer : ContainerdCmd → Type
  | .listTasks => Except String (Dict String Bool)
  | .taskPid _ => Except String Int32
  | .removeContainer _ => Unit
  | .buildImage .. | .localImage _ | .pullImage _ => Except String String
  | .runContainer .. => Except String Unit

/-- What the memory in use is asked of: a process id, or a command. -/
inductive ProcessRef where
  | pid (n : Int32)
  | cmd (i : Nat)

/-- What `cmd.Wait` returns. -/
inductive WaitResult where
  | success
  | exitError (code : Int)
  | failure

/-- The exit code that the goroutine of a command sends. -/
def WaitResult.exitCode : WaitResult → Int
  | .success => 0
  | .exitError code => code
  | .failure => -1

/-- What `rt.Run` returns. -/
inductive RunResult where
  | exited (code : UInt32)
  | failure

/-- The exit code that the goroutine of a WASM module sends. -/
def RunResult.exitCode : RunResult → Int
  | .exited code => code.toNat
  | .failure => -1

/-- The operating system and the WASM runtime.  The pod is the one that it is done for. -/
inductive OsCmd where
  /-- Makes the log directory, and returns the path of the log file, which it removes. -/
  | openLog (logDir id : String)
  /-- `ensureVolumeDir`. -/
  | ensureVolumeDir (volumesDir ns volumeName : String)
  /-- `exec.Command` and `Start`. -/
  | startCommand (pod : Pod) (args : List String)
  /-- `go func`: waits for the command, and sends its exit code. -/
  | wait (pod : Pod) (i : Nat)
  | readFile (path : String)
  /-- `wasmrt.New`. -/
  | newWasm
  /-- `go func`: runs the module, and sends its exit code. -/
  | runWasm (pod : Pod) (i : Nat) (module : List UInt8)
  | kill (i : Nat)
  | closeWasm (i : Nat)
  /-- The memory in use, if it can be told. -/
  | residentSet (p : ProcessRef)

abbrev OsCmd.Answer : OsCmd → Type
  | .openLog .. | .ensureVolumeDir .. => Except String String
  | .startCommand .. | .newWasm => Except String Nat
  | .readFile _ => Except String (List UInt8)
  | .wait .. | .runWasm .. | .kill _ | .closeWasm _ => Unit
  | .residentSet _ => Option Int64

/-- The critical sections of the runtime. -/
inductive RuntimeCmd where
  | tracked (key : String)
  | keys
  | replace (tp : TrackedProcess)
  | assign (tp : TrackedProcess)
  | countRestart (key : String)
  | untrack (key : String)
  | confirm (statuses : Dict String Bool)

abbrev RuntimeCmd.Answer : RuntimeCmd → Type
  | .tracked _ | .untrack _ => Option TrackedProcess
  | .keys => List String
  | .replace _ | .assign _ | .countRestart _ => Unit
  | .confirm _ => List ExitEvent

/-- What the agent does. -/
inductive AgentCmd where
  | api (c : ApiCmd)
  | containerd (c : ContainerdCmd)
  | os (c : OsCmd)
  | runtime (c : RuntimeCmd)
  /-- `r.exited <- ev`. -/
  | send (ev : ExitEvent)
  /-- The order in which the keys of a map are seen. -/
  | order (keys : Finset String)
  /-- `reconcileServices`. -/
  | reconcileServices
  /-- `nodePorts.stopAll`. -/
  | stopNodePorts

abbrev AgentCmd.Answer : AgentCmd → Type
  | .api c => c.Answer
  | .containerd c => c.Answer
  | .os c => c.Answer
  | .runtime c => c.Answer
  | .order _ => List String
  | .send _ | .reconcileServices | .stopNodePorts => Unit

/-- A program of the agent. -/
abbrev Act := Prog AgentCmd AgentCmd.Answer Empty

def api (c : ApiCmd) : Act c.Answer := Prog.ask (AgentCmd.api c)
def containerd (c : ContainerdCmd) : Act c.Answer := Prog.ask (AgentCmd.containerd c)
def os (c : OsCmd) : Act c.Answer := Prog.ask (AgentCmd.os c)
def runtime (c : RuntimeCmd) : Act c.Answer := Prog.ask (AgentCmd.runtime c)

/-- `Config`, as far as it is read here. -/
structure Config where
  nodeName : String
  logDir : String := ""
  buildDir : String := ""
  buildkitAddr : String := ""
  volumesDir : String := ""

/-! ### Reading the maps -/

/-- `has`. -/
def has (key : String) : Act Bool := do
  let tp ← runtime (.tracked key)
  return tp.isSome

/-- `podOf`. -/
def podOf (key : String) : Act (Option Pod) := do
  let tp ← runtime (.tracked key)
  return tp.map (·.pod)

/-- `restartCount`. -/
def restartCount (key : String) : Act Int32 := do
  let tp ← runtime (.tracked key)
  return (tp.map (·.restarts)).getD 0

/-- The memory in use, or zero. -/
def residentSet (p : ProcessRef) : Act Int64 := do
  let rss ← os (.residentSet p)
  return rss.getD 0

/-- `memoryUsageBytes`. -/
def memoryUsageBytes (key : String) : Act Int64 := do
  match ← runtime (.tracked key) with
  | none => return 0
  | some tp =>
    if tp.containerID ≠ "" then
      match ← containerd (.taskPid tp.containerID) with
      | .error _ => return 0
      | .ok pid => residentSet (.pid pid)
    else
      match tp.cmd with
      | some i => residentSet (.cmd i)
      | none => return 0

/-- `stillRunning`. -/
def stillRunning (key : String) : Act Bool := do
  match ← runtime (.tracked key) with
  | none => return false
  | some tp =>
    if tp.containerID = "" then return false
    else
      match ← containerd .listTasks with
      | .error _ => return false
      | .ok statuses => return running statuses tp.containerID

/-! ### Starting -/

/-- The image of a container: built, or pulled. -/
def image (cfg : Config) (id : String) (c : Container) : Act (Except String String) := do
  match c.buildSource with
  | some src =>
    let buildDir := if cfg.buildDir = "" then none else some cfg.buildDir
    let buildkitAddr :=
      if cfg.buildkitAddr = "" then "unix:///run/buildkit/buildkitd.sock" else cfg.buildkitAddr
    match ← containerd (.buildImage buildkitAddr buildDir cfg.logDir id src) with
    | .error err => return .error err
    | .ok built => containerd (.localImage built)
  | none => containerd (.pullImage (resolveImageRef c.image))

/-- The path of the log file, if there is a log directory. -/
def logPath (cfg : Config) (id : String) : Act (Except String String) :=
  if cfg.logDir = "" then return .ok "" else os (.openLog cfg.logDir id)

/-- The loop over the volumes of a pod. -/
def mountLoop (cfg : Config) (ns : String) : List VolumeMount → Act (Except String (List Mount))
  | [] => return .ok []
  | m :: volumes => do
    match ← os (.ensureVolumeDir cfg.volumesDir ns m.volumeName) with
    | .error err => return .error err
    | .ok dir =>
      match ← mountLoop cfg ns volumes with
      | .error err => return .error err
      | .ok mounts =>
        return .ok (⟨dir, m.mountPath, ["rbind", if m.readOnly then "ro" else "rw"]⟩ :: mounts)

/-- The mounts of a pod, if there is a directory for volumes. -/
def podMounts (cfg : Config) (pod : Pod) : Act (Except String (List Mount)) :=
  if cfg.volumesDir = "" then return .ok []
  else mountLoop cfg pod.getMetadata.ns pod.getSpec.volumes

/-- `GetResources().GetLimits()`. -/
def limits (c : Container) : ResourceList := ((c.resources.getD {}).limits).getD {}

/-- What `startContainerd` runs. -/
def runSpec (pod : Pod) (image logPath : String) (mounts : List Mount) : ContainerdRunSpec where
  id := containerName pod
  image := image
  command := (firstContainer pod).command
  env := (firstContainer pod).env
  cpuMillis := (limits (firstContainer pod)).cpuMillis
  memBytes := (limits (firstContainer pod)).memoryBytes
  mounts := mounts
  logPath := logPath

/-- `startContainerd`. -/
def startContainerd (cfg : Config) (pod : Pod) : Act (Except String Unit) := do
  let _ ← containerd (.removeContainer (containerName pod))
  match ← image cfg (containerName pod) (firstContainer pod) with
  | .error err => return .error err
  | .ok image =>
    match ← logPath cfg (containerName pod) with
    | .error err => return .error err
    | .ok logPath =>
      match ← podMounts cfg pod with
      | .error err => return .error err
      | .ok mounts =>
        match ← containerd (.runContainer pod (runSpec pod image logPath mounts)) with
        | .error err => return .error err
        | .ok () =>
          let _ ← runtime (.replace { pod := pod, containerID := containerName pod })
          return .ok ()

/-- `startProcess`. -/
def startProcess (pod : Pod) : Act (Except String Unit) := do
  if (firstContainer pod).command = [] then
    return .error ("agent: pod " ++ podKey pod ++
      " has neither a command nor a wasm_module_path to run")
  else
    match ← os (.startCommand pod (firstContainer pod).command) with
    | .error err => return .error err
    | .ok i =>
      let _ ← runtime (.replace { pod := pod, cmd := some i })
      let _ ← os (.wait pod i)
      return .ok ()

/-- `startWASM`. -/
def startWASM (pod : Pod) (modulePath : String) : Act (Except String Unit) := do
  match ← os (.readFile modulePath) with
  | .error err => return .error ("agent: read wasm module " ++ modulePath ++ ": " ++ err)
  | .ok wasmBytes =>
    match ← os .newWasm with
    | .error err => return .error ("agent: init wasm runtime for " ++ modulePath ++ ": " ++ err)
    | .ok i =>
      let _ ← runtime (.replace { pod := pod, wasmRuntime := some i })
      let _ ← os (.runWasm pod i wasmBytes)
      return .ok ()

/-- `start`. -/
def start (cfg : Config) (pod : Pod) : Act (Except String Unit) :=
  let c := firstContainer pod
  if c.wasmModulePath ≠ "" then startWASM pod c.wasmModulePath
  else if c.image ≠ "" ∨ c.buildSource ≠ none then startContainerd cfg pod
  else startProcess pod

/-- `restart`. -/
def restart (cfg : Config) (pod : Pod) : Act (Except String Unit) := do
  let _ ← runtime (.countRestart (podKey pod))
  start cfg pod

/-- `adoptIfRunning`. -/
def adoptIfRunning (pod : Pod) : Act Bool := do
  if (firstContainer pod).image = "" ∧ (firstContainer pod).buildSource = none then return false
  else
    match ← containerd .listTasks with
    | .error _ => return false
    | .ok statuses =>
      if running statuses (containerName pod) then
        let _ ← runtime (.assign { pod := pod, containerID := containerName pod })
        return true
      else return false

/-! ### Stopping, and containers that have exited -/

/-- What `stop` does to a container that was tracked. -/
def endContainer (tp : TrackedProcess) : Act Unit :=
  if tp.containerID = "" then return () else containerd (.removeContainer tp.containerID)

/-- What `stop` does to a command that was tracked. -/
def endCommand (tp : TrackedProcess) : Act Unit :=
  match tp.cmd with
  | none => return ()
  | some i => os (.kill i)

/-- What `stop` does to a WASM runtime that was tracked. -/
def endWASM (tp : TrackedProcess) : Act Unit :=
  match tp.wasmRuntime with
  | none => return ()
  | some i => os (.closeWasm i)

/-- What `stop` does to what was tracked. -/
def endWorkload (tp : TrackedProcess) : Act Unit := do
  endContainer tp
  endCommand tp
  endWASM tp

/-- `stop`. -/
def stop (key : String) : Act Unit := do
  match ← runtime (.untrack key) with
  | none => return ()
  | some tp => endWorkload tp

/-- The loop of `stopAll`. -/
def stopLoop : List String → Act Unit
  | [] => return ()
  | key :: keys => do
    stop key
    stopLoop keys

/-- `stopAll`. -/
def stopAll : Act Unit := do
  let keys ← runtime .keys
  stopLoop keys

/-- The sending loop of `checkContainerdExits`. -/
def sendLoop : List ExitEvent → Act Unit
  | [] => return ()
  | ev :: exits => do
    let _ ← Prog.ask (AgentCmd.send ev)
    sendLoop exits

/-- `checkContainerdExits`. -/
def checkContainerdExits : Act Unit := do
  match ← containerd .listTasks with
  | .error _ => return ()
  | .ok statuses =>
    let exits ← runtime (.confirm statuses)
    sendLoop exits

/-! ### What the functions issue -/

/-- The command changes nothing that is tracked, and starts and stops nothing. -/
def Looks : AgentCmd → Prop
  | .containerd (.runContainer ..) => False
  | .containerd _ => True
  | .os (.openLog ..) | .os (.ensureVolumeDir ..) | .os (.readFile _) | .os (.residentSet _) => True
  | .runtime (.tracked _) | .runtime .keys | .order _ => True
  | _ => False

/-- The command is one of those that take up a pod. -/
def TakesUp (pod : Pod) : AgentCmd → Prop
  | .containerd (.runContainer pod' _) => pod' = pod
  | .os (.startCommand pod' _) | .os (.wait pod' _) | .os (.runWasm pod' _ _) => pod' = pod
  | .os .newWasm => True
  | .runtime (.replace tp) | .runtime (.assign tp) => tp.pod = pod
  | .runtime (.countRestart key) => key = podKey pod
  | c => Looks c

/-- The process is tracked for the pod: under its container, or none. -/
def TrackedFor (pod : Pod) (tp : TrackedProcess) : Prop :=
  tp.pod = pod ∧ (tp.containerID = "" ∨ tp.containerID = containerName pod)

/-- The command is one of those that start or adopt the pod, with the container of the pod. -/
def OfPod (pod : Pod) : AgentCmd → Prop
  | .containerd (.removeContainer id) | .containerd (.buildImage _ _ _ id _)
  | .os (.openLog _ id) => id = containerName pod
  | .containerd (.runContainer pod' spec) => pod' = pod ∧ spec.id = containerName pod
  | .containerd .listTasks | .containerd (.localImage _) | .containerd (.pullImage _) => True
  | .os (.ensureVolumeDir _ ns _) => ns = pod.getMetadata.ns
  | .os (.startCommand pod' _) | .os (.wait pod' _) | .os (.runWasm pod' _ _) => pod' = pod
  | .os .newWasm | .os (.readFile _) => True
  | .runtime (.replace tp) | .runtime (.assign tp) => TrackedFor pod tp
  | _ => False

/-- The command is one of those that end what was tracked. -/
def Ends : AgentCmd → Prop
  | .os (.kill _) | .os (.closeWasm _) => True
  | c => Looks c

/-- The command is one of those that stop what is tracked under a key. -/
def Stops (key : String) : AgentCmd → Prop
  | .runtime (.untrack key') => key' = key
  | c => Ends c

variable {cfg : Config} {c : AgentCmd} {key : String}

section

variable {P : AgentCmd → Prop} {Q : Empty → Prop}

section

variable (hP : ∀ c, Looks c → P c)

include hP

theorem within_has (key : String) : (has key).Within P Q :=
  within_ask_bind.mpr ⟨hP _ trivial, fun _ => trivial⟩

theorem within_podOf (key : String) : (podOf key).Within P Q :=
  within_ask_bind.mpr ⟨hP _ trivial, fun _ => trivial⟩

theorem within_restartCount (key : String) : (restartCount key).Within P Q :=
  within_ask_bind.mpr ⟨hP _ trivial, fun _ => trivial⟩

theorem within_residentSet (p : ProcessRef) : (residentSet p).Within P Q :=
  within_ask_bind.mpr ⟨hP _ trivial, fun _ => trivial⟩

theorem within_memoryUsageBytes (key : String) : (memoryUsageBytes key).Within P Q := by
  refine within_ask_bind.mpr ⟨hP _ trivial, fun tp => ?_⟩
  rcases tp with _ | tp
  · trivial
  simp only
  split
  · refine Within.bind_ok (within_ask.mpr (hP _ trivial)) fun pid => ?_
    exact within_residentSet hP _
  · split
    · exact within_residentSet hP _
    · trivial

theorem within_stillRunning (key : String) : (stillRunning key).Within P Q := by
  refine within_ask_bind.mpr ⟨hP _ trivial, fun tp => ?_⟩
  rcases tp with _ | tp
  · trivial
  simp only
  split
  · trivial
  · refine within_ask_bind.mpr ⟨hP _ trivial, fun x => ?_⟩
    cases x <;> trivial

theorem within_image (cfg : Config) (id : String) (c : Container) :
    (image cfg id c).Within P Q := by
  rw [image]
  split
  · refine Within.bind_ok (within_ask.mpr (hP _ trivial)) fun built => ?_
    exact within_ask.mpr (hP _ trivial)
  · exact within_ask.mpr (hP _ trivial)

end

theorem within_logPath {id : String} (hP : P (.os (.openLog cfg.logDir id))) :
    (logPath cfg id).Within P Q := by
  rw [logPath]
  split
  · trivial
  · exact within_ask.mpr hP

theorem within_mountLoop {ns : String}
    (hP : ∀ name, P (.os (.ensureVolumeDir cfg.volumesDir ns name))) :
    ∀ volumes, (mountLoop cfg ns volumes).Within P Q
  | [] => trivial
  | m :: volumes => by
    refine Within.bind_ok (within_ask.mpr (hP _)) fun dir => ?_
    refine Within.bind (within_mountLoop hP volumes) fun x => ?_
    cases x <;> trivial

theorem within_podMounts {pod : Pod}
    (hP : ∀ name, P (.os (.ensureVolumeDir cfg.volumesDir pod.getMetadata.ns name))) :
    (podMounts cfg pod).Within P Q := by
  rw [podMounts]
  split
  · trivial
  · exact within_mountLoop hP _

variable {pod : Pod}

theorem takesUp_of_looks (h : Looks c) : TakesUp pod c := by
  rcases c with c | c | c | c | c | c | c | c <;> try exact h
  all_goals cases c <;> first | exact h | cases h

theorem stops_of_ends (h : Ends c) : Stops key c := by
  rcases c with c | c | c | c | c | c | c | c <;> try exact h
  cases c <;> first | exact h | cases h

theorem ofPod_image (cfg : Config) :
    (image cfg (containerName pod) (firstContainer pod)).Within (OfPod pod) Q := by
  rw [image]
  split
  · refine Within.bind_ok (within_ask.mpr rfl) fun built => ?_
    exact within_ask.mpr trivial
  · exact within_ask.mpr trivial

theorem ofPod_startContainerd (cfg : Config) : (startContainerd cfg pod).Within (OfPod pod) Q := by
  refine within_ask_bind.mpr ⟨rfl, fun _ => ?_⟩
  refine Within.bind_ok (ofPod_image cfg) fun image => ?_
  refine Within.bind_ok (within_logPath rfl) fun logPath => ?_
  refine Within.bind_ok (within_podMounts fun _ => rfl) fun mounts => ?_
  refine Within.bind_ok (within_ask.mpr ⟨rfl, rfl⟩) fun _ => ?_
  exact within_ask_bind.mpr ⟨⟨rfl, .inr rfl⟩, fun _ => trivial⟩

/-- **A start is for its pod**, and for the container of its pod. -/
theorem ofPod_start (cfg : Config) : (start cfg pod).Within (OfPod pod) Q := by
  rw [start]
  split
  · refine Within.bind_ok (within_ask.mpr trivial) fun wasmBytes => ?_
    refine Within.bind_ok (within_ask.mpr trivial) fun i => ?_
    refine within_ask_bind.mpr ⟨⟨rfl, .inl rfl⟩, fun _ => ?_⟩
    exact within_ask_bind.mpr ⟨rfl, fun _ => trivial⟩
  · split
    · exact ofPod_startContainerd cfg
    · rw [startProcess]
      split
      · trivial
      · refine Within.bind_ok (within_ask.mpr rfl) fun i => ?_
        refine within_ask_bind.mpr ⟨⟨rfl, .inl rfl⟩, fun _ => ?_⟩
        exact within_ask_bind.mpr ⟨rfl, fun _ => trivial⟩

theorem ofPod_adoptIfRunning : (adoptIfRunning pod).Within (OfPod pod) Q := by
  rw [adoptIfRunning]
  split
  · trivial
  · refine Within.bind_ok (within_ask.mpr trivial) fun statuses => ?_
    simp only
    split
    · exact within_ask_bind.mpr ⟨⟨rfl, .inr rfl⟩, fun _ => trivial⟩
    · trivial

theorem takesUp_of_ofPod (h : OfPod pod c) : TakesUp pod c := by
  rcases c with c | c | c | c | c | c | c | c <;> try cases h
  all_goals cases c <;> first | exact h | exact h.1 | trivial

/-- **Starting a pod** takes up that pod and no other. -/
theorem within_start (hP : ∀ c, TakesUp pod c → P c) (cfg : Config) : (start cfg pod).Within P Q :=
  (ofPod_start cfg).weaken (fun c h => hP c (takesUp_of_ofPod h)) fun _ h => h

theorem within_adoptIfRunning (hP : ∀ c, TakesUp pod c → P c) : (adoptIfRunning pod).Within P Q :=
  ofPod_adoptIfRunning.weaken (fun c h => hP c (takesUp_of_ofPod h)) fun _ h => h

theorem within_restart (hP : ∀ c, TakesUp pod c → P c) (cfg : Config) :
    (restart cfg pod).Within P Q :=
  within_ask_bind.mpr ⟨hP _ rfl, fun _ => within_start hP cfg⟩

theorem within_endWorkload (hP : ∀ c, Ends c → P c) (tp : TrackedProcess) :
    (endWorkload tp).Within P Q := by
  refine Within.bind ?_ fun _ => Within.bind ?_ fun _ => ?_
  · rw [endContainer]
    split
    · trivial
    · exact within_ask.mpr (hP _ trivial)
  · rw [endCommand]
    split
    · trivial
    · exact within_ask.mpr (hP _ trivial)
  · rw [endWASM]
    split
    · trivial
    · exact within_ask.mpr (hP _ trivial)

/-- **Stopping** stops what is tracked under the key. -/
theorem within_stop (hP : ∀ c, Stops key c → P c) : (stop key).Within P Q := by
  refine within_ask_bind.mpr ⟨hP _ rfl, fun tp => ?_⟩
  cases tp with
  | none => trivial
  | some tp => exact within_endWorkload (fun c h => hP c (stops_of_ends h)) tp

theorem within_stopLoop (hP : ∀ key c, Stops key c → P c) : ∀ keys, (stopLoop keys).Within P Q
  | [] => trivial
  | key :: keys => Within.bind (within_stop (hP key)) fun _ => within_stopLoop hP keys

theorem within_stopAll (hP : ∀ key c, Stops key c → P c) : stopAll.Within P Q :=
  within_ask_bind.mpr ⟨hP "" _ trivial, fun keys => within_stopLoop hP keys⟩

theorem within_sendLoop (hP : ∀ ev, P (.send ev)) : ∀ exits, (sendLoop exits).Within P Q
  | [] => trivial
  | ev :: exits => within_ask_bind.mpr ⟨hP ev, fun _ => within_sendLoop hP exits⟩

theorem within_checkContainerdExits (hL : ∀ c, Looks c → P c)
    (hC : ∀ statuses, P (.runtime (.confirm statuses))) (hS : ∀ ev, P (.send ev)) :
    checkContainerdExits.Within P Q := by
  refine Within.bind_ok (within_ask.mpr (hL _ trivial)) fun statuses => ?_
  exact within_ask_bind.mpr ⟨hC statuses, fun exits => within_sendLoop hS exits⟩

end

end NimbusCore.Agent
