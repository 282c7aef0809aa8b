import NimbusCore.Agent.HostFiles

/-!
# Agent — the paths of a pod

A start joins texts of the pod to the directories of the configuration.  Joining cleans: what goes
up more often than down leaves the directory it was joined to, and nothing of a pod is checked for
that.

`paths_confined_iff`: **every path lies inside the directory it is meant for**, in every
configuration and whatever is answered, exactly if each of these texts leads down (`StaysDown`): the
name of the container, for the build; it with the context path, and with the directory of the
Dockerfile; it with the endings of the log files; the namespace with the name of each volume.
-/

namespace NimbusCore.Agent

open Api Apiserver Registry UnixPath Prog List

/-! ### Inside a directory -/

/-- The path lies below the directory, with every text cleaned. -/
def Inside (dir path : String) : Prop := (parse dir).Below (parse path)

instance (dir path : String) : Decidable (Inside dir path) :=
  inferInstanceAs (Decidable (Below _ _))

theorem inside_join {dir s : String} (hdir : dir ≠ "") (hs : LeadsDown s) :
    Inside dir (joinPath [dir, s]) := by
  rw [Inside, parse_join hdir]
  exact hs.below _

theorem inside_join₂ {dir s t : String} (hdir : dir ≠ "") (hst : LeadsDown (s ++ "/" ++ t)) :
    Inside dir (joinPath [dir, s, t]) := by
  have h := hst.below (parse dir)
  rw [walk_slash] at h
  rw [Inside, parse_join hdir]
  exact h

theorem inside_join_join {dir s t : String} (hdir : dir ≠ "") (hst : LeadsDown (s ++ "/" ++ t)) :
    Inside dir (joinPath [joinPath [dir, s], t]) := by
  have h := hst.below (parse dir)
  rw [walk_slash] at h
  rw [Inside, parse_join (joinPath_ne_empty mem_cons_self hdir), foldl_cons,
    foldl_nil, parse_join hdir]
  exact h

/-- A name leads on. -/
theorem Inside.join {dir path name : String} (h : Inside dir path) (hpath : path ≠ "")
    (hname : LeadsDown name) : Inside dir (joinPath [path, name]) := by
  exact Below.trans_contains h (inside_join hpath hname).1

/-- The working directory shows which texts lead down. -/
theorem leadsDown_of_inside {s : String} (h : Inside "." (joinPath [".", s])) : LeadsDown s := by
  rw [Inside, parse_join (by decide)] at h
  exact leadsDown_of_here h

/-! ### The condition -/

/-- The pod is run as a container. -/
def RunsContainer (pod : Pod) : Prop :=
  (firstContainer pod).wasmModulePath = "" ∧
    ((firstContainer pod).image ≠ "" ∨ (firstContainer pod).buildSource ≠ none)

/-- The texts of a build lead down. -/
structure BuildsDown (id : String) (src : BuildSource) : Prop where
  work : LeadsDown id
  context : LeadsDown (id ++ "/" ++ src.contextPath)
  dockerfile : LeadsDown (id ++ "/" ++ dirPath src.dockerfilePath)
  log : LeadsDown (id ++ ".build.log")

/-- The texts of a pod lead down. -/
structure StaysDown (pod : Pod) : Prop where
  build : ∀ src, (firstContainer pod).buildSource = some src → BuildsDown (containerName pod) src
  log : LeadsDown (containerName pod ++ ".log")
  volumes : ∀ v ∈ pod.getSpec.volumes, LeadsDown (pod.getMetadata.ns ++ "/" ++ v.volumeName)

/-- The paths of a command lie inside the directories they are meant for.  The directory of the logs
is itself made; what is only read is not asked about. -/
def Confined (env : Env) : HostCmd → Prop
  | .file tree (.mkdirAll path) => path = env.base tree ∨ Inside (env.base tree) path
  | .file tree (.removeAll path) | .file tree (.create path) | .file tree (.remove path)
  | .file tree (.writeFile path _) => Inside (env.base tree) path
  | .file _ (.stat _) | .file _ (.readFile _) | .file _ (.readDir _) => True
  | .clone dir _ _ => Inside (env.base .builds) dir
  | .buildctl _ contextDir dockerfileDir _ =>
    Inside (env.base .builds) contextDir ∧ Inside (env.base .builds) dockerfileDir
  | .agent (.containerd (.runContainer _ spec)) =>
    (spec.logPath = "" ∨ Inside (env.base .logs) spec.logPath) ∧
      ∀ m ∈ spec.mounts, Inside (env.base .volumes) m.source
  | .agent _ => True

/-! ### What leads down stays inside -/

section

variable {json : Json} {env : Env}

theorem base_builds_ne : env.base .builds ≠ "" := by
  rw [Env.base]
  split
  · exact joinPath_ne_empty (s := "nimbus-builds") (by simp) (by decide)
  · assumption

variable {id : String} {src : BuildSource}

/-- The contract of the programs on files: every answer is possible. -/
abbrev Keeps (env : Env) {α : Type} (p : Host α) (Φ : α → Prop) : Prop :=
  p.Ensures (fun _ _ => True) (Confined env) Φ

theorem inside_contextDir (h : BuildsDown id src) :
    Inside (env.base .builds) (contextDir (joinPath [env.base .builds, id]) src) := by
  rw [contextDir]
  split
  · exact inside_join base_builds_ne h.work
  · exact inside_join_join base_builds_ne h.context

theorem inside_dockerfileDir (env : Env) (h : BuildsDown id src) :
    Inside (env.base .builds) (dockerfileDir (joinPath [env.base .builds, id]) src) := by
  rw [dockerfileDir]
  split
  · exact inside_contextDir h
  · exact inside_join_join base_builds_ne h.dockerfile

theorem keeps_fetchSource (h : BuildsDown id src) :
    Keeps env (fetchSource (joinPath [env.base .builds, id]) src) fun _ => True := by
  have hwork : Inside (env.base .builds) (joinPath [env.base .builds, id]) :=
    inside_join base_builds_ne h.work
  refine ensures_ask_bind.mpr ⟨hwork, fun x _ => ?_⟩
  rcases x with err | _
  · trivial
  refine ensures_ask_bind.mpr ⟨.inr hwork, fun x _ => ?_⟩
  rcases x with err | _
  · trivial
  refine ensures_ask_bind.mpr ⟨hwork, fun x _ => ?_⟩
  cases x <;> trivial

theorem keeps_openBuildLog (h : LeadsDown (id ++ ".build.log")) :
    Keeps env (openBuildLog env.cfg.logDir id) fun _ => True := by
  rw [openBuildLog]
  split
  · trivial
  · next hdir =>
    refine ensures_ask_bind.mpr ⟨.inl rfl, fun x _ => ?_⟩
    rcases x with err | _
    · trivial
    refine ensures_ask_bind.mpr ⟨inside_join hdir h, fun x _ => ?_⟩
    cases x <;> trivial

theorem keeps_detectDockerfile (dir : String) :
    Keeps env (detectDockerfile json dir) fun _ => True := by
  refine ensures_ask_bind.mpr ⟨trivial, fun x _ => ?_⟩
  cases x with
  | ok pkgJSON => trivial
  | error err =>
    refine ensures_ask_bind.mpr ⟨trivial, fun x _ => ?_⟩
    cases x <;> trivial

theorem dockerfileDir_ne : dockerfileDir (joinPath [env.base .builds, id]) src ≠ "" := by
  have hwork : joinPath [env.base .builds, id] ≠ "" :=
    joinPath_ne_empty mem_cons_self base_builds_ne
  rw [dockerfileDir, contextDir]
  split
  · split
    · exact hwork
    · exact joinPath_ne_empty mem_cons_self hwork
  · exact joinPath_ne_empty mem_cons_self hwork

theorem keeps_generateDockerfile (h : BuildsDown id src) :
    Keeps env (generateDockerfile json (joinPath [env.base .builds, id]) src) fun _ => True := by
  rw [generateDockerfile]
  split
  · trivial
  · refine ensures_ask_bind.mpr ⟨trivial, fun x _ => ?_⟩
    rcases x with ⟨notExist, text⟩ | isDir
    · cases notExist with
      | false => trivial
      | true =>
        refine .bind_of_ok (fun _ => trivial) (keeps_detectDockerfile _) fun generated _ => ?_
        have hname : LeadsDown "Dockerfile" := by decide
        have hfile := (inside_dockerfileDir env h).join dockerfileDir_ne hname
        refine ensures_ask_bind.mpr ⟨hfile, fun x _ => ?_⟩
        cases x <;> trivial
    · trivial

theorem keeps_buildImageFromSource (json : Json) (env : Env) (h : BuildsDown id src)
    (addr : String) :
    Keeps env
      (buildImageFromSource json addr (joinPath [env.base .builds, id]) env.cfg.logDir id src)
      fun _ => True := by
  refine .bind_of_ok (fun _ => trivial) (keeps_fetchSource h) fun _ _ => ?_
  refine .bind_of_ok (fun _ => trivial) (keeps_openBuildLog h.log) fun _ _ => ?_
  refine .bind_of_ok (fun _ => trivial) (keeps_generateDockerfile h) fun _ _ => ?_
  refine ensures_ask_bind.mpr
    ⟨⟨inside_contextDir h, inside_dockerfileDir env h⟩, fun x _ => ?_⟩
  cases x <;> trivial

/-- The answers of the commands that return a path. -/
def Returned (env : Env) : (c : AgentCmd) → c.Answer → Prop
  | .os (.openLog ..), x => ∀ path, x = .ok path → Inside (env.base .logs) path
  | .os (.ensureVolumeDir ..), x => ∀ path, x = .ok path → Inside (env.base .volumes) path
  | _, _ => True

/-- The commands whose texts lead down. -/
def Fits (env : Env) : AgentCmd → Prop
  | .containerd (.buildImage _ buildDir logDir id src) =>
    buildDir.getD (joinPath [env.tempDir, "nimbus-builds"]) = env.base .builds ∧
      logDir = env.cfg.logDir ∧ BuildsDown id src
  | .os (.openLog logDir id) => logDir = env.cfg.logDir ∧ logDir ≠ "" ∧ LeadsDown (id ++ ".log")
  | .os (.ensureVolumeDir dir ns volumeName) =>
    dir = env.cfg.volumesDir ∧ dir ≠ "" ∧ LeadsDown (ns ++ "/" ++ volumeName)
  | c => Confined env (.agent c)

theorem keeps_openLog (hdir : env.cfg.logDir ≠ "") (h : LeadsDown (id ++ ".log")) :
    Keeps env (openLog env.cfg.logDir id) fun x =>
      ∀ path, x = .ok path → Inside (env.base .logs) path := by
  have hpath : Inside (env.base .logs) (logFilePath env.cfg.logDir id) := inside_join hdir h
  refine ensures_ask_bind.mpr ⟨.inl rfl, fun x _ => ?_⟩
  rcases x with err | _
  · exact fun path hx => by cases hx
  refine ensures_ask_bind.mpr ⟨hpath, fun _ _ => ?_⟩
  rintro path ⟨⟩
  exact hpath

theorem keeps_ensureVolumeDir (hdir : env.cfg.volumesDir ≠ "") {ns volumeName : String}
    (h : LeadsDown (ns ++ "/" ++ volumeName)) :
    Keeps env (ensureVolumeDir env.cfg.volumesDir ns volumeName) fun x =>
      ∀ path, x = .ok path → Inside (env.base .volumes) path := by
  have hpath := inside_join₂ hdir h
  refine ensures_ask_bind.mpr ⟨.inr hpath, fun x _ => ?_⟩
  rcases x with err | _
  · exact fun path hx => by cases hx
  rintro path ⟨⟩
  exact hpath

/-- What carries out a command keeps to its contract. -/
theorem keeps_onHost (c : AgentCmd) (h : Fits env c) :
    Keeps env (onHost json env.tempDir c) (Returned env c) := by
  rcases c with c | c | c | c | c | c | c | c
  case containerd =>
    cases c
    case buildImage addr buildDir logDir id src =>
      obtain ⟨hbase, rfl, hdown⟩ := h
      have hkeeps := keeps_buildImageFromSource json env hdown addr
      rw [← hbase] at hkeeps
      exact hkeeps
    all_goals exact ⟨h, fun _ _ => trivial⟩
  case os =>
    cases c
    case openLog logDir id =>
      obtain ⟨rfl, hdir, hdown⟩ := h
      exact keeps_openLog hdir hdown
    case ensureVolumeDir dir ns volumeName =>
      obtain ⟨rfl, hdir, hdown⟩ := h
      exact keeps_ensureVolumeDir hdir hdown
    all_goals exact ⟨h, fun _ _ => trivial⟩
  all_goals exact ⟨h, fun _ _ => trivial⟩

variable {pod : Pod}

theorem ensures_image (h : StaysDown pod) :
    (image env.cfg (containerName pod) (firstContainer pod)).Ensures (Returned env) (Fits env)
      fun _ => True := by
  rw [image]
  split
  · next src hsrc =>
    have hbase : (if env.cfg.buildDir = "" then none else some env.cfg.buildDir).getD
        (joinPath [env.tempDir, "nimbus-builds"]) = env.base .builds := by
      rw [Env.base]
      split <;> rfl
    refine .bind_of_ok (fun _ => trivial) (ensures_asked ⟨hbase, rfl, h.build src hsrc⟩)
      fun built _ => ?_
    exact ⟨trivial, fun _ _ => trivial⟩
  · exact ⟨trivial, fun _ _ => trivial⟩

theorem ensures_logPath (h : StaysDown pod) :
    (logPath env.cfg (containerName pod)).Ensures (Returned env) (Fits env) fun x =>
      ∀ path, x = .ok path → path = "" ∨ Inside (env.base .logs) path := by
  rw [logPath]
  split
  · rintro path ⟨⟩
    exact .inl rfl
  · next hdir => exact ⟨⟨rfl, hdir, h.log⟩, fun x hx path hp => .inr (hx path hp)⟩

theorem ensures_mountLoop (hdir : env.cfg.volumesDir ≠ "") {ns : String} :
    ∀ {volumes : List VolumeMount}, (∀ v ∈ volumes, LeadsDown (ns ++ "/" ++ v.volumeName)) →
      (mountLoop env.cfg ns volumes).Ensures (Returned env) (Fits env) fun x =>
        ∀ mounts, x = .ok mounts → ∀ m ∈ mounts, Inside (env.base .volumes) m.source
  | [], _ => by
    rintro mounts ⟨⟩ m hm
    cases hm
  | v :: volumes, h => by
    obtain ⟨hv, hvs⟩ := forall_mem_cons.mp h
    refine ensures_ask_bind.mpr ⟨⟨rfl, hdir, hv⟩, fun x hx => ?_⟩
    rcases x with err | dir
    · exact fun mounts hm => by cases hm
    refine Ensures.bind (ensures_mountLoop hdir hvs) fun x hrest => ?_
    rcases x with err | mounts
    · exact fun mounts hm => by cases hm
    rintro _ ⟨⟩ m hm
    rcases mem_cons.mp hm with rfl | hm
    · exact hx dir rfl
    · exact hrest mounts rfl m hm

theorem ensures_podMounts (h : StaysDown pod) :
    (podMounts env.cfg pod).Ensures (Returned env) (Fits env) fun x =>
      ∀ mounts, x = .ok mounts → ∀ m ∈ mounts, Inside (env.base .volumes) m.source := by
  rw [podMounts]
  split
  · rintro mounts ⟨⟩ m hm
    cases hm
  · next hdir => exact ensures_mountLoop hdir h.volumes

theorem ensures_startContainerd (h : StaysDown pod) :
    (startContainerd env.cfg pod).Ensures (Returned env) (Fits env) fun _ => True := by
  refine ensures_ask_bind.mpr ⟨trivial, fun _ _ => ?_⟩
  refine .bind_of_ok (fun _ => trivial) (ensures_image h) fun image _ => ?_
  refine .bind_of_ok (fun _ => trivial) (ensures_logPath h) fun logPath hlog => ?_
  refine .bind_of_ok (fun _ => trivial) (ensures_podMounts h) fun mounts hmounts => ?_
  refine .bind_of_ok (fun _ => trivial) (ensures_asked ⟨hlog _ rfl, hmounts _ rfl⟩) fun _ _ => ?_
  exact ensures_ask_bind.mpr ⟨trivial, fun _ _ => trivial⟩

theorem ensures_startProcess :
    (startProcess pod).Ensures (Returned env) (Fits env) fun _ => True := by
  rw [startProcess]
  split
  · trivial
  · refine .bind_of_ok (fun _ => trivial) (ensures_asked trivial) fun i _ => ?_
    exact ⟨trivial, fun _ _ => ⟨trivial, fun _ _ => trivial⟩⟩

theorem ensures_startWASM (modulePath : String) :
    (startWASM pod modulePath).Ensures (Returned env) (Fits env) fun _ => True := by
  refine .bind_of_ok (fun _ => trivial) (ensures_asked trivial) fun wasmBytes _ => ?_
  refine .bind_of_ok (fun _ => trivial) (ensures_asked trivial) fun i _ => ?_
  exact ⟨trivial, fun _ _ => ⟨trivial, fun _ _ => trivial⟩⟩

/-- **A pod whose texts lead down** is started with every path inside. -/
theorem keeps_startOnHost (h : RunsContainer pod → StaysDown pod) :
    Keeps env (startOnHost json env pod) fun _ => True := by
  refine Ensures.expand keeps_onHost ?_
  rw [start]
  split
  · exact ensures_startWASM _
  · next hwasm =>
    split
    · next himage => exact ensures_startContainerd (h ⟨not_not.mp hwasm, himage⟩)
    · exact ensures_startProcess

end

/-! ### What stays inside leads down -/

/-- Answers of a node on which everything goes well. -/
def obliging : (c : HostCmd) → c.Answer
  | .file _ (.stat _) => .ok true
  | .file _ (.readFile _) => .ok []
  | .file _ (.readDir _) => .ok []
  | .file _ (.removeAll _) | .file _ (.mkdirAll _) | .file _ (.create _) | .file _ (.remove _)
  | .file _ (.writeFile ..) | .clone .. | .buildctl .. => .ok ()
  | .agent (.api .listPods) => .ok []
  | .agent (.api (.updatePodStatus _)) | .agent (.containerd (.runContainer ..)) => .ok ()
  | .agent (.containerd .listTasks) => .ok ∅
  | .agent (.containerd (.taskPid _)) => .ok 0
  | .agent (.containerd (.buildImage ..)) | .agent (.containerd (.localImage _))
  | .agent (.containerd (.pullImage _)) | .agent (.os (.openLog ..))
  | .agent (.os (.ensureVolumeDir ..)) => .ok ""
  | .agent (.os (.startCommand ..)) | .agent (.os .newWasm) => .ok 0
  | .agent (.os (.readFile _)) => .ok []
  | .agent (.os (.residentSet _)) | .agent (.runtime (.tracked _))
  | .agent (.runtime (.untrack _)) => none
  | .agent (.runtime .keys) | .agent (.runtime (.confirm _)) | .agent (.order _) => []
  | .agent (.containerd (.removeContainer _)) | .agent (.os (.wait ..)) | .agent (.os (.runWasm ..))
  | .agent (.os (.kill _)) | .agent (.os (.closeWasm _)) | .agent (.runtime (.replace _))
  | .agent (.runtime (.assign _)) | .agent (.runtime (.countRestart _)) | .agent (.send _)
  | .agent .reconcileServices | .agent .stopNodePorts => ()

/-- What comes after what goes well is confined with it. -/
theorem Keeps.after {env : Env} {α β : Type} {p : Host α} {g : α → Host β} {Φ : β → Prop} {a : α}
    (h : Keeps env (p >>= g) Φ) (ha : p.outcome obliging = .ok a) : Keeps env (g a) Φ :=
  Ensures.after (f := obliging) (fun _ => trivial) h ha

/-- The configuration in which every directory is the working directory. -/
def flatEnv : Env where
  cfg := { nodeName := "", logDir := ".", buildDir := ".", volumesDir := "." }
  tempDir := "."

section

variable {json : Json} {pod : Pod} {id : String} {src : BuildSource}

theorem leadsDown_slash_empty (h : LeadsDown id) : LeadsDown (id ++ "/" ++ "") := by
  apply leadsDown_of_here
  rw [walk_slash, walk_empty]
  exact h.below here

theorem leadsDown_of_inside_join {s t : String} (h : Inside "." (joinPath [joinPath [".", s], t])) :
    LeadsDown (s ++ "/" ++ t) := by
  apply leadsDown_of_here
  rw [Inside, parse_join (joinPath_ne_empty mem_cons_self (by decide)), foldl_cons,
    foldl_nil, parse_join (by decide)] at h
  rw [walk_slash]
  exact h

theorem leadsDown_of_inside_join₂ {s t : String} (h : Inside "." (joinPath [".", s, t])) :
    LeadsDown (s ++ "/" ++ t) := by
  apply leadsDown_of_here
  rw [Inside, parse_join (by decide)] at h
  rw [walk_slash]
  exact h

theorem leadsDown_contextDir (hwork : LeadsDown id)
    (h : Inside "." (contextDir (joinPath [".", id]) src)) :
    LeadsDown (id ++ "/" ++ src.contextPath) := by
  rw [contextDir] at h
  split at h
  · next hempty => exact hempty ▸ leadsDown_slash_empty hwork
  · exact leadsDown_of_inside_join h

theorem leadsDown_dockerfileDir (hwork : LeadsDown id)
    (h : Inside "." (dockerfileDir (joinPath [".", id]) src)) :
    LeadsDown (id ++ "/" ++ dirPath src.dockerfilePath) := by
  rw [dockerfileDir] at h
  split at h
  · next hempty =>
    apply leadsDown_of_here
    rw [hempty, walk_slash]
    exact hwork.below here
  · exact leadsDown_of_inside_join h

theorem outcome_openBuildLog (logDir : String) :
    (openBuildLog logDir id).outcome obliging = .ok (.ok ()) := by
  rw [openBuildLog]
  split <;> rfl

theorem outcome_generateDockerfile (workDir : String) :
    (generateDockerfile json workDir src).outcome obliging = .ok (.ok ()) := by
  rw [generateDockerfile]
  split <;> rfl

theorem outcome_buildImageFromSource (addr workDir logDir : String) :
    (buildImageFromSource json addr workDir logDir id src).outcome obliging =
      .ok (.ok ("docker.io/library/" ++ id ++ ":latest")) := by
  rw [buildImageFromSource, outcome_bind (a := .ok ()) rfl]
  simp only
  rw [outcome_bind (outcome_openBuildLog logDir)]
  simp only
  rw [outcome_bind (outcome_generateDockerfile workDir)]
  rfl

/-- A build that stays inside the working directory leads down. -/
theorem buildsDown_of_keeps {addr : String}
    (h : Keeps flatEnv (buildImageFromSource json addr (joinPath [".", id]) "." id src)
      fun _ => True) : BuildsDown id src := by
  have hwork : LeadsDown id := leadsDown_of_inside h.1
  have hlog := Keeps.after h (a := .ok ()) rfl
  have hgen := Keeps.after hlog (outcome_openBuildLog ".")
  have hbuild := Keeps.after hgen (outcome_generateDockerfile _)
  have hcreate : Inside "." (buildLogFilePath "." id) := (hlog.2 (.ok ()) trivial).1
  exact ⟨hwork, leadsDown_contextDir hwork hbuild.1.1, leadsDown_dockerfileDir hwork hbuild.1.2,
    leadsDown_of_inside hcreate⟩

/-- The source of the mount of a volume, in the working directory. -/
def flatMount (ns : String) (v : VolumeMount) : Mount :=
  ⟨joinPath [".", ns, v.volumeName], v.mountPath, ["rbind", if v.readOnly then "ro" else "rw"]⟩

theorem source_flatMount (ns : String) (v : VolumeMount) :
    (flatMount ns v).source = joinPath [".", ns, v.volumeName] := by rw [flatMount]

theorem outcome_mountLoop (ns : String) : ∀ volumes : List VolumeMount,
    ((mountLoop flatEnv.cfg ns volumes).expand (onHost json ".")).outcome obliging =
      .ok (.ok (volumes.map (flatMount ns)))
  | [] => rfl
  | v :: volumes => by
    have ih := outcome_mountLoop ns volumes
    rw [mountLoop, expand_bind, outcome_bind (a := .ok (joinPath [".", ns, v.volumeName])) rfl]
    simp only
    rw [expand_bind, outcome_bind ih]
    rfl

theorem outcome_image (json : Json) (pod : Pod) (id : String) :
    ∃ ref, ((image flatEnv.cfg id (firstContainer pod)).expand (onHost json ".")).outcome obliging =
      .ok (.ok ref) := by
  rw [image]
  split
  · next src hsrc =>
    refine ⟨"", ?_⟩
    rw [expand_bind, containerd, expand_ask]
    exact outcome_bind (outcome_buildImageFromSource ..)
  · exact ⟨"", rfl⟩

theorem onHost_buildImage (addr : String) :
    onHost json flatEnv.tempDir (.containerd (.buildImage addr
      (if flatEnv.cfg.buildDir = "" then none else some flatEnv.cfg.buildDir)
      flatEnv.cfg.logDir id src)) =
      buildImageFromSource json addr (joinPath [".", id]) "." id src := by
  rw [if_neg (by decide)]
  rfl

/-- **A pod that is started inside the working directory** has texts that lead down. -/
theorem staysDown_of_keeps (hrun : RunsContainer pod)
    (h : Keeps flatEnv (startOnHost json flatEnv pod) fun _ => True) : StaysDown pod := by
  rw [startOnHost, start, if_neg (not_not.mpr hrun.1), if_pos hrun.2, startContainerd,
    expand_bind] at h
  have himage := Keeps.after h (a := ()) rfl
  simp only [expand_bind] at himage
  obtain ⟨ref, href⟩ := outcome_image json pod (containerName pod)
  have hlog := Keeps.after himage href
  simp only [expand_bind] at hlog
  have hmounts := Keeps.after hlog (a := .ok (logFilePath "." (containerName pod))) rfl
  have hpod : podMounts flatEnv.cfg pod =
      mountLoop flatEnv.cfg pod.getMetadata.ns pod.getSpec.volumes := if_neg (by decide)
  simp only [expand_bind, hpod] at hmounts
  have hend := Keeps.after hmounts (outcome_mountLoop _ _)
  simp only [expand_bind, containerd, expand_ask] at hend
  have hspec : Confined flatEnv (.agent (.containerd (.runContainer pod
    (runSpec pod ref (logFilePath "." (containerName pod))
      (pod.getSpec.volumes.map (flatMount pod.getMetadata.ns)))))) := hend.1
  refine ⟨fun src hsrc => ?_, ?_, fun v hv => ?_⟩
  · have hbuild := Ensures.before himage
    rw [image, hsrc] at hbuild
    simp only [expand_bind, containerd, expand_ask, onHost_buildImage] at hbuild
    exact buildsDown_of_keeps (Ensures.before hbuild)
  · have hremove := (Ensures.before hlog).2 (.ok ()) trivial
    have hpath : Inside "." (joinPath [".", containerName pod ++ ".log"]) := hremove.1
    exact leadsDown_of_inside hpath
  · have hmem : flatMount pod.getMetadata.ns v ∈
        pod.getSpec.volumes.map (flatMount pod.getMetadata.ns) := mem_map_of_mem hv
    have hsource : Inside "." (flatMount pod.getMetadata.ns v).source := hspec.2 _ hmem
    rw [source_flatMount] at hsource
    exact leadsDown_of_inside_join₂ hsource

/-- **The paths of a pod are confined exactly if its texts lead down.** -/
theorem paths_confined_iff (json : Json) (pod : Pod) :
    (∀ env, Keeps env (startOnHost json env pod) fun _ => True) ↔
      (RunsContainer pod → StaysDown pod) :=
  ⟨fun h hrun => staysDown_of_keeps hrun (h flatEnv), fun h _ => keeps_startOnHost h⟩

/-- A pod of a namespace that climbs, built from a repository. -/
def climbingPod : Pod where
  metadata := some { name := "web", ns := "x/../../etc" }
  spec := some
    { containers := [{ name := "c", buildSource := some { repoUrl := "app.git" } }] }

/-- **A pod that is accepted, and whose build removes a directory beside the directory of
builds.** -/
theorem climbingPod_escapes :
    (createPod [] climbingPod).Runs serve State.empty (.ok (.ok climbingPod))
        (State.empty.set .pods ((State.empty .pods).insert "x/../../etc/web" climbingPod)) ∧
      joinPath [flatEnv.base .builds, containerName climbingPod] = "../etc-web" ∧
      ∀ json, ¬ Keeps flatEnv (startOnHost json flatEnv climbingPod) fun _ => True := by
  refine ⟨?_, by decide, fun json h => ?_⟩
  · exact (yields_createPod (by decide) (by simp) _ _).mpr ⟨_, rfl, rfl, rfl⟩
  · have hdown := (staysDown_of_keeps ⟨rfl, .inr (by decide)⟩ h).build _ rfl
    exact absurd hdown.work (by decide)

end

end NimbusCore.Agent
