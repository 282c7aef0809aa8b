import NimbusCore.Agent.Runtime
import NimbusCore.Support.Expansion
import NimbusCore.Support.Walks

/-!
# Agent — files of the node

What starting a pod does to the files of its node: `internal/agent/build.go`, and the parts of
`internal/agent/process.go` that prepare the log file and the directories of the volumes.  The
programs of the runtime name these as single commands; here each of them is a program over commands
on files (`onHost`), so that a start can be followed down to the paths it uses (`startOnHost`).

Every command on a file carries the tree that its path is meant for.  The tree changes nothing: it
says which directory of the configuration the path was joined to.  `filepath.Abs` is left out, since
the path it makes names the same file, and so is the text that is written to the build log.
-/

namespace NimbusCore.Agent

open Api

/-! ### Commands -/

/-- An error of the file system, and whether it says that there is no such file. -/
structure FileError where
  notExist : Bool
  text : String

/-- `os.DirEntry`, with its `Info` if there is one. -/
structure DirEntry where
  name : String
  isDir : Bool
  info : Option (Int64 × Int64)

/-- The functions of `os` on files. -/
inductive FileCmd where
  | removeAll (path : String)
  | mkdirAll (path : String)
  | create (path : String)
  | remove (path : String)
  /-- Whether it is a directory. -/
  | stat (path : String)
  | readFile (path : String)
  | writeFile (path : String) (data : List UInt8)
  | readDir (path : String)

abbrev FileCmd.Answer : FileCmd → Type
  | .stat _ => Except FileError Bool
  | .readFile _ => Except FileError (List UInt8)
  | .readDir _ => Except FileError (List DirEntry)
  | .removeAll _ | .mkdirAll _ | .create _ | .remove _ | .writeFile .. => Except FileError Unit

/-- The path of a command. -/
def FileCmd.path : FileCmd → String
  | .removeAll path | .mkdirAll path | .create path | .remove path | .stat path | .readFile path
  | .writeFile path _ | .readDir path => path

/-- The directories of the configuration. -/
inductive Tree where
  | logs
  | builds
  | volumes
  deriving DecidableEq

/-- What the agent does, down to files. -/
inductive HostCmd where
  | file (tree : Tree) (c : FileCmd)
  /-- `git.PlainCloneContext`, of one branch. -/
  | clone (dir url branch : String)
  /-- `buildctl build`, with its two local directories. -/
  | buildctl (addr contextDir dockerfileDir imageTag : String)
  | agent (c : AgentCmd)

abbrev HostCmd.Answer : HostCmd → Type
  | .file _ c => c.Answer
  | .clone .. | .buildctl .. => Except String Unit
  | .agent c => c.Answer

/-- A program of the agent, down to files. -/
abbrev Host := Prog HostCmd HostCmd.Answer Empty

def file (tree : Tree) (c : FileCmd) : Host c.Answer := Prog.ask (HostCmd.file tree c)

/-! ### Generated Dockerfiles -/

/-- What `nodeDockerfile` reads of a `package.json`; what is missing is empty. -/
structure PackageJson where
  main : String
  start : String
  build : String

/-- `encoding/json`, as far as it is used here. -/
structure Json where
  unmarshal : List UInt8 → PackageJson
  marshal : String → String

/-- `nodeDockerfileTemplate`, with its command. -/
def nodeDockerfileTemplate (cmd : String) : String :=
  "FROM node:21-alpine\nWORKDIR /app\nCOPY . .\nRUN npm install --omit=dev\n" ++ cmd ++ "\n"

/-- `nodeDockerfileWithBuildTemplate`, with its command. -/
def nodeDockerfileWithBuildTemplate (cmd : String) : String :=
  "FROM node:21-alpine\nWORKDIR /app\nCOPY . .\nRUN npm install\nRUN npm run build\n" ++
    "RUN npm prune --omit=dev\n" ++ cmd ++ "\n"

/-- `staticDockerfile`. -/
def staticDockerfile : String := "FROM nginx:alpine\nCOPY . /usr/share/nginx/html\n"

/-- `nodeDockerfile`. -/
def nodeDockerfile (json : Json) (pkgJSON : List UInt8) : String :=
  let pkg := json.unmarshal pkgJSON
  let cmd :=
    if pkg.start = "" then
      let main := if pkg.main = "" then "index.js" else pkg.main
      "CMD [\"node\", " ++ json.marshal main ++ "]"
    else "CMD [\"npm\", \"start\"]"
  if pkg.build = "" then nodeDockerfileTemplate cmd else nodeDockerfileWithBuildTemplate cmd

/-- `detectDockerfile`. -/
def detectDockerfile (json : Json) (contextDir : String) : Host (Except String String) := do
  match ← file .builds (.readFile (joinPath [contextDir, "package.json"])) with
  | .ok pkgJSON => return .ok (nodeDockerfile json pkgJSON)
  | .error _ =>
    match ← file .builds (.stat (joinPath [contextDir, "index.html"])) with
    | .ok _ => return .ok staticDockerfile
    | .error _ =>
      return .error ("no supported stack detected (looked for package.json or index.html) — " ++
        "add a Dockerfile to deploy this repo")

/-! ### Building -/

/-- `logFilePath`. -/
def logFilePath (logDir containerID : String) : String := joinPath [logDir, containerID ++ ".log"]

/-- `buildLogFilePath`. -/
def buildLogFilePath (logDir containerID : String) : String :=
  joinPath [logDir, containerID ++ ".build.log"]

/-- The context directory of a build. -/
def contextDir (workDir : String) (src : BuildSource) : String :=
  if src.contextPath = "" then workDir else joinPath [workDir, src.contextPath]

/-- The directory of the Dockerfile of a build. -/
def dockerfileDir (workDir : String) (src : BuildSource) : String :=
  if src.dockerfilePath = "" then contextDir workDir src
  else joinPath [workDir, dirPath src.dockerfilePath]

/-- The opening of the build log, if there is a log directory. -/
def openBuildLog (logDir containerID : String) : Host (Except String Unit) := do
  if logDir = "" then return .ok ()
  else
    match ← file .logs (.mkdirAll logDir) with
    | .error err => return .error ("agent: create log dir: " ++ err.text)
    | .ok () =>
      match ← file .logs (.create (buildLogFilePath logDir containerID)) with
      | .error err => return .error ("agent: create build log: " ++ err.text)
      | .ok () => return .ok ()

/-- The generation of a Dockerfile, if none is named and there is none. -/
def generateDockerfile (json : Json) (workDir : String) (src : BuildSource) :
    Host (Except String Unit) := do
  if src.dockerfilePath ≠ "" then return .ok ()
  else
    match ← file .builds (.stat (joinPath [dockerfileDir workDir src, "Dockerfile"])) with
    | .error ⟨true, _⟩ =>
      match ← detectDockerfile json (contextDir workDir src) with
      | .error err => return .error ("agent: " ++ err)
      | .ok generated =>
        match ← file .builds (.writeFile (joinPath [dockerfileDir workDir src, "Dockerfile"])
            generated.toUTF8.data.toList) with
        | .error err => return .error ("agent: write generated Dockerfile: " ++ err.text)
        | .ok () => return .ok ()
    | .error ⟨false, _⟩ | .ok _ => return .ok ()

/-- The branch that is cloned. -/
def buildBranch (src : BuildSource) : String := if src.branch = "" then "main" else src.branch

/-- The preparation of the work directory of a build. -/
def fetchSource (workDir : String) (src : BuildSource) : Host (Except String Unit) := do
  match ← file .builds (.removeAll workDir) with
  | .error err => return .error ("agent: clean build workdir: " ++ err.text)
  | .ok () =>
    match ← file .builds (.mkdirAll workDir) with
    | .error err => return .error ("agent: create build workdir: " ++ err.text)
    | .ok () =>
      match ← Prog.ask (HostCmd.clone workDir src.repoUrl (buildBranch src)) with
      | .error err =>
        return .error ("agent: clone " ++ src.repoUrl ++ " (" ++ buildBranch src ++ "): " ++ err)
      | .ok () => return .ok ()

/-- `buildImageFromSource`. -/
def buildImageFromSource (json : Json) (buildkitAddr workDir logDir containerID : String)
    (src : BuildSource) : Host (Except String String) := do
  match ← fetchSource workDir src with
  | .error err => return .error err
  | .ok () =>
    match ← openBuildLog logDir containerID with
    | .error err => return .error err
    | .ok () =>
      match ← generateDockerfile json workDir src with
      | .error err => return .error err
      | .ok () =>
        let imageTag := "docker.io/library/" ++ containerID ++ ":latest"
        match ← Prog.ask (HostCmd.buildctl buildkitAddr (contextDir workDir src)
            (dockerfileDir workDir src) imageTag) with
        | .error err => return .error ("agent: buildctl build failed (see build logs): " ++ err)
        | .ok () => return .ok imageTag

/-! ### Log files and volumes -/

/-- The preparation of the log file. -/
def openLog (logDir id : String) : Host (Except String String) := do
  match ← file .logs (.mkdirAll logDir) with
  | .error err => return .error ("agent: create log dir " ++ logDir ++ ": " ++ err.text)
  | .ok () =>
    let _ ← file .logs (.remove (logFilePath logDir id))
    return .ok (logFilePath logDir id)

/-- `ensureVolumeDir`. -/
def ensureVolumeDir (volumesDir ns volumeName : String) : Host (Except String String) := do
  let dir := joinPath [volumesDir, ns, volumeName]
  match ← file .volumes (.mkdirAll dir) with
  | .error err => return .error ("agent: create volume dir " ++ dir ++ ": " ++ err.text)
  | .ok () => return .ok dir

/-! ### Starting, down to files -/

/-- What a node gives its agent: the configuration, and `os.TempDir()`. -/
structure Env where
  cfg : Config
  tempDir : String

/-- The directory that a tree stands for. -/
def Env.base (env : Env) : Tree → String
  | .logs => env.cfg.logDir
  | .builds =>
    if env.cfg.buildDir = "" then joinPath [env.tempDir, "nimbus-builds"] else env.cfg.buildDir
  | .volumes => env.cfg.volumesDir

variable (json : Json)

/-- What carries out a command. -/
def onHost (tempDir : String) : (c : AgentCmd) → Host c.Answer
  | .containerd (.buildImage buildkitAddr buildDir logDir id src) =>
    buildImageFromSource json buildkitAddr
      (joinPath [buildDir.getD (joinPath [tempDir, "nimbus-builds"]), id]) logDir id src
  | .os (.openLog logDir id) => openLog logDir id
  | .os (.ensureVolumeDir volumesDir ns volumeName) => ensureVolumeDir volumesDir ns volumeName
  | c => Prog.ask (HostCmd.agent c)

/-- `start`, down to files. -/
def startOnHost (env : Env) (pod : Pod) : Host (Except String Unit) :=
  (start env.cfg pod).expand (onHost json env.tempDir)

end NimbusCore.Agent
