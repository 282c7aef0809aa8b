import NimbusCore.Agent.Confinement

/-!
# Agent — the files endpoint

`internal/agent/files.go`.  The endpoint lists, reads, writes and deletes files of a volume, for
whoever asks.  `resolveVolumePath` refuses a path that leaves the directory of the volume; that
directory is itself joined from the namespace and the name of the request, which are not checked.

`separate_iff`: **two volumes are kept apart, and inside the directory of volumes**, for every such
directory and every request, exactly if the namespace of neither starts at the root, both lead down
from their start, and neither leads to the other or above it (`Placed`, `Apart`).
-/

namespace NimbusCore.Agent

open UnixPath Prog

/-! ### The endpoint -/

/-- `maxFileWriteBytes`. -/
def maxFileWriteBytes : Nat := 8 <<< 20

/-- The volume that a request names. -/
structure VolumeRef where
  ns : String
  name : String
  deriving DecidableEq

/-- `resolveVolumePath`. -/
def resolveVolumePath (volumesDir : String) (v : VolumeRef) (path : String) : Option String :=
  if v.ns = "" ∨ v.name = "" then none
  else
    let volDir := joinPath [volumesDir, v.ns, v.name]
    let full := joinPath [volDir, path]
    match relPath (cleanPath volDir) (cleanPath full) with
    | none => none
    | some rel => if Escapes rel then none else some (cleanPath full)

/-- A request, with what reading its body gives. -/
structure FilesRequest where
  method : String
  volume : VolumeRef
  path : String
  body : Except String (List UInt8)

/-- `fileEntry`. -/
structure FileEntry where
  name : String
  isDir : Bool
  size : Int64
  modTimeUnix : Int64

/-- What is written to the response. -/
inductive FilesResponse where
  | error (text : String) (status : Nat)
  | entries (out : List FileEntry)
  | content (data : List UInt8)
  | noContent

/-- The entry of a file that has an `Info`. -/
def fileEntry (e : DirEntry) : Option FileEntry :=
  e.info.map fun (size, modTimeUnix) => ⟨e.name, e.isDir, size, modTimeUnix⟩

/-- The response to an error of the file system. -/
def failedWith (err : FileError) : FilesResponse := .error err.text 500

/-- The same, where a file that is not there is told apart. -/
def missingOr (err : FileError) : FilesResponse :=
  if err.notExist then .error "file not found" 404 else failedWith err

/-- The handler of `/files/list`. -/
def filesList (volumesDir : String) (req : FilesRequest) : Host FilesResponse := do
  match resolveVolumePath volumesDir req.volume "." with
  | none => return .error "invalid namespace/name" 400
  | some volDir =>
    match ← file .volumes (.mkdirAll volDir) with
    | .error err => return failedWith err
    | .ok () =>
      match ← file .volumes (.readDir volDir) with
      | .error err => return failedWith err
      | .ok entries => return .entries (entries.filterMap fileEntry)

/-- The file that a request names, if it is not refused. -/
def requestedFile (volumesDir : String) (req : FilesRequest) : Option String :=
  if req.path = "" then none else resolveVolumePath volumesDir req.volume req.path

/-- The response to a request that is refused. -/
def invalidPath : FilesResponse := .error "invalid namespace/name/path" 400

def methodNotAllowed : FilesResponse := .error "method not allowed" 405

/-- The handler of `/files/read`. -/
def filesRead (volumesDir : String) (req : FilesRequest) : Host FilesResponse := do
  match requestedFile volumesDir req with
  | none => return invalidPath
  | some full =>
    match ← file .volumes (.readFile full) with
    | .error err => return missingOr err
    | .ok data => return .content data

/-- The handler of `/files/write`. -/
def filesWrite (volumesDir : String) (req : FilesRequest) : Host FilesResponse := do
  if req.method ≠ "PUT" ∧ req.method ≠ "POST" then return methodNotAllowed
  else
    match requestedFile volumesDir req with
    | none => return invalidPath
    | some full =>
      match req.body.map (·.take (maxFileWriteBytes + 1)) with
      | .error err => return .error err 500
      | .ok body =>
        if maxFileWriteBytes < body.length then return .error "file too large" 413
        else
          match ← file .volumes (.mkdirAll (dirPath full)) with
          | .error err => return failedWith err
          | .ok () =>
            match ← file .volumes (.writeFile full body) with
            | .error err => return failedWith err
            | .ok () => return .noContent

/-- The handler of `/files/delete`. -/
def filesDelete (volumesDir : String) (req : FilesRequest) : Host FilesResponse := do
  if req.method ≠ "DELETE" then return methodNotAllowed
  else
    match requestedFile volumesDir req with
    | none => return invalidPath
    | some full =>
      match ← file .volumes (.stat full) with
      | .error err => return missingOr err
      | .ok true => return .error "cannot delete a directory" 400
      | .ok false =>
        match ← file .volumes (.remove full) with
        | .error err => return failedWith err
        | .ok () => return .noContent

/-- The routes of `NewFilesHandler`. -/
inductive FilesRoute where
  | list
  | read
  | write
  | delete

/-- `NewFilesHandler`. -/
def filesHandler (volumesDir : String) : FilesRoute → FilesRequest → Host FilesResponse
  | .list => filesList volumesDir
  | .read => filesRead volumesDir
  | .write => filesWrite volumesDir
  | .delete => filesDelete volumesDir

/-! ### The directory of a volume -/

/-- Namespace and name are there. -/
def VolumeRef.Named (v : VolumeRef) : Prop := v.ns ≠ "" ∧ v.name ≠ ""

/-- What a volume is joined from, as one text. -/
def VolumeRef.text (v : VolumeRef) : String := v.ns ++ "/" ++ v.name

/-- The directory of a volume. -/
def volumeDir (volumesDir : String) (v : VolumeRef) : UnixPath :=
  parse (joinPath [volumesDir, v.ns, v.name])

section

variable {dir path p : String} {v v' : VolumeRef}

/-- **What the endpoint resolves** is what the directory of the volume contains. -/
theorem resolveVolumePath_eq_some :
    resolveVolumePath dir v path = some p ↔ v.Named ∧ p = ((volumeDir dir v).walk path).render ∧
      (volumeDir dir v).Contains ((volumeDir dir v).walk path) := by
  rw [resolveVolumePath]
  split
  · next h =>
    rw [VolumeRef.Named]
    constructor
    · intro h'
      cases h'
    · rintro ⟨⟨hns, hname⟩, -⟩
      exact absurd h (not_or.mpr ⟨hns, hname⟩)
  · next h =>
    have hnamed : v.Named := not_or.mp h
    have hvol : joinPath [dir, v.ns, v.name] ≠ "" :=
      joinPath_ne_empty (s := v.ns) (by simp) hnamed.1
    have hfull : parse (joinPath [joinPath [dir, v.ns, v.name], path]) =
        (volumeDir dir v).walk path := parse_join hvol [path]
    have hrel := rel_inside_iff (cleanPath (joinPath [dir, v.ns, v.name]))
      (cleanPath (joinPath [joinPath [dir, v.ns, v.name], path]))
    rw [parse_clean, parse_clean, hfull, ← volumeDir] at hrel
    rw [and_iff_right hnamed, ← hrel, ← hfull, ← cleanPath]
    simp only
    cases relPath (cleanPath (joinPath [dir, v.ns, v.name]))
        (cleanPath (joinPath [joinPath [dir, v.ns, v.name], path])) with
    | none => simp
    | some rel =>
      by_cases hesc : Escapes rel
      · simp [hesc]
      · simp [hesc, eq_comm]

/-- A path that the endpoint can reach for a volume. -/
def Reaches (dir : String) (v : VolumeRef) (q : UnixPath) : Prop :=
  ∃ path p, resolveVolumePath dir v path = some p ∧ parse p = q

theorem reaches_iff {q : UnixPath} : Reaches dir v q ↔ v.Named ∧ (volumeDir dir v).Contains q := by
  constructor
  · rintro ⟨path, p, hp, rfl⟩
    obtain ⟨hnamed, rfl, hin⟩ := resolveVolumePath_eq_some.mp hp
    rw [parse_render]
    exact ⟨hnamed, hin⟩
  · rintro ⟨hnamed, hin⟩
    obtain ⟨ns, hns, rfl⟩ := hin.exists_extend
    obtain ⟨path, hpath⟩ := exists_walk_extend (volumeDir dir v) hns
    refine ⟨path, _, resolveVolumePath_eq_some.mpr ⟨hnamed, rfl, hpath ▸ hin⟩, ?_⟩
    rw [parse_render, hpath]

/-! ### Volumes that are kept apart -/

/-- If the volume has a namespace and a name: the namespace does not start at the root, and the text
of the volume leads down. -/
def Placed (v : VolumeRef) : Prop :=
  v.Named → v.ns.toList.head? ≠ some '/' ∧ LeadsDown v.text

/-- Neither volume leads to the other or above it. -/
def Apart (v v' : VolumeRef) : Prop :=
  v.Named → v'.Named → ∀ l l', landing v.text = some l → landing v'.text = some l' →
    ¬ l <+: l' ∧ ¬ l' <+: l

/-- The command touches nothing outside the directory of volumes, and nothing of the volume. -/
def SparesVolume (dir : String) (v : VolumeRef) : HostCmd → Prop
  | .file _ c => (parse dir).Contains (parse c.path) ∧ ¬ Reaches dir v (parse c.path)
  | _ => False

/-- The endpoint keeps `v` inside the directory of volumes, and out of `v'`. -/
structure Separate (v v' : VolumeRef) : Prop where
  inside : ∀ dir path p, resolveVolumePath dir v path = some p → Inside dir p
  disjoint : ∀ dir q, Reaches dir v q → ¬ Reaches dir v' q
  spares : ∀ dir route req, req.volume = v →
    (filesHandler dir route req).Within (SparesVolume dir v') fun _ => True

theorem volumeDir_of_ne (hdir : dir ≠ "") : volumeDir dir v = (parse dir).walk v.text := by
  rw [volumeDir, parse_join hdir, VolumeRef.text, walk_slash]
  rfl

theorem volumeDir_empty (hv : v.Named) :
    volumeDir "" v = (if v.ns.toList.head? = some '/' then root else here).walk v.text := by
  rw [volumeDir, joinPath_empty_cons, parse_join hv.1, VolumeRef.text, walk_slash]
  rfl

/-- A volume that leads down has its directory below every directory of volumes. -/
theorem volumeDir_of_placed (hv : v.Named) (hp : Placed v) {l : List (List Char)}
    (hl : landing v.text = some l) :
    ∃ hnames : ∀ n ∈ l, IsName n, ∀ dir, volumeDir dir v = (parse dir).extend l hnames := by
  obtain ⟨hnames, hwalk⟩ := walk_of_landing hl
  refine ⟨hnames, fun dir => ?_⟩
  by_cases hdir : dir = ""
  · subst hdir
    rw [volumeDir_empty hv, if_neg (hp hv).1, hwalk]
    rfl
  · rw [volumeDir_of_ne hdir, hwalk]

/-- What the endpoint resolves for a volume that leads down is inside. -/
theorem inside_of_placed (hp : Placed v) (h : resolveVolumePath dir v path = some p) :
    Inside dir p := by
  obtain ⟨hv, rfl, hin⟩ := resolveVolumePath_eq_some.mp h
  obtain ⟨l, hl, hne⟩ := (hp hv).2
  obtain ⟨hnames, hdir⟩ := volumeDir_of_placed hv hp hl
  have hbelow : (parse dir).Below (volumeDir dir v) := by
    rw [hdir dir]
    exact below_extend.mpr hne
  rw [Inside, parse_render]
  exact hbelow.trans_contains hin

/-- What a volume that is kept apart reaches, the other does not. -/
theorem disjoint_of_apart (hp : Placed v) (hp' : Placed v') (ha : Apart v v') {q : UnixPath}
    (h : Reaches dir v q) : ¬ Reaches dir v' q := by
  intro h'
  obtain ⟨hv, hq⟩ := reaches_iff.mp h
  obtain ⟨hv', hq'⟩ := reaches_iff.mp h'
  obtain ⟨l, hl, -⟩ := (hp hv).2
  obtain ⟨l', hl', -⟩ := (hp' hv').2
  obtain ⟨hnames, hdir⟩ := volumeDir_of_placed hv hp hl
  obtain ⟨hnames', hdir'⟩ := volumeDir_of_placed hv' hp' hl'
  obtain ⟨hn, hn'⟩ := ha hv hv' l l' hl hl'
  rw [hdir dir] at hq
  rw [hdir' dir] at hq'
  rcases hq.total hq' with h | h
  · exact hn (extend_contains_extend.mp h)
  · exact hn' (extend_contains_extend.mp h)

/-! ### The handlers -/

theorem requestedFile_eq_some {req : FilesRequest} (hreq : req.volume = v)
    (h : requestedFile dir req = some p) : resolveVolumePath dir v req.path = some p := by
  rw [requestedFile] at h
  split at h
  · cases h
  · exact hreq ▸ h

section

variable (hin : ∀ path p, resolveVolumePath dir v path = some p → Inside dir p)
  (hdis : ∀ q, Reaches dir v q → ¬ Reaches dir v' q)

include hin hdis

/-- What is resolved may be touched. -/
theorem spares_resolved (h : resolveVolumePath dir v path = some p) :
    (parse dir).Contains (parse p) ∧ ¬ Reaches dir v' (parse p) :=
  ⟨(hin path p h).1, hdis _ ⟨path, p, h, rfl⟩⟩

/-- So may the directory it is in: what is in another volume there is in it below. -/
theorem spares_dirPath (h : resolveVolumePath dir v path = some p) :
    (parse dir).Contains (parse (dirPath p)) ∧ ¬ Reaches dir v' (parse (dirPath p)) := by
  obtain ⟨-, rfl, -⟩ := resolveVolumePath_eq_some.mp h
  have hbelow := hin path _ h
  have hnot := hdis _ ⟨path, _, h, rfl⟩
  rw [Inside, parse_render] at hbelow
  rw [parse_render] at hnot
  rw [parse_dirPath_render hbelow.names_ne_nil]
  refine ⟨hbelow.contains_above, fun hr => hnot ?_⟩
  obtain ⟨hv', hup⟩ := reaches_iff.mp hr
  exact reaches_iff.mpr ⟨hv', hup.trans (contains_of_above hbelow.names_ne_nil)⟩

variable {req : FilesRequest} (hreq : req.volume = v)

include hreq

theorem spares_filesList : (filesList dir req).Within (SparesVolume dir v') fun _ => True := by
  rw [filesList, hreq]
  split
  · trivial
  · next volDir hvol =>
    have hs := spares_resolved hin hdis hvol
    refine Within.bind_ok (within_ask.mpr hs) fun _ => ?_
    refine within_ask_bind.mpr ⟨hs, fun x => ?_⟩
    cases x <;> trivial

theorem spares_filesRead : (filesRead dir req).Within (SparesVolume dir v') fun _ => True := by
  rw [filesRead]
  split
  · trivial
  · next full hfull =>
    have hs := spares_resolved hin hdis (requestedFile_eq_some hreq hfull)
    refine within_ask_bind.mpr ⟨hs, fun x => ?_⟩
    cases x <;> trivial

theorem spares_filesWrite : (filesWrite dir req).Within (SparesVolume dir v') fun _ => True := by
  rw [filesWrite]
  split
  · trivial
  · split
    · trivial
    · next full hfull =>
      have hfull := requestedFile_eq_some hreq hfull
      split
      · trivial
      · split
        · trivial
        · have hdir : SparesVolume dir v' (.file .volumes (.mkdirAll (dirPath full))) := by
            simpa only [SparesVolume, FileCmd.path] using spares_dirPath hin hdis hfull
          refine Within.bind_ok (within_ask.mpr hdir) fun _ => ?_
          refine within_ask_bind.mpr ⟨spares_resolved hin hdis hfull, fun x => ?_⟩
          cases x <;> trivial

theorem spares_filesDelete : (filesDelete dir req).Within (SparesVolume dir v') fun _ => True := by
  rw [filesDelete]
  split
  · trivial
  · split
    · trivial
    · next full hfull =>
      have hs := spares_resolved hin hdis (requestedFile_eq_some hreq hfull)
      refine within_ask_bind.mpr ⟨hs, fun x => ?_⟩
      rcases x with err | isDir
      · trivial
      · cases isDir with
        | true => trivial
        | false =>
          refine within_ask_bind.mpr ⟨hs, fun x => ?_⟩
          cases x <;> trivial

/-- **Every request** keeps to its volume, if what is resolved does. -/
theorem spares_filesHandler (route : FilesRoute) :
    (filesHandler dir route req).Within (SparesVolume dir v') fun _ => True := by
  cases route with
  | list => exact spares_filesList hin hdis hreq
  | read => exact spares_filesRead hin hdis hreq
  | write => exact spares_filesWrite hin hdis hreq
  | delete => exact spares_filesDelete hin hdis hreq

end

theorem separate_of_apart (hp : Placed v) (hp' : Placed v') (ha : Apart v v') : Separate v v' where
  inside _ _ _ h := inside_of_placed hp h
  disjoint _ _ h := disjoint_of_apart hp hp' ha h
  spares _ route _ hreq := spares_filesHandler (fun _ _ h => inside_of_placed hp h)
    (fun _ h => disjoint_of_apart hp hp' ha h) hreq route

/-- The directory of a volume is among what it reaches. -/
theorem resolve_dot (hv : v.Named) : resolveVolumePath dir v "." = some (volumeDir dir v).render :=
  resolveVolumePath_eq_some.mpr ⟨hv, rfl, contains_refl _⟩

theorem placed_of_separate (h : Separate v v') : Placed v := by
  intro hv
  have hempty := h.inside "" "." _ (resolve_dot hv)
  have hdot := h.inside "." "." _ (resolve_dot hv)
  rw [Inside, parse_render] at hempty hdot
  constructor
  · intro hroot
    have hr := hempty.1.1
    rw [volumeDir_empty hv, if_pos hroot, rooted_walk] at hr
    cases hr
  · rw [volumeDir_of_ne (by decide)] at hdot
    exact leadsDown_of_here hdot

theorem not_prefix_of_separate (h : Separate v v') (hp' : Placed v') (hv : v.Named)
    (hv' : v'.Named) {l l' : List (List Char)} (hl : landing v.text = some l)
    (hl' : landing v'.text = some l') : ¬ l <+: l' := by
  intro hpre
  obtain ⟨hnames, hdir⟩ := volumeDir_of_placed hv (placed_of_separate h) hl
  obtain ⟨hnames', hdir'⟩ := volumeDir_of_placed hv' hp' hl'
  have hreach : Reaches "." v (volumeDir "." v') := by
    rw [reaches_iff, hdir, hdir']
    exact ⟨hv, extend_contains_extend.mpr hpre⟩
  exact h.disjoint "." _ hreach (reaches_iff.mpr ⟨hv', contains_refl _⟩)

/-- **The endpoint keeps two volumes apart, and inside, exactly if they are placed and apart.** -/
theorem separate_iff : (Separate v v' ∧ Separate v' v) ↔ Placed v ∧ Placed v' ∧ Apart v v' := by
  constructor
  · rintro ⟨h, h'⟩
    have hp := placed_of_separate h
    have hp' := placed_of_separate h'
    refine ⟨hp, hp', fun hv hv' l l' hl hl' => ⟨?_, ?_⟩⟩
    · exact not_prefix_of_separate h hp' hv hv' hl hl'
    · exact not_prefix_of_separate h' hp hv' hv hl' hl
  · rintro ⟨hp, hp', ha⟩
    have ha' : Apart v' v := fun hv' hv l' l hl' hl => (ha hv hv' l l' hl hl').symm
    exact ⟨separate_of_apart hp hp' ha, separate_of_apart hp' hp ha'⟩

/-- **A namespace that goes up leaves the directory of volumes**, and a name with a slash reaches
the volume of another namespace. -/
theorem endpoint_escapes :
    (resolveVolumePath "/vol" ⟨"..", "etc"⟩ "f" = some "/etc/f" ∧ ¬ Inside "/vol" "/etc/f") ∧
      resolveVolumePath "/vol" ⟨"a", "b/c"⟩ "f" = some "/vol/a/b/c/f" ∧
      resolveVolumePath "/vol" ⟨"a/b", "c"⟩ "f" = some "/vol/a/b/c/f" := by
  decide +kernel

end

end NimbusCore.Agent
