import NimbusCore.Apiserver.Deployments
import NimbusCore.Support.FileTree
import NimbusCore.Support.Steps
import NimbusCore.Support.Walks

/-!
# Csi — the hostpath driver

`internal/csi/hostpath/hostpath.go`: `CreateVolume`, `DeleteVolume` and `ListVolumes`.  A volume is
a directory below the base directory, with a file that holds its ID and its capacity.  What is on
disk is all the driver knows.  Each call holds the mutex of the driver, so calls come one after
another.

An ID is any text that, joined to the base directory, does not leave it: it may have slashes, dots
and what goes up.  `parse_volumeDir` and `validVolumeID_iff` say what that comes to.

`volumes_isolated`: **a delete leaves every other volume and the base directory in place**, in every
run and whatever others write in between, if the directory of its ID is not the base directory, and
neither contains nor is contained in that of another volume that exists (`Separated`).

The volumes that exist are those that were created and not deleted since, by what was answered
(`Disk.existing`); the driver has no such list.  The disk itself does not fail.
-/

namespace NimbusCore.Csi

open Apiserver UnixPath Finmap FileTree

/-! ### The driver -/

/-- `volumeMeta`. -/
structure VolumeMeta where
  name : String
  capacityBytes : Int64
  deriving DecidableEq

/-- `encoding/json`, of what is kept of a volume. -/
structure Codec (β : Type) where
  marshal : VolumeMeta → β
  unmarshal : β → Option VolumeMeta
  unmarshal_marshal : ∀ m, unmarshal (marshal m) = some m

/-- `csi.Volume`. -/
structure CsiVolume where
  volumeId : String
  capacityBytes : Int64
  deriving DecidableEq

/-- `Driver`.  `New` makes the base directory, which fails if it has no name. -/
structure Driver where
  baseDir : String
  baseDir_ne : baseDir ≠ ""

namespace Driver

/-- `volumeDir`. -/
def volumeDir (d : Driver) (id : String) : String := joinPath [d.baseDir, id]

/-- `metaPath`. -/
def metaPath (d : Driver) (id : String) : String := joinPath [d.volumeDir id, ".volume.json"]

/-- `validVolumeID`. -/
def validVolumeID (d : Driver) (id : String) : Bool :=
  if id = "" then false
  else
    match relPath (cleanPath d.baseDir) (cleanPath (d.volumeDir id)) with
    | none => false
    | some rel => ¬ Escapes rel

end Driver

/-- Where a path leads.  All paths of a driver start where its base directory does. -/
def place (path : String) : Place := (parse path).names

section

variable {β : Type} (quote : String → String) (codec : Codec β) (d : Driver)

/-- `CreateVolume`. -/
def createVolume (name : String) (requiredBytes : Int64) (t : FileTree β) :
    Except Status CsiVolume × FileTree β :=
  if name = "" then (.error ⟨.invalidArgument, "name is required", none⟩, t)
  else if d.validVolumeID name = false then
    (.error ⟨.invalidArgument, "invalid volume name " ++ quote name, none⟩, t)
  else
    match t.mkdirAll (place (d.volumeDir name)) with
    | none => (.error ⟨.internal, "create volume directory: ", none⟩, t)
    | some t =>
      match t.writeFile (place (d.metaPath name)) (codec.marshal ⟨name, requiredBytes⟩) with
      | none => (.error ⟨.internal, "write volume metadata: ", none⟩, t)
      | some t => (.ok ⟨name, requiredBytes⟩, t)

/-- `DeleteVolume`. -/
def deleteVolume (id : String) (t : FileTree β) : Except Status Unit × FileTree β :=
  if id = "" then (.error ⟨.invalidArgument, "volume_id is required", none⟩, t)
  else if d.validVolumeID id = false then
    (.error ⟨.invalidArgument, "invalid volume_id " ++ quote id, none⟩, t)
  else
    let (t, removed) := t.removeAll (place (d.volumeDir id))
    (if removed then .ok () else .error ⟨.internal, "delete volume directory: ", none⟩, t)

/-- `readMeta`. -/
def readMeta (volumeID : String) (t : FileTree β) : Option VolumeMeta :=
  (t.readFile (place (d.metaPath volumeID))).bind codec.unmarshal

/-- The entry of a name that `ListVolumes` finds in the base directory. -/
def listEntry (t : FileTree β) (name : List Char) : Option CsiVolume :=
  if t.IsDir (place d.baseDir ++ [name]) then
    (readMeta codec d (String.ofList name) t).map fun m => ⟨m.name, m.capacityBytes⟩
  else none

/-- `ListVolumes`, when the names of the base directory are seen in the order `names`. -/
def listVolumes (names : List (List Char)) (t : FileTree β) : Except Status (List CsiVolume) :=
  if t.IsDir (place d.baseDir) then .ok (names.filterMap (listEntry codec d t))
  else .error ⟨.internal, "list volumes: ", none⟩

/-! ### Runs -/

/-- The files, and the volumes that exist, with their capacity. -/
structure Disk (β : Type) where
  tree : FileTree β
  existing : Dict String Int64

/-- The calls that change something. -/
inductive Call where
  | create (name : String) (requiredBytes : Int64)
  | delete (id : String)

/-- What a call leaves. -/
def Disk.step (s : Disk β) : Call → Disk β
  | .create name requiredBytes =>
    match createVolume quote codec d name requiredBytes s.tree with
    | (.ok v, t) => ⟨t, s.existing.insert v.volumeId v.capacityBytes⟩
    | (.error _, t) => ⟨t, s.existing⟩
  | .delete id =>
    match deleteVolume quote d id s.tree with
    | (.ok (), t) => ⟨t, s.existing.erase id⟩
    | (.error _, t) => ⟨t, s.existing⟩

end

/-! ### Where volumes are -/

namespace Driver

variable {d : Driver} {id : String}

theorem parse_volumeDir (d : Driver) (id : String) :
    parse (d.volumeDir id) = (parse d.baseDir).walk id := parse_join d.baseDir_ne [id]

theorem volumeDir_ne (d : Driver) (id : String) : d.volumeDir id ≠ "" :=
  joinPath_ne_empty List.mem_cons_self d.baseDir_ne

/-- The metadata of a volume is in its directory. -/
theorem place_metaPath (d : Driver) (id : String) :
    place (d.metaPath id) = place (d.volumeDir id) ++ [".volume.json".toList] := by
  have hwalk : ∀ p : UnixPath,
      (p.walk ".volume.json").names = p.names ++ [".volume.json".toList] := by
    intro p
    obtain ⟨hnames, h⟩ :=
      walk_of_landing (s := ".volume.json") (l := [".volume.json".toList]) (by decide)
    rw [h p]
    rfl
  rw [place, place, metaPath, parse_join (d.volumeDir_ne id)]
  exact hwalk _

/-- **The IDs that are accepted** are those that do not leave the base directory. -/
theorem validVolumeID_iff :
    d.validVolumeID id = true ↔ id ≠ "" ∧ (parse d.baseDir).Contains (parse (d.volumeDir id)) := by
  have hrel := rel_inside_iff (cleanPath d.baseDir) (cleanPath (d.volumeDir id))
  rw [parse_clean, parse_clean] at hrel
  rw [validVolumeID, ← hrel]
  split
  · next h => simp [h]
  · next h =>
    cases relPath (cleanPath d.baseDir) (cleanPath (d.volumeDir id)) with
    | none => simp
    | some rel => simp [h]

theorem base_prefix (h : d.validVolumeID id = true) :
    place d.baseDir <+: place (d.volumeDir id) := (validVolumeID_iff.mp h).2.2.2

end Driver

/-! ### Deleting one volume -/

section

variable {β : Type} {quote : String → String} {codec : Codec β} {d : Driver} {s : Disk β}
  {id : String}

/-- Everything at a place and below it is as it was. -/
def Untouched (l : Place) (t t' : FileTree β) : Prop := ∀ q, l <+: q → t'.look q = t.look q

/-- What the delete of `id` has to leave in place. -/
structure DeleteSpares (d : Driver) (s : Disk β) (id : String) (t' : FileTree β) : Prop where
  volumes : ∀ v ∈ s.existing, v ≠ id → Untouched (place (d.volumeDir v)) s.tree t'
  base : s.tree.IsDir (place d.baseDir) → t'.IsDir (place d.baseDir)

/-- The directory of the ID is not the base directory, and those of other volumes that exist are
neither above nor below it. -/
structure Separated (d : Driver) (s : Disk β) (id : String) : Prop where
  base : place (d.volumeDir id) ≠ place d.baseDir
  above : ∀ v ∈ s.existing, v ≠ id → ¬ place (d.volumeDir v) <+: place (d.volumeDir id)
  below : ∀ v ∈ s.existing, v ≠ id → ¬ place (d.volumeDir id) <+: place (d.volumeDir v)

/-- What a delete changes is at the directory of its ID or below. -/
theorem look_deleteVolume (id : String) (t : FileTree β) {q : Place}
    (h : ¬ place (d.volumeDir id) <+: q) : (deleteVolume quote d id t).2.look q = t.look q := by
  rw [deleteVolume]
  split
  · rfl
  · split
    · rfl
    · exact (look_removeAll t _ q).trans (if_neg fun hq => h hq.2)

/-- A delete that is refused changes nothing. -/
theorem deleteVolume_refused (quote : String → String) (h : d.validVolumeID id = false)
    (t : FileTree β) :
    ∃ err, deleteVolume quote d id t = (.error err, t) := by
  rw [deleteVolume, if_pos h]
  split <;> exact ⟨_, rfl⟩

/-- **A delete leaves the rest in place**, if its directory is separated from the others. -/
theorem deleteSpares_of_separated (quote : String → String)
    (h : d.validVolumeID id = true → Separated d s id) :
    DeleteSpares d s id (deleteVolume quote d id s.tree).2 := by
  cases hvalid : d.validVolumeID id with
  | false =>
    obtain ⟨err, hrefused⟩ := deleteVolume_refused quote hvalid s.tree
    rw [hrefused]
    exact ⟨fun _ _ _ _ _ => rfl, fun hbase => hbase⟩
  | true =>
    have hsep := h hvalid
    refine ⟨fun v hv hne q hq => look_deleteVolume id s.tree fun hid => ?_, fun hbase => ?_⟩
    · rcases List.prefix_or_prefix_of_prefix hq hid with hp | hp
      · exact hsep.above v hv hne hp
      · exact hsep.below v hv hne hp
    · have hnot : ¬ place (d.volumeDir id) <+: place d.baseDir := by
        intro hp
        exact hsep.base (hp.eq_of_length_le (Driver.base_prefix hvalid).length_le)
      exact (look_deleteVolume id s.tree hnot).trans hbase

/-! ### Runs in which volumes stay in place -/

/-- The base directory, and the directory and the metadata of every volume that exists, are
there. -/
structure InPlace (d : Driver) (s : Disk β) : Prop where
  base : s.tree.IsDir (place d.baseDir)
  dir : ∀ v ∈ s.existing, s.tree.IsDir (place (d.volumeDir v))
  metadata : ∀ v ∈ s.existing, s.tree.IsFile (place (d.metaPath v))

/-- A step of a run: a call, or what others do to the files. -/
inductive Event (β : Type) where
  | call (c : Call)
  | outside (t : FileTree β)

/-- What a step leaves. -/
def Disk.next (quote : String → String) (codec : Codec β) (d : Driver) (s : Disk β) :
    Event β → Disk β
  | .call c => s.step quote codec d c
  | .outside t => { s with tree := t }

/-- The disk after a run. -/
def Disk.after (quote : String → String) (codec : Codec β) (d : Driver) (s : Disk β)
    (run : List (Event β)) : Disk β := run.foldl (Disk.next quote codec d) s

/-- A delete is separated from the other volumes; others write what they like, but leave the
directories and the metadata of the volumes there. -/
def Allowed (d : Driver) (s : Disk β) : Event β → Prop
  | .call (.create _ _) => True
  | .call (.delete id) => d.validVolumeID id = true → Separated d s id
  | .outside t => InPlace d { s with tree := t }

theorem Untouched.isDir {l : Place} {t t' : FileTree β} (h : Untouched l t t') (hl : t.IsDir l) :
    t'.IsDir l := (h l (List.prefix_refl l)).trans hl

theorem Untouched.isFile {l : Place} {n : List Char} {t t' : FileTree β} (h : Untouched l t t')
    (hl : t.IsFile (l ++ [n])) : t'.IsFile (l ++ [n]) := by
  obtain ⟨data, hdata⟩ := hl
  exact ⟨data, (h _ (List.prefix_append l [n])).trans hdata⟩

/-- **What a create comes to.** -/
theorem createVolume_cases (quote : String → String) (codec : Codec β) (d : Driver) (name : String)
    (requiredBytes : Int64) (t : FileTree β) :
    (∃ err, createVolume quote codec d name requiredBytes t = (.error err, t)) ∨
      ∃ t₁, d.validVolumeID name = true ∧ t.mkdirAll (place (d.volumeDir name)) = some t₁ ∧
        ((t₁.writeFile (place (d.metaPath name)) (codec.marshal ⟨name, requiredBytes⟩) = none ∧
            ∃ err, createVolume quote codec d name requiredBytes t = (.error err, t₁)) ∨
          ∃ t₂, t₁.writeFile (place (d.metaPath name)) (codec.marshal ⟨name, requiredBytes⟩) =
              some t₂ ∧
            createVolume quote codec d name requiredBytes t = (.ok ⟨name, requiredBytes⟩, t₂)) := by
  rw [createVolume]
  split
  · exact .inl ⟨_, rfl⟩
  · split
    · exact .inl ⟨_, rfl⟩
    · next hvalid =>
      cases hmk : t.mkdirAll (place (d.volumeDir name)) with
      | none => exact .inl ⟨_, rfl⟩
      | some t₁ =>
        refine .inr ⟨t₁, by simpa using hvalid, rfl, ?_⟩
        cases hwr :
          t₁.writeFile (place (d.metaPath name)) (codec.marshal ⟨name, requiredBytes⟩) with
        | none =>
          exact .inl ⟨rfl, ⟨.internal, "write volume metadata: ", none⟩, by simp only [hwr]⟩
        | some t₂ => exact .inr ⟨t₂, rfl, by simp only [hwr]⟩

/-- A volume that was created is there. -/
theorem InPlace.create {t₁ t₂ : FileTree β} {name : String} {data : β} {capacity : Int64}
    (h : InPlace d s) (hmk : s.tree.mkdirAll (place (d.volumeDir name)) = some t₁)
    (hwr : t₁.writeFile (place (d.metaPath name)) data = some t₂) :
    InPlace d ⟨t₂, s.existing.insert name capacity⟩ where
  base := isDir_writeFile hwr (isDir_mkdirAll hmk h.base)
  dir v hv := by
    refine isDir_writeFile hwr ?_
    rcases mem_insert.mp hv with rfl | hv
    · rw [FileTree.IsDir, look_mkdirAll hmk, if_pos (List.prefix_refl _)]
    · exact isDir_mkdirAll hmk (h.dir v hv)
  metadata v hv := by
    rcases mem_insert.mp hv with rfl | hv
    · exact ⟨data, by rw [look_writeFile hwr, if_pos rfl]⟩
    · exact isFile_writeFile hwr (isFile_mkdirAll hmk (h.metadata v hv))

theorem InPlace.mkdirAll {t₁ : FileTree β} {l : Place} (h : InPlace d s)
    (hmk : s.tree.mkdirAll l = some t₁) : InPlace d { s with tree := t₁ } where
  base := isDir_mkdirAll hmk h.base
  dir v hv := isDir_mkdirAll hmk (h.dir v hv)
  metadata v hv := isFile_mkdirAll hmk (h.metadata v hv)

/-- A volume that is there is deleted when it is asked for. -/
theorem deleteVolume_ok (quote : String → String) (h : InPlace d s)
    (hid : id ∈ s.existing) (hvalid : d.validVolumeID id = true) (hsep : Separated d s id) :
    (deleteVolume quote d id s.tree).1 = .ok () := by
  have hne : place (d.volumeDir id) ≠ [] := by
    intro hnil
    have hbase := Driver.base_prefix hvalid
    rw [hnil, List.prefix_nil] at hbase
    exact hsep.base (hnil.trans hbase.symm)
  rw [deleteVolume, if_neg (Driver.validVolumeID_iff.mp hvalid).1, if_neg (by simp [hvalid])]
  simp [removeAll_ok hne (h.dir id hid)]

theorem InPlace.delete {t' : FileTree β} {existing : Dict String Int64}
    (h : InPlace d s) (hspares : DeleteSpares d s id t')
    (hex : ∀ v ∈ existing, v ∈ s.existing ∧ v ≠ id) : InPlace d ⟨t', existing⟩ where
  base := hspares.base h.base
  dir v hv := (hspares.volumes v (hex v hv).1 (hex v hv).2).isDir (h.dir v (hex v hv).1)
  metadata v hv := by
    have hmeta := h.metadata v (hex v hv).1
    rw [Driver.place_metaPath] at hmeta ⊢
    exact (hspares.volumes v (hex v hv).1 (hex v hv).2).isFile hmeta

theorem tree_step_delete (id : String) :
    (s.step quote codec d (.delete id)).tree = (deleteVolume quote d id s.tree).2 := by
  rw [Disk.step]
  rcases deleteVolume quote d id s.tree with ⟨err | _, t⟩ <;> rfl

theorem inPlace_delete (quote : String → String) (codec : Codec β) (h : InPlace d s)
    (he : d.validVolumeID id = true → Separated d s id) :
    InPlace d (s.step quote codec d (.delete id)) := by
  cases hvalid : d.validVolumeID id with
  | false =>
    obtain ⟨err, hrefused⟩ := deleteVolume_refused quote hvalid s.tree
    simpa only [Disk.step, hrefused] using h
  | true =>
    have hspares := deleteSpares_of_separated quote he
    rcases hdel : deleteVolume quote d id s.tree with ⟨err | _, t'⟩
    · -- A delete that fails is not one of a volume that exists.
      have hid : id ∉ s.existing := by
        intro hid
        have hok := deleteVolume_ok quote h hid hvalid (he hvalid)
        rw [hdel] at hok
        cases hok
      rw [hdel] at hspares
      simp only [Disk.step, hdel]
      exact h.delete hspares fun v hv => ⟨hv, fun hvid => hid (hvid ▸ hv)⟩
    · rw [hdel] at hspares
      simp only [Disk.step, hdel]
      exact h.delete hspares fun v hv => (mem_erase.mp hv).symm

/-- **A step** keeps the volumes in place. -/
theorem inPlace_next (h : InPlace d s) (e : Event β) (he : Allowed d s e) :
    InPlace d (s.next quote codec d e) := by
  rcases e with (⟨name, requiredBytes⟩ | id) | t
  · rcases createVolume_cases quote codec d name requiredBytes s.tree with
      ⟨err, hc⟩ | ⟨t₁, -, hmk, ⟨-, err, hc⟩ | ⟨t₂, hwr, hc⟩⟩
    · simpa only [Disk.next, Disk.step, hc] using h
    · simpa only [Disk.next, Disk.step, hc] using h.mkdirAll hmk
    · simpa only [Disk.next, Disk.step, hc] using h.create hmk hwr
  · exact inPlace_delete quote codec h he
  · exact he

/-- **Volumes are isolated.**  In every run in which each delete is separated from the other
volumes, the volumes that exist stay in place, and every delete leaves the others as they are. -/
theorem volumes_isolated {run : List (Event β)} (hs : InPlace d s)
    (hrun : Throughout (Disk.next quote codec d) (Allowed d) s run) :
    InPlace d (s.after quote codec d run) ∧
      ∀ pre id post, run = pre ++ .call (.delete id) :: post →
        DeleteSpares d (s.after quote codec d pre) id
          (s.after quote codec d (pre ++ [.call (.delete id)])).tree := by
  refine ⟨hrun.invariant (fun s e h he => inPlace_next h e he) hs, ?_⟩
  rintro pre id post rfl
  obtain ⟨-, hdelete⟩ := hrun.split
  have hafter : s.after quote codec d (pre ++ [.call (.delete id)]) =
      (s.after quote codec d pre).step quote codec d (.delete id) := List.foldl_concat ..
  rw [hafter, tree_step_delete]
  exact deleteSpares_of_separated quote hdelete

end

/-! ### Volumes inside another -/

/-- A driver whose base directory is `vol`. -/
def sampleDriver : Driver where
  baseDir := "vol"
  baseDir_ne := by decide

/-- Metadata kept as it is. -/
def plainCodec : Codec VolumeMeta where
  marshal m := m
  unmarshal := some
  unmarshal_marshal _ := rfl

/-- The disk of a new driver, in a tree with nothing else. -/
def sampleDisk : Disk VolumeMeta where
  tree := ((FileTree.empty : FileTree VolumeMeta).mkdirAll ["vol".toList]).getD .empty
  existing := ∅

theorem sampleDisk_inPlace : InPlace sampleDriver sampleDisk where
  base := by decide
  dir v hv := absurd hv notMem_empty
  metadata v hv := absurd hv notMem_empty

theorem separated_sideBySide {s : Disk VolumeMeta}
    (hs : s.existing = ((∅ : Dict String Int64).insert "a/b" 1).insert "a/c" 1) :
    Separated sampleDriver s "a/b" := by
  have hmem : ∀ v ∈ s.existing, v ≠ "a/b" → v = "a/c" := by
    intro v hv hne
    rw [hs, mem_insert, mem_insert] at hv
    rcases hv with hv | hv | hv
    · exact hv
    · exact absurd hv hne
    · exact absurd hv notMem_empty
  refine ⟨by decide +kernel, fun v hv hne => ?_, fun v hv hne => ?_⟩
  · rw [hmem v hv hne]
    decide +kernel
  · rw [hmem v hv hne]
    decide +kernel

/-- Two volumes side by side, and one of them deleted. -/
def sideBySide : List (Event VolumeMeta) :=
  [.call (.create "a/b" 1), .call (.create "a/c" 1), .call (.delete "a/b")]

theorem volumes_isolated_sample :
    InPlace sampleDriver (sampleDisk.after id plainCodec sampleDriver sideBySide) ∧
      DeleteSpares sampleDriver
        (sampleDisk.after id plainCodec sampleDriver (sideBySide.take 2)) "a/b"
        (sampleDisk.after id plainCodec sampleDriver sideBySide).tree := by
  have hrun : Throughout (Disk.next id plainCodec sampleDriver) (Allowed sampleDriver) sampleDisk
      sideBySide := by
    refine ⟨trivial, trivial, fun _ => separated_sideBySide ?_, trivial⟩
    decide +kernel
  obtain ⟨hplace, hspares⟩ := volumes_isolated sampleDisk_inPlace hrun
  exact ⟨hplace, hspares [.call (.create "a/b" 1), .call (.create "a/c" 1)] "a/b" [] rfl⟩

/-- Two volumes, one inside the other, and the outer one deleted. -/
def oneInside : List (Event VolumeMeta) :=
  [.call (.create "a/b" 1), .call (.create "a/b/c" 1), .call (.delete "a/b")]

/-- **A volume inside another goes with it.**  Both IDs are those of volumes of the API server: `b`
in the namespace `a`, and `c` in the namespace `a/b`. -/
theorem nested_volume_deleted :
    "a/b/c" ∈ (sampleDisk.after id plainCodec sampleDriver oneInside).existing ∧
      (sampleDisk.after id plainCodec sampleDriver oneInside).tree.look
        (place (sampleDriver.volumeDir "a/b/c")) = none := by
  decide +kernel

end NimbusCore.Csi
