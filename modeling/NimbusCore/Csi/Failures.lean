import NimbusCore.Csi.Hostpath

/-!
# Csi — a disk that fails

`CreateVolume` and `DeleteVolume` of `internal/csi/hostpath/hostpath.go` again, on a disk whose
calls may fail for reasons of their own (`DiskFailures`).  A call that fails leaves some files
behind, and the driver takes nothing back: what is left is what the failing call has left.

* `createVolumeFailing_none`, `deleteVolumeFailing_none`: on a disk that works these are the calls
  of `Csi.Hostpath`.
* `create_ends`, `delete_ends`: what a call comes to.
* `Affects`: what it does to the files that are there.  A directory below the base directory is
  provisioned when it holds the metadata of a volume (`provisioned`), and
  `Affects.mem_provisioned_iff` says which are after the call.
-/

namespace NimbusCore.Csi

open Apiserver List

/-- The calls of the operating system that fail during a call of the driver, with what each of them
leaves. -/
structure DiskFailures (β : Type) where
  mkdirAll : Option (FileTree β) := none
  writeFile : Option (FileTree β) := none
  removeAll : Option (FileTree β) := none

/-- Where the directory of a volume is. -/
def dirOf (d : Driver) (id : String) : Place := place (d.volumeDir id)

/-- Where the metadata of a volume is. -/
def metaOf (d : Driver) (id : String) : Place := dirOf d id ++ [".volume.json".toList]

/-- The files that a call of the operating system on `t` leaves, which ends as `done` unless it
fails. -/
def attempted {β : Type} (failure : Option (FileTree β)) (t : FileTree β)
    (done : Option (FileTree β)) : Except (FileTree β) (FileTree β) :=
  match failure, done with
  | some left, _ => .error left
  | none, none => .error t
  | none, some t' => .ok t'

section

variable {β : Type} (quote : String → String) (codec : Codec β) (d : Driver)

/-- The checks in front of both calls. -/
def checked {α : Type} (id missing invalid : String) (t : FileTree β)
    (work : Except Status α × FileTree β) : Except Status α × FileTree β :=
  if id = "" then (.error ⟨.invalidArgument, missing, none⟩, t)
  else if d.validVolumeID id = false then (.error ⟨.invalidArgument, invalid, none⟩, t)
  else work

/-- `CreateVolume`. -/
def createVolumeFailing (f : DiskFailures β) (name : String) (requiredBytes : Int64)
    (t : FileTree β) : Except Status CsiVolume × FileTree β :=
  checked d name "name is required" ("invalid volume name " ++ quote name) t <|
    match attempted f.mkdirAll t (t.mkdirAll (dirOf d name)) with
    | .error t => (.error ⟨.internal, "create volume directory: ", none⟩, t)
    | .ok t =>
      let written := t.writeFile (metaOf d name) (codec.marshal ⟨name, requiredBytes⟩)
      match attempted f.writeFile t written with
      | .error t => (.error ⟨.internal, "write volume metadata: ", none⟩, t)
      | .ok t => (.ok ⟨name, requiredBytes⟩, t)

/-- `DeleteVolume`. -/
def deleteVolumeFailing (f : DiskFailures β) (id : String) (t : FileTree β) :
    Except Status Unit × FileTree β :=
  checked d id "volume_id is required" ("invalid volume_id " ++ quote id) t <|
    match f.removeAll with
    | some left => (.error ⟨.internal, "delete volume directory: ", none⟩, left)
    | none =>
      let (t, removed) := t.removeAll (dirOf d id)
      (if removed then .ok () else .error ⟨.internal, "delete volume directory: ", none⟩, t)

theorem place_metaPath_eq (id : String) : place (d.metaPath id) = metaOf d id := d.place_metaPath id

/-- **On a disk that works** a volume is made as before. -/
theorem createVolumeFailing_none (name : String) (requiredBytes : Int64) (t : FileTree β) :
    createVolumeFailing quote codec d {} name requiredBytes t =
      createVolume quote codec d name requiredBytes t := by
  rw [createVolumeFailing, createVolume, place_metaPath_eq, ← dirOf]
  cases t.mkdirAll (dirOf d name) with
  | none => rfl
  | some t₁ =>
    simp only [attempted]
    cases t₁.writeFile (metaOf d name) (codec.marshal ⟨name, requiredBytes⟩) <;> rfl

theorem deleteVolumeFailing_none (id : String) (t : FileTree β) :
    deleteVolumeFailing quote d {} id t = deleteVolume quote d id t := rfl

end

/-! ### What a call comes to -/

section

variable {β : Type} {codec : Codec β} {d : Driver} {f : DiskFailures β} {id : String}
  {requiredBytes : Int64} {t t' : FileTree β} {q : Place}

/-- An ID that the driver works on. -/
def Accepts (d : Driver) (id : String) : Prop := id ≠ "" ∧ d.validVolumeID id = true

theorem checked_cases {α : Type} (d : Driver) (id missing invalid : String) (t : FileTree β)
    (work : Except Status α × FileTree β) :
    Accepts d id ∧ checked d id missing invalid t work = work ∨
      ¬ Accepts d id ∧ ∃ err, checked d id missing invalid t work = (.error err, t) := by
  rw [checked]
  split
  · next h => exact .inr ⟨fun ha => ha.1 h, _, rfl⟩
  · next hid =>
    split
    · next h => exact .inr ⟨fun ha => Bool.false_ne_true (h.symm.trans ha.2), _, rfl⟩
    · next h => exact .inl ⟨⟨hid, by simpa using h⟩, rfl⟩

/-- The directory is not made, or the metadata is not written. -/
def MakeFails (codec : Codec β) (d : Driver) (f : DiskFailures β) (id : String)
    (requiredBytes : Int64) (t t' : FileTree β) : Prop :=
  attempted f.mkdirAll t (t.mkdirAll (dirOf d id)) = .error t' ∨
    ∃ t₁, attempted f.mkdirAll t (t.mkdirAll (dirOf d id)) = .ok t₁ ∧
      attempted f.writeFile t₁ (t₁.writeFile (metaOf d id) (codec.marshal ⟨id, requiredBytes⟩)) =
        .error t'

/-- Both are done. -/
structure Makes (codec : Codec β) (d : Driver) (f : DiskFailures β) (id : String)
    (requiredBytes : Int64) (t t₁ t' : FileTree β) : Prop where
  works : f.mkdirAll = none
  writes : f.writeFile = none
  mkdirAll : t.mkdirAll (dirOf d id) = some t₁
  writeFile : t₁.writeFile (metaOf d id) (codec.marshal ⟨id, requiredBytes⟩) = some t'

theorem Makes.look_meta (h : Makes codec d f id requiredBytes t t₁ t') :
    t'.look (metaOf d id) = some (.file (codec.marshal ⟨id, requiredBytes⟩)) := by
  rw [FileTree.look_writeFile h.writeFile, if_pos rfl]

theorem attempted_eq_ok {failure done : Option (FileTree β)} :
    attempted failure t done = .ok t' ↔ failure = none ∧ done = some t' := by
  rcases failure with _ | left <;> rcases done with _ | t₁ <;> simp [attempted]

theorem attempted_eq_error {failure done : Option (FileTree β)} :
    attempted failure t done = .error t' ↔
      failure = some t' ∨ failure = none ∧ done = none ∧ t' = t := by
  rcases failure with _ | left <;> rcases done with _ | t₁ <;> simp [attempted, eq_comm]

/-- **What a create comes to.** -/
theorem create_ends (quote : String → String) (codec : Codec β) (d : Driver) (f : DiskFailures β)
    (id : String) (requiredBytes : Int64) (t : FileTree β) :
    (¬ Accepts d id ∧
        ∃ err, createVolumeFailing quote codec d f id requiredBytes t = (.error err, t)) ∨
      Accepts d id ∧
        ((∃ err t', createVolumeFailing quote codec d f id requiredBytes t = (.error err, t') ∧
            MakeFails codec d f id requiredBytes t t') ∨
          ∃ t₁ t', createVolumeFailing quote codec d f id requiredBytes t =
              (.ok ⟨id, requiredBytes⟩, t') ∧ Makes codec d f id requiredBytes t t₁ t') := by
  rcases checked_cases d id _ _ t _ with ⟨ha, h⟩ | h
  · refine .inr ⟨ha, ?_⟩
    rw [createVolumeFailing, h]
    cases hmk : attempted f.mkdirAll t (t.mkdirAll (dirOf d id)) with
    | error t' => exact .inl ⟨_, t', rfl, .inl hmk⟩
    | ok t₁ =>
      dsimp only
      cases hwr : attempted f.writeFile t₁
          (t₁.writeFile (metaOf d id) (codec.marshal ⟨id, requiredBytes⟩)) with
      | error t' => exact .inl ⟨_, t', rfl, .inr ⟨t₁, hmk, hwr⟩⟩
      | ok t' =>
        obtain ⟨hworks, hmk⟩ := attempted_eq_ok.mp hmk
        obtain ⟨hwrites, hwr⟩ := attempted_eq_ok.mp hwr
        exact .inr ⟨t₁, t', rfl, hworks, hwrites, hmk, hwr⟩
  · exact .inl h

/-- The directory is not removed, or not all of it. -/
def RemoveFails (d : Driver) (f : DiskFailures β) (id : String) (t t' : FileTree β) : Prop :=
  f.removeAll = some t' ∨
    f.removeAll = none ∧ (t.removeAll (dirOf d id)).2 = false ∧ t' = (t.removeAll (dirOf d id)).1

/-- It is. -/
structure Removes (d : Driver) (f : DiskFailures β) (id : String) (t t' : FileTree β) : Prop where
  works : f.removeAll = none
  removed : (t.removeAll (dirOf d id)).2 = true
  eq : t' = (t.removeAll (dirOf d id)).1

/-- **What a delete comes to.** -/
theorem delete_ends (quote : String → String) (d : Driver) (f : DiskFailures β) (id : String)
    (t : FileTree β) :
    (¬ Accepts d id ∧ ∃ err, deleteVolumeFailing quote d f id t = (.error err, t)) ∨
      Accepts d id ∧
        ((∃ err t', deleteVolumeFailing quote d f id t = (.error err, t') ∧
            RemoveFails d f id t t') ∨
          ∃ t', deleteVolumeFailing quote d f id t = (.ok (), t') ∧ Removes d f id t t') := by
  rcases checked_cases d id _ _ t _ with ⟨ha, h⟩ | h
  · refine .inr ⟨ha, ?_⟩
    rw [deleteVolumeFailing, h]
    cases hf : f.removeAll with
    | some left => exact .inl ⟨_, left, rfl, .inl hf⟩
    | none =>
      cases hrm : (t.removeAll (dirOf d id)).2 with
      | false => exact .inl ⟨_, _, by simp only [hrm]; rfl, .inr ⟨hf, hrm, rfl⟩⟩
      | true => exact .inr ⟨_, by simp only [hrm]; rfl, hf, hrm, rfl⟩
  · exact .inl h

/-! ### The files -/

/-- The failing calls on behalf of a volume leave no more behind than such calls can. -/
structure DiskFailures.Possible (f : DiskFailures β) (d : Driver) (id : String) (t : FileTree β) :
    Prop where
  mkdirAll : ∀ left, f.mkdirAll = some left → t.MkdirLeaves (dirOf d id) left
  writeFile : ∀ left, f.writeFile = some left → ∀ t₁, t.mkdirAll (dirOf d id) = some t₁ →
    t₁.WriteLeaves (metaOf d id) left
  removeAll : ∀ left, f.removeAll = some left → t.RemoveLeaves (dirOf d id) left

theorem DiskFailures.possible_none (d : Driver) (id : String) (t : FileTree β) :
    ({} : DiskFailures β).Possible d id t := ⟨by simp, by simp, by simp⟩

/-- What a call for a volume does to the files: outside of its directory nothing, and when it has
succeeded there is the metadata beside what there was, or nothing. -/
structure Affects (d : Driver) (id : String) (adds ok : Bool) (t t' : FileTree β) : Prop where
  outside : ∀ q, ¬ dirOf d id <+: q → (t'.IsFile q ↔ t.IsFile q)
  added : ok = true → adds = true →
    place d.baseDir <+: dirOf d id ∧ ∀ q, t'.IsFile q ↔ q = metaOf d id ∨ t.IsFile q
  removed : ok = true → adds = false → ∀ q, dirOf d id <+: q → ¬ t'.IsFile q

theorem Affects.of_failed {adds : Bool}
    (h : ∀ q, ¬ dirOf d id <+: q → (t'.IsFile q ↔ t.IsFile q)) : Affects d id adds false t t' :=
  ⟨h, by simp, by simp⟩

theorem ne_metaOf (hq : ¬ dirOf d id <+: q) : q ≠ metaOf d id := by
  rintro rfl
  exact hq (prefix_append _ _)

theorem MakeFails.affects (h : MakeFails codec d f id requiredBytes t t')
    (hf : f.Possible d id t) : Affects d id true false t t' := by
  refine .of_failed fun q hq => ?_
  rcases h with h | ⟨t₁, hmk, h⟩
  · rcases attempted_eq_error.mp h with h | ⟨-, -, rfl⟩
    · exact (hf.mkdirAll _ h).isFile_iff
    · exact Iff.rfl
  · obtain ⟨-, hmk⟩ := attempted_eq_ok.mp hmk
    rw [← FileTree.isFile_mkdirAll_iff hmk]
    rcases attempted_eq_error.mp h with h | ⟨-, -, rfl⟩
    · exact (hf.writeFile _ h _ hmk).isFile_iff (ne_metaOf hq)
    · exact Iff.rfl

theorem Makes.affects {t₁ : FileTree β} (h : Makes codec d f id requiredBytes t t₁ t')
    (ha : Accepts d id) : Affects d id true true t t' := by
  have hfile : ∀ q, t'.IsFile q ↔ q = metaOf d id ∨ t.IsFile q := fun q => by
    rw [FileTree.isFile_writeFile_iff h.writeFile, FileTree.isFile_mkdirAll_iff h.mkdirAll]
  refine ⟨fun q hq => ?_, fun _ _ => ⟨Driver.base_prefix ha.2, hfile⟩, by simp⟩
  rw [hfile, or_iff_right (ne_metaOf hq)]

theorem isFile_removeAll_outside (hq : ¬ dirOf d id <+: q) :
    (t.removeAll (dirOf d id)).1.IsFile q ↔ t.IsFile q := by
  refine FileTree.isFile_of_eq ?_
  rw [FileTree.look_removeAll, if_neg fun h => hq h.2]

theorem RemoveFails.affects (h : RemoveFails d f id t t') (hf : f.Possible d id t) :
    Affects d id false false t t' := by
  refine .of_failed fun q hq => ?_
  rcases h with h | ⟨-, -, rfl⟩
  · exact (hf.removeAll _ h).isFile_iff hq
  · exact isFile_removeAll_outside hq

theorem Removes.affects (h : Removes d f id t t') : Affects d id false true t t' := by
  obtain ⟨-, hrm, rfl⟩ := h
  refine ⟨fun q hq => isFile_removeAll_outside hq, by simp, fun _ _ q hq hfile => ?_⟩
  exact ((FileTree.isFile_removeAll_iff (of_decide_eq_true hrm).1).mp hfile).2 hq

/-! ### Provisioned directories -/

/-- The directories below the base directory that hold the metadata of a volume. -/
def provisioned (d : Driver) (t : FileTree β) : Set Place :=
  {l | place d.baseDir <+: l ∧ t.IsFile (l ++ [".volume.json".toList])}

/-- A call that fails and leaves the directory as it was leaves all of them. -/
theorem Affects.provisioned_eq {adds ok : Bool} (h : Affects d id adds ok t t')
    (hfiles : Untouched (dirOf d id) t t') : provisioned d t' = provisioned d t := by
  ext l
  refine and_congr_right fun _ => ?_
  by_cases hq : dirOf d id <+: l ++ [".volume.json".toList]
  · exact FileTree.isFile_of_eq (hfiles _ hq)
  · exact h.outside _ hq

/-- **After a call that succeeds** one directory is provisioned, or is not, and the others are as
before, if none is above or below it. -/
theorem Affects.mem_provisioned_iff {adds : Bool} (h : Affects d id adds true t t')
    (hapart : ∀ l ∈ provisioned d t, l ≠ dirOf d id → ¬ l <+: dirOf d id ∧ ¬ dirOf d id <+: l)
    (l : Place) :
    l ∈ provisioned d t' ↔ if l = dirOf d id then adds = true else l ∈ provisioned d t := by
  cases adds with
  | true =>
    obtain ⟨hbase, hfile⟩ := h.added rfl rfl
    simp only [provisioned, Set.mem_ofPred_eq, hfile, metaOf, append_left_inj]
    split
    · next hl => simp [hl, hbase]
    · next hl => rw [or_iff_right hl]
  | false =>
    split
    · next hl =>
      refine iff_of_false (fun hin => ?_) (by simp)
      exact h.removed rfl rfl _ (hl ▸ prefix_append _ _) hin.2
    · next hl =>
      constructor
      · rintro ⟨hl', hfile⟩
        refine ⟨hl', (h.outside _ fun hq => ?_).mp hfile⟩
        exact h.removed rfl rfl _ hq hfile
      · rintro ⟨hl', hfile⟩
        obtain ⟨habove, hbelow⟩ := hapart l ⟨hl', hfile⟩ hl
        refine ⟨hl', (h.outside _ fun hq => ?_).mpr hfile⟩
        rcases prefix_concat_iff.mp hq with hq | hq
        · exact habove (hq ▸ prefix_append _ _)
        · exact hbelow hq

end

end NimbusCore.Csi
