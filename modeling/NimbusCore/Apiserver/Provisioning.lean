import Mathlib.Data.Set.Function
import NimbusCore.Apiserver.Volumes
import NimbusCore.Csi.Failures
import NimbusCore.Csi.Listing
import NimbusCore.Store.Raft

/-!
# Apiserver — volumes in two places

`CreateVolume` and `DeleteVolume` of `internal/apiserver/volume_service.go`, with the disk that the
driver works on beside the registry they write to.  Both have the driver change the disk first
(`provision`), then write to the registry, and neither takes the first back when the second fails.

What fails is an argument (`Failures`): each call of the operating system may fail and leave what it
likes, and a write to the registry may be refused, as `RaftStore.apply` does on a follower, or be
lost, which is to fail although it was carried out.

* `yields_createVolume`, `yields_deleteVolume`: with the answers of the driver given, these are the
  calls of `Apiserver.Volumes`.
* `call_allOrNothing_iff`: a call is all or nothing exactly if what fails comes before the directory
  has changed (`Safe`).
* `Steps`: any number of calls, half by half and in any order, while anything may fail.  Between its
  halves a call owes the registry a write; what is stored, with what is owed counted as written, is
  `recorded`.  In a clean run what is recorded and the provisioned directories correspond one to one
  in every state (`inv_steps`).
* `follower_halves_volumes`: one write that is refused is enough to part them.
-/

namespace NimbusCore.Apiserver.Provisioning

open Api Registry Csi Prog List

/-! ### The two halves of a call -/

/-- What is stored, and the files of the driver. -/
@[ext] structure Storage (β : Type) where
  store : State
  tree : FileTree β

/-- A request that changes volumes. -/
inductive VolumeRequest where
  | create (vol : Volume)
  | delete (ns name : String)

/-- A write to the registry of volumes: what is to be stored, or that nothing is. -/
structure Write where
  ns : String
  name : String
  obj : Option Volume

/-- What the service calls a volume when it talks to the driver. -/
def volumeID (ns name : String) : String := ns ++ "/" ++ name

namespace Write

def key (o : Write) : String := path o.ns o.name

/-- `Put`, or `Delete`. -/
def carriedOut (o : Write) (s : State) : State :=
  s.set .volumes (match o.obj with
    | some vol => (s .volumes).insert o.key vol
    | none => (s .volumes).erase o.key)

theorem lookup_carriedOut (o : Write) (s : State) (k : String) :
    ((o.carriedOut s) .volumes).lookup k = if k = o.key then o.obj else (s .volumes).lookup k := by
  obtain ⟨ns, name, _ | vol⟩ := o
  · exact (congrArg _ (State.set_self s ..)).trans (Finmap.lookup_erase_eq ..)
  · exact (congrArg _ (State.set_self s ..)).trans (Finmap.lookup_insert_eq ..)

end Write

namespace VolumeRequest

/-- The write that the request ends with.  The driver answers the capacity it was asked for. -/
def write : VolumeRequest → Write
  | .create vol => ⟨vol.getMetadata.ns, vol.getMetadata.name,
      some (boundVolume vol vol.getSpec.requestedBytes)⟩
  | .delete ns name => ⟨ns, name, none⟩

/-- What the driver calls the volume. -/
def id (r : VolumeRequest) : String := volumeID r.write.ns r.write.name

/-- The text in front of an error of the registry. -/
def ofWrite : VolumeRequest → String
  | .create _ => "create volume: "
  | .delete _ _ => "delete volume: "

end VolumeRequest

/-- How a write to the registry ends. -/
inductive RegistryEnd where
  | done
  /-- It fails and nothing is written. -/
  | refused
  /-- It fails, though it is written. -/
  | lost
  deriving DecidableEq

namespace RegistryEnd

/-- What is stored after a write. -/
def leaves (e : RegistryEnd) (o : Write) (s : State) : State :=
  if e = .refused then s else o.carriedOut s

/-- What a registry whose calls end so answers. -/
def answers : RegistryEnd → Handler Cmd Cmd.Answer State
  | .done => serve
  | .refused => fun c s x s' => s' = s ∧ x = c.failure
  | .lost => fun c s x s' => (∃ y, serve c s y s') ∧ x = c.failure

end RegistryEnd

/-- What fails during one call of the service. -/
structure Failures (β : Type) where
  disk : DiskFailures β := {}
  registry : RegistryEnd := .done

variable {e : RegistryEnd} {s : State} {ns name : String}

section

variable {β : Type} (quote : String → String) (text : Status → String) (codec : Csi.Codec β)
  (d : Driver)

/-- The first half of a call: the checks and the driver.  `text` is how the service prints an error
of the driver. -/
def provision (r : VolumeRequest) (f : DiskFailures β) (t : FileTree β) :
    Except Status Write × FileTree β :=
  match r with
  | .create vol =>
    let md := vol.getMetadata
    if md.name = "" then
      (.error ⟨.invalidArgument, "volume.metadata.name is required", none⟩, t)
    else
      let (made, t) := createVolumeFailing quote codec d f (volumeID md.ns md.name)
        vol.getSpec.requestedBytes t
      match made with
      | .error err => (.error ⟨.internal, "provision volume: " ++ text err, none⟩, t)
      | .ok made => (.ok ⟨md.ns, md.name, some (boundVolume vol made.capacityBytes)⟩, t)
  | .delete ns name =>
    if ns = "" ∨ name = "" then
      (.error ⟨.invalidArgument, "namespace and name are required", none⟩, t)
    else
      let (gone, t) := deleteVolumeFailing quote d f (volumeID ns name) t
      match gone with
      | .error err => (.error ⟨.internal, "deprovision volume: " ++ text err, none⟩, t)
      | .ok () => (.ok ⟨ns, name, none⟩, t)

/-- `CreateVolume` and `DeleteVolume`: what a call returns, and what it leaves. -/
def call (r : VolumeRequest) (f : Failures β) (w : Storage β) :
    Except Status (Option Volume) × Storage β :=
  let (first, t) := provision quote text codec d r f.disk w.tree
  match first with
  | .error err => (.error err, ⟨w.store, t⟩)
  | .ok o =>
    (if f.registry = .done then .ok o.obj else .error ⟨.internal, r.ofWrite, some .failed⟩,
      ⟨f.registry.leaves o w.store, t⟩)

/-- What the driver answers on the files. -/
def answering (f : DiskFailures β) (t : FileTree β) : CsiController where
  createVolume name requiredBytes :=
    ((createVolumeFailing quote codec d f name requiredBytes t).1.map
      CsiVolume.capacityBytes).mapError
      text
  deleteVolume id := (deleteVolumeFailing quote d f id t).1.mapError text

variable (f : Failures β) (w : Storage β)

theorem yields_answers {c : Cmd} {y : c.Answer} {t : State}
    (hserve : ∀ x s', serve c s x s' ↔ s' = t ∧ x = y) :
    (Prog.ask c (ξ := Stop)).Yields e.answers s (if e = .done then y else c.failure)
      (if e = .refused then s else t) := by
  refine yields_ask fun x s' => ?_
  cases e with
  | done => exact (hserve x s').trans and_comm
  | refused => exact and_comm
  | lost =>
    exact ⟨fun h => ⟨h.2, ((hserve _ _).mp h.1.choose_spec).1⟩,
      fun h => ⟨⟨_, (hserve _ _).mpr ⟨h.2, rfl⟩⟩, h.1⟩⟩

/-- **The same calls.**  With the answers of the driver given, these are the calls of
`Apiserver.Volumes`. -/
theorem yields_createVolume (vol : Volume) :
    ∃ res, (createVolume (answering quote text codec d f.disk w.tree) vol).Yields
        f.registry.answers w.store res (call quote text codec d (.create vol) f w).2.store ∧
      (call quote text codec d (.create vol) f w).1 = res.map some := by
  rw [createVolume, call, provision]
  by_cases hname : vol.getMetadata.name = ""
  · rw [if_pos hname, if_pos hname]
    exact ⟨_, yields_pure, rfl⟩
  · rw [if_neg hname, if_neg hname]
    simp only [answering, volumeID]
    rcases createVolumeFailing quote codec d f.disk _ vol.getSpec.requestedBytes w.tree with
      ⟨err | made, t⟩
    · exact ⟨_, yields_pure, rfl⟩
    · refine ⟨if f.registry = .done then .ok (boundVolume vol made.capacityBytes)
        else .error ⟨.internal, "create volume: ", some .failed⟩,
          Yields.bind (yields_answers (c := .put .volumes _ _ _) fun _ _ => Iff.rfl) ?_, ?_⟩
      all_goals by_cases hdone : f.registry = .done <;> simp only [hdone, if_true, if_false]
      all_goals first | exact yields_pure | rfl

theorem yields_deleteVolume (ns name : String) :
    ∃ res, (deleteVolume (answering quote text codec d f.disk w.tree) ns name).Yields
        f.registry.answers w.store res (call quote text codec d (.delete ns name) f w).2.store ∧
      (call quote text codec d (.delete ns name) f w).1 = res.map fun _ => none := by
  rw [deleteVolume, call, provision]
  by_cases hname : ns = "" ∨ name = ""
  · rw [if_pos hname, if_pos hname]
    exact ⟨_, yields_pure, rfl⟩
  · rw [if_neg hname, if_neg hname]
    simp only [answering, volumeID]
    rcases deleteVolumeFailing quote d f.disk _ w.tree with ⟨err | _, t⟩
    · exact ⟨_, yields_pure, rfl⟩
    · refine ⟨if f.registry = .done then .ok ()
        else .error ⟨.internal, "delete volume: ", some .failed⟩,
        Yields.bind (yields_answers (c := .delete .volumes _ _) fun _ _ => Iff.rfl) ?_, ?_⟩
      all_goals by_cases hdone : f.registry = .done <;> simp only [hdone, if_true, if_false]
      all_goals first | exact yields_pure | rfl

end

/-! ### What the driver leaves -/

variable {l : Place} {o : Write}

section

variable {β : Type}

/-- No file is where a directory has to be. -/
def Open (t : FileTree β) (l : Place) : Prop := ∀ p, p <+: l → p ≠ l → ¬ t.IsFile p

/-- Nothing is at the place or below it, but for the top of the tree. -/
def Bare (t : FileTree β) (l : Place) : Prop := ∀ q, q ≠ [] → l <+: q → t.look q = none

variable {codec : Csi.Codec β} {d : Driver} {t t' t₁ : FileTree β} {id : String}

theorem not_metaOf_prefix (d : Driver) (id : String) : ¬ metaOf d id <+: dirOf d id := by
  intro h
  have := h.length_le
  rw [metaOf, length_append, length_singleton] at this
  omega

theorem open_metaOf_iff : Open t (metaOf d id) ↔ ∀ p, p <+: dirOf d id → ¬ t.IsFile p := by
  constructor
  · intro h p hp
    refine h p (hp.trans (prefix_append _ _)) ?_
    rintro rfl
    exact not_metaOf_prefix d id hp
  · intro h p hp hne
    exact h p ((prefix_concat_iff.mp hp).resolve_left hne)

theorem not_open_of_mkdirAll (h : t.mkdirAll (dirOf d id) = none) : ¬ Open t (metaOf d id) := by
  intro hopen
  obtain ⟨t₁, ht₁⟩ := FileTree.exists_mkdirAll (open_metaOf_iff.mp hopen)
  rw [h] at ht₁
  cases ht₁

section

variable (hmk : t.mkdirAll (dirOf d id) = some t₁)

include hmk

theorem open_of_mkdirAll : Open t (metaOf d id) :=
  open_metaOf_iff.mpr fun _ hp => FileTree.not_isFile_of_mkdirAll hmk hp

/-- Making the directory changes nothing of where the metadata is to be. -/
theorem look_metaOf_mkdirAll : t₁.look (metaOf d id) = t.look (metaOf d id) := by
  rw [FileTree.look_mkdirAll hmk, if_neg <| not_metaOf_prefix d id]

/-- Making a directory that is there changes nothing. -/
theorem untouched_mkdirAll (hdir : t.IsDir (dirOf d id)) : Untouched (dirOf d id) t t₁ := by
  intro q hq
  rw [FileTree.look_mkdirAll hmk]
  split
  · next hp => rw [hp.eq_of_length_le hq.length_le, hdir]
  · rfl

/-- A directory where the metadata is to be is in the volume's directory, which is there. -/
theorem untouched_notWritten {data : β} (hwr : t₁.writeFile (metaOf d id) data = none) :
    t.IsDir (metaOf d id) ∧ Untouched (dirOf d id) t t₁ := by
  have hmade : t₁.IsDir (dirOf d id) := by
    rw [FileTree.IsDir, FileTree.look_mkdirAll hmk, if_pos (prefix_refl _)]
  have hmeta : t.IsDir (metaOf d id) := by
    by_contra hnot
    obtain ⟨t₂, ht₂⟩ := FileTree.exists_writeFile data hmade fun h =>
      hnot ((look_metaOf_mkdirAll hmk).symm.trans h)
    rw [metaOf] at hwr
    rw [hwr] at ht₂
    cases ht₂
  exact ⟨hmeta, untouched_mkdirAll hmk (t.closed _ _ _ hmeta)⟩

/-- **A volume that is made was there** exactly if its metadata was. -/
theorem untouched_written_iff {data : β} (hwr : t₁.writeFile (metaOf d id) data = some t') :
    Untouched (dirOf d id) t t' ↔ t.look (metaOf d id) = some (.file data) := by
  constructor
  · intro h
    rw [← h (metaOf d id) (prefix_append _ _), FileTree.look_writeFile hwr, if_pos rfl]
  · intro h q hq
    rw [FileTree.look_writeFile hwr]
    split
    · next hqm => rw [hqm, h]
    · exact untouched_mkdirAll hmk (t.closed _ _ _ h) q hq

end

/-- **A removal changes nothing** exactly where there is nothing. -/
theorem untouched_removeAll_iff : Untouched l t (t.removeAll l).1 ↔ Bare t l := by
  constructor
  · intro h q hq hl
    rw [← h q hl, FileTree.look_removeAll, if_pos ⟨hq, hl⟩]
  · intro h q hl
    rw [FileTree.look_removeAll]
    split
    · next hq => exact (h q hq.1 hl).symm
    · rfl

/-- A file on the way to a place leaves nothing there. -/
theorem bare_of_not_open (h : ¬ Open t l) : Bare t l := by
  intro q hq hl
  simp only [Open, not_forall, not_not] at h
  obtain ⟨p, hp, hne, data, hdata⟩ := h
  cases hlook : t.look q with
  | none => rfl
  | some node =>
    have hpq : p ≠ q := by
      rintro rfl
      exact hne (hp.eq_of_length_le hl.length_le)
    have hdir := FileTree.dir_of_prefix (hp.trans hl) hpq hlook
    rw [FileTree.IsDir, hdata] at hdir
    cases hdir

theorem removeAll_eq_true_iff : (t.removeAll l).2 = true ↔ l ≠ [] ∧ Open t l := by
  rw [FileTree.removeAll, decide_eq_true_iff]
  simp only [Open, mem_inits, not_exists, not_and]

/-! ### One call -/

/-- A request that reaches the disk. -/
def Reaches (d : Driver) : VolumeRequest → Prop
  | .create vol => vol.getMetadata.name ≠ "" ∧
      Accepts d (volumeID vol.getMetadata.ns vol.getMetadata.name)
  | .delete ns name => ¬ (ns = "" ∨ name = "") ∧ Accepts d (volumeID ns name)

/-- The driver fails. -/
def Fails (codec : Csi.Codec β) (d : Driver) (f : DiskFailures β) (t t' : FileTree β) :
    VolumeRequest → Prop
  | .create vol => MakeFails codec d f (volumeID vol.getMetadata.ns vol.getMetadata.name)
      vol.getSpec.requestedBytes t t'
  | .delete ns name => RemoveFails d f (volumeID ns name) t t'

/-- The driver succeeds. -/
def Succeeds (codec : Csi.Codec β) (d : Driver) (f : DiskFailures β) (t t' : FileTree β) :
    VolumeRequest → Prop
  | .create vol => ∃ t₁, Makes codec d f (volumeID vol.getMetadata.ns vol.getMetadata.name)
      vol.getSpec.requestedBytes t t₁ t'
  | .delete ns name => Removes d f (volumeID ns name) t t'

/-- **What the first half comes to.** -/
theorem provision_ends (quote : String → String) (text : Status → String) (codec : Csi.Codec β)
    (d : Driver) (r : VolumeRequest) (f : DiskFailures β) (t : FileTree β) :
    (¬ Reaches d r ∧ ∃ err, provision quote text codec d r f t = (.error err, t)) ∨
      Reaches d r ∧
        ((∃ err t', provision quote text codec d r f t = (.error err, t') ∧
            Fails codec d f t t' r) ∨
          ∃ t', provision quote text codec d r f t = (.ok r.write, t') ∧
            Succeeds codec d f t t' r) := by
  cases r with
  | create vol =>
    rw [provision]
    by_cases hname : vol.getMetadata.name = ""
    · exact .inl ⟨fun h => h.1 hname, _, if_pos hname⟩
    · rw [if_neg hname]
      rcases create_ends quote codec d f (volumeID vol.getMetadata.ns vol.getMetadata.name)
          vol.getSpec.requestedBytes t with
        ⟨hnot, err, hres⟩ | ⟨hacc, ⟨err, t', hres, h⟩ | ⟨t₁, t', hres, h⟩⟩ <;> rw [hres]
      · exact .inl ⟨fun h => hnot h.2, _, rfl⟩
      · exact .inr ⟨⟨hname, hacc⟩, .inl ⟨_, t', rfl, h⟩⟩
      · exact .inr ⟨⟨hname, hacc⟩, .inr ⟨t', rfl, t₁, h⟩⟩
  | delete ns name =>
    rw [provision]
    by_cases hname : ns = "" ∨ name = ""
    · exact .inl ⟨fun h => h.1 hname, _, if_pos hname⟩
    · rw [if_neg hname]
      rcases delete_ends quote d f (volumeID ns name) t with
        ⟨hnot, err, hres⟩ | ⟨hacc, ⟨err, t', hres, h⟩ | ⟨t', hres, h⟩⟩ <;> rw [hres]
      · exact .inl ⟨fun h => hnot h.2, _, rfl⟩
      · exact .inr ⟨⟨hname, hacc⟩, .inl ⟨_, t', rfl, h⟩⟩
      · exact .inr ⟨⟨hname, hacc⟩, .inr ⟨t', rfl, h⟩⟩

/-- The stored object and the directory of a volume are as they were. -/
structure Unchanged (d : Driver) (r : VolumeRequest) (w w' : Storage β) : Prop where
  stored : (w'.store .volumes).lookup r.write.key = (w.store .volumes).lookup r.write.key
  files : Untouched (dirOf d r.id) w.tree w'.tree

/-- The directory is there with the metadata of the volume, or is not there. -/
def FilesChanged (codec : Csi.Codec β) (d : Driver) (t : FileTree β) (r : VolumeRequest) : Prop :=
  match r with
  | .create vol => t.IsDir (dirOf d r.id) ∧ t.look (metaOf d r.id) =
      some (.file (codec.marshal ⟨r.id, vol.getSpec.requestedBytes⟩))
  | .delete _ _ => ∀ q, dirOf d r.id <+: q → t.look q = none

/-- **All or nothing**: a call that fails has left both, and one that succeeds has changed both. -/
structure AllOrNothing (codec : Csi.Codec β) (d : Driver) (r : VolumeRequest) (w : Storage β)
    (res : Except Status (Option Volume) × Storage β) : Prop where
  failed : ∀ err, res.1 = .error err → Unchanged d r w res.2
  stored : ∀ o, res.1 = .ok o → o = r.write.obj ∧ (res.2.store .volumes).lookup r.write.key = o
  files : ∀ o, res.1 = .ok o → FilesChanged codec d res.2.tree r

/-- What a failing call of the operating system leaves is the directory as it was. -/
def DiskSafe (d : Driver) (f : DiskFailures β) (t : FileTree β) (r : VolumeRequest) : Prop :=
  match r with
  | .create _ => (∀ left, f.mkdirAll = some left → Untouched (dirOf d r.id) t left) ∧
      (f.mkdirAll = none → Open t (metaOf d r.id) →
        ∀ left, f.writeFile = some left → Untouched (dirOf d r.id) t left)
  | .delete _ _ => (∀ left, f.removeAll = some left → Untouched (dirOf d r.id) t left) ∧
      (f.removeAll = none → dirOf d r.id = [] → Bare t [])

/-- Nothing is in the way of the driver, and nothing fails. -/
def GoesThrough (d : Driver) (f : DiskFailures β) (t : FileTree β) (r : VolumeRequest) : Prop :=
  match r with
  | .create _ => f.mkdirAll = none ∧ f.writeFile = none ∧ Open t (metaOf d r.id) ∧
      ¬ t.IsDir (metaOf d r.id)
  | .delete _ _ => f.removeAll = none ∧ dirOf d r.id ≠ [] ∧ Open t (dirOf d r.id)

/-- The files are as the driver would leave them. -/
def AlreadySo (codec : Csi.Codec β) (d : Driver) (t : FileTree β) (r : VolumeRequest) : Prop :=
  match r with
  | .create vol => t.look (metaOf d r.id) =
      some (.file (codec.marshal ⟨r.id, vol.getSpec.requestedBytes⟩))
  | .delete _ _ => Bare t (dirOf d r.id)

/-- When a call that reaches the disk is all or nothing. -/
structure Safe (codec : Csi.Codec β) (d : Driver) (r : VolumeRequest) (f : Failures β)
    (w : Storage β) : Prop where
  disk : DiskSafe d f.disk w.tree r
  registry : GoesThrough d f.disk w.tree r → f.registry ≠ .done → AlreadySo codec d w.tree r ∧
    (f.registry = .lost → (w.store .volumes).lookup r.write.key = r.write.obj)

variable {r : VolumeRequest} {f : DiskFailures β}

/-- A driver that fails leaves the directory exactly if the disk is safe. -/
theorem Fails.untouched_iff (h : Fails codec d f t t' r) :
    (Untouched (dirOf d r.id) t t' ↔ DiskSafe d f t r) ∧ ¬ GoesThrough d f t r := by
  cases r with
  | create vol =>
    rcases h with h | ⟨t₁, hmk, h⟩
    · rcases attempted_eq_error.mp h with hleft | ⟨hworks, hmk, rfl⟩
      · refine ⟨⟨fun hfiles => ⟨?_, by simp [hleft]⟩, fun hsafe => hsafe.1 t' hleft⟩, ?_⟩
        · rintro left hleft'
          cases hleft.symm.trans hleft'
          exact hfiles
        · simp [GoesThrough, hleft]
      · have hopen := not_open_of_mkdirAll hmk
        exact ⟨iff_of_true (fun _ _ => rfl) ⟨by simp [hworks], fun _ ho => absurd ho hopen⟩,
          fun h => hopen h.2.2.1⟩
    · obtain ⟨hworks, hmk⟩ := attempted_eq_ok.mp hmk
      rcases attempted_eq_error.mp h with hleft | ⟨hwrites, hwr, rfl⟩
      · refine ⟨⟨fun hfiles => ⟨by simp [hworks], ?_⟩,
          fun hsafe => hsafe.2 hworks (open_of_mkdirAll hmk) t' hleft⟩, ?_⟩
        · rintro - - left hleft'
          cases hleft.symm.trans hleft'
          exact hfiles
        · simp [GoesThrough, hleft]
      · obtain ⟨hmeta, hfiles⟩ := untouched_notWritten hmk hwr
        exact ⟨iff_of_true hfiles ⟨by simp [hworks], by simp [hwrites]⟩, fun h => h.2.2.2 hmeta⟩
  | delete ns name =>
    rcases h with hleft | ⟨hworks, hrm, rfl⟩
    · refine ⟨⟨fun hfiles => ⟨?_, by simp [hleft]⟩, fun hsafe => hsafe.1 t' hleft⟩, ?_⟩
      · rintro left hleft'
        cases hleft.symm.trans hleft'
        exact hfiles
      · simp [GoesThrough, hleft]
    · have hblocked : ¬ (dirOf d (VolumeRequest.delete ns name).id ≠ [] ∧
          Open t (dirOf d (VolumeRequest.delete ns name).id)) := fun h =>
        Bool.false_ne_true (hrm.symm.trans (removeAll_eq_true_iff.mpr h))
      refine ⟨?_, fun h => hblocked h.2⟩
      refine untouched_removeAll_iff.trans ⟨fun hbare => ?_, fun hsafe => ?_⟩
      · exact ⟨by simp [hworks], fun _ htop => htop ▸ hbare⟩
      · by_cases htop : dirOf d (VolumeRequest.delete ns name).id = []
        · rw [htop]
          exact hsafe.2 hworks htop
        · exact bare_of_not_open fun hopen => hblocked ⟨htop, hopen⟩

/-- A driver that succeeds leaves the rest to the registry. -/
theorem Succeeds.untouched_iff (h : Succeeds codec d f t t' r) :
    (Untouched (dirOf d r.id) t t' ↔ AlreadySo codec d t r) ∧ GoesThrough d f t r ∧
      DiskSafe d f t r ∧ FilesChanged codec d t' r := by
  cases r with
  | create vol =>
    obtain ⟨t₁, h⟩ := h
    refine ⟨untouched_written_iff h.mkdirAll h.writeFile,
      ⟨h.works, h.writes, open_of_mkdirAll h.mkdirAll, fun hdir => ?_⟩,
      ⟨by simp [h.works], by simp [h.writes]⟩, t'.closed _ _ _ h.look_meta, h.look_meta⟩
    exact FileTree.not_isDir_of_writeFile h.writeFile ((look_metaOf_mkdirAll h.mkdirAll).trans hdir)
  | delete ns name =>
    obtain ⟨hne, hopen⟩ := removeAll_eq_true_iff.mp h.removed
    refine ⟨h.eq ▸ untouched_removeAll_iff, ⟨h.works, hne, hopen⟩,
      ⟨by simp [h.works], fun _ htop => absurd htop hne⟩, fun q hq => ?_⟩
    have hq0 : q ≠ [] := by
      rintro rfl
      exact hne (prefix_nil.mp hq)
    rw [h.eq, FileTree.look_removeAll, if_pos ⟨hq0, hq⟩]

/-- **When a call is all or nothing.** -/
theorem call_allOrNothing_iff (quote : String → String) (text : Status → String)
    (codec : Csi.Codec β) (d : Driver) (r : VolumeRequest) (f : Failures β) (w : Storage β) :
    AllOrNothing codec d r w (call quote text codec d r f w) ↔
      (Reaches d r → Safe codec d r f w) := by
  have herror : ∀ {err : Status} {w' : Storage β},
      AllOrNothing codec d r w (.error err, w') ↔ Unchanged d r w w' := fun {err w'} =>
    ⟨fun h => h.failed err rfl, fun h => ⟨fun _ _ => h, (by simp), (by simp)⟩⟩
  rw [call]
  rcases provision_ends quote text codec d r f.disk w.tree with
    ⟨hnot, err, hres⟩ | ⟨hreach, ⟨err, t', hres, h⟩ | ⟨t', hres, h⟩⟩ <;> rw [hres]
  · exact herror.trans (iff_of_true ⟨rfl, fun _ _ => rfl⟩ fun h => absurd h hnot)
  · obtain ⟨hiff, hnot⟩ := h.untouched_iff
    rw [imp_iff_right hreach]
    refine herror.trans ⟨fun hun => ⟨hiff.mp hun.files, fun hgo => absurd hgo hnot⟩,
      fun hsafe => ⟨rfl, hiff.mpr hsafe.disk⟩⟩
  · obtain ⟨hiff, hgo, hdisk, hfiles⟩ := h.untouched_iff
    rw [imp_iff_right hreach]
    by_cases hdone : f.registry = .done
    · refine iff_of_true ⟨?_, ?_, fun _ _ => hfiles⟩ ⟨hdisk, fun _ hne => absurd hdone hne⟩
      · intro err herr
        simp only [if_pos hdone] at herr
        cases herr
      · intro o ho
        simp only [if_pos hdone, Except.ok.injEq] at ho
        refine ⟨ho.symm, ?_⟩
        simp only [hdone, RegistryEnd.leaves]
        rw [if_neg (by decide), Write.lookup_carriedOut, if_pos rfl, ho]
    · simp only [if_neg hdone]
      refine herror.trans ?_
      have hstored : ((f.registry.leaves r.write w.store) .volumes).lookup r.write.key =
          (w.store .volumes).lookup r.write.key ↔ (f.registry = .lost →
            (w.store .volumes).lookup r.write.key = r.write.obj) := by
        cases hend : f.registry with
        | done => exact absurd hend hdone
        | refused => simp [RegistryEnd.leaves]
        | lost => simp [RegistryEnd.leaves, Write.lookup_carriedOut, eq_comm]
      exact ⟨fun hun => ⟨hdisk, fun _ _ => ⟨hiff.mp hun.files, hstored.mp hun.stored⟩⟩,
        fun hsafe => ⟨hstored.mpr (hsafe.registry hgo hdone).2,
          hiff.mpr (hsafe.registry hgo hdone).1⟩⟩

/-! ### Many calls -/

/-- The storage, and what the calls between their halves still have to write. -/
structure World (β : Type) extends Storage β where
  owed : List Write := []

/-- Half a call. -/
inductive Half (β : Type) where
  | first (r : VolumeRequest) (f : DiskFailures β)
  | second (o : Write) (e : RegistryEnd)

/-- The object of a volume, once the calls between their halves have written. -/
def World.object (W : World β) (v : String) : Option Volume :=
  match W.owed.find? (·.key = v) with
  | some o => o.obj
  | none => (W.store .volumes).lookup v

/-- The volumes that there are then. -/
def recorded (W : World β) : Set String := {v | (W.object v).isSome}

/-- **Stored volumes and provisioned directories** correspond one to one. -/
def Corresponds (d : Driver) (w : Storage β) : Prop :=
  Set.BijOn (dirOf d) {v | v ∈ w.store .volumes} (provisioned d w.tree)

/-- No other call is between its halves with the volume, and its directory is neither above nor
below that of another. -/
structure Apart (d : Driver) (W : World β) (v : String) : Prop where
  alone : ∀ o ∈ W.owed, o.key ≠ v
  apart : ∀ u ∈ recorded W, u ≠ v → ¬ dirOf d u <+: dirOf d v ∧ ¬ dirOf d v <+: dirOf d u

/-- What half a call must meet: the driver works on what is apart from the rest, and leaves it as it
was if it fails; and a write fails only if it would not have mattered. -/
def Clean (d : Driver) (W : World β) : Half β → Prop
  | .first r f => Reaches d r → Apart d W r.write.key ∧ DiskSafe d f W.tree r
  | .second o e => e = .done ∨ (o.key ∈ W.store .volumes ↔ o.obj.isSome = true)

section

variable (quote : String → String) (text : Status → String) (codec : Csi.Codec β) (d : Driver)

/-- Half a call is done, whatever fails. -/
def Step (W : World β) : Half β → World β → Prop
  | .first r f, W' => f.Possible d r.id W.tree ∧
      W' = match provision quote text codec d r f W.tree with
        | (.error _, t) => { W with tree := t }
        | (.ok o, t) => { W with tree := t, owed := o :: W.owed }
  | .second o e, W' => ∃ l l', W.owed = l ++ o :: l' ∧
      W' = { W with store := e.leaves o W.store, owed := l ++ l' }

/-- A clean run: any number of calls, half by half. -/
def CleanSteps : World β → World β → Prop :=
  Relation.ReflTransGen fun W W' => ∃ h, Clean d W h ∧ Step quote text codec d W h W'

/-- **The halves are those of a call.** -/
theorem steps_call (r : VolumeRequest) (f : Failures β) (w : Storage β)
    (hf : f.disk.Possible d r.id w.tree) :
    ∃ W, Step quote text codec d ⟨w, []⟩ (.first r f.disk) W ∧
      (W = ⟨(call quote text codec d r f w).2, []⟩ ∨ ∃ o, Step quote text codec d W
        (.second o f.registry) ⟨(call quote text codec d r f w).2, []⟩) := by
  refine ⟨_, ⟨hf, rfl⟩, ?_⟩
  rw [call]
  rcases provision quote text codec d r f.disk w.tree with ⟨err | o, t⟩
  · exact .inl rfl
  · exact .inr ⟨o, [], [], rfl, rfl⟩

end

theorem walk_slash (p : UnixPath) (name : String) : p.walk ("/" ++ name) = p.walk name := by
  have h := UnixPath.walk_append_slash p [] name.toList
  rwa [nil_append, String.ofList_nil, UnixPath.walk_empty, String.ofList_toList,
    String.ofList_cons, String.ofList_toList] at h

theorem dirOf_key (d : Driver) (r : VolumeRequest) : dirOf d r.write.key = dirOf d r.id := by
  rw [Write.key, VolumeRequest.id]
  by_cases hns : r.write.ns = ""
  · rw [hns, dirOf, dirOf, place, place, d.parse_volumeDir, d.parse_volumeDir, path_empty, volumeID,
      String.empty_append, walk_slash]
  · rw [path_of_ne hns, volumeID]

theorem Fails.affects (h : Fails codec d f t t' r) (hf : f.Possible d r.id t) :
    Affects d r.id r.write.obj.isSome false t t' := by
  cases r with
  | create vol => exact MakeFails.affects h hf
  | delete ns name => exact RemoveFails.affects h hf

theorem Succeeds.affects (h : Succeeds codec d f t t' r) (hr : Reaches d r) :
    Affects d r.id r.write.obj.isSome true t t' := by
  cases r with
  | create vol => exact h.choose_spec.affects hr.2
  | delete ns name => exact Removes.affects h

variable {W W' : World β}

/-- **A call between its halves** has its volume recorded, or not, as it is to be. -/
theorem mem_recorded_owing (o : Write) (u : String) :
    u ∈ recorded { W with tree := t, owed := o :: W.owed } ↔
      if u = o.key then o.obj.isSome = true else u ∈ recorded W := by
  simp only [recorded, World.object, Set.mem_ofPred_eq, find?_cons, eq_comm (b := u)]
  by_cases hu : u = o.key <;> simp [hu]

theorem mem_leaves (h : e = .done ∨ (o.key ∈ s .volumes ↔ o.obj.isSome = true)) (u : String) :
    u ∈ (e.leaves o s) .volumes ↔
      if u = o.key then o.obj.isSome = true else u ∈ s .volumes := by
  rw [RegistryEnd.leaves]
  split
  · next he =>
    split
    · next hu => exact hu ▸ h.resolve_left fun hdone => by cases hdone.symm.trans he
    · rfl
  · simp only [← Finmap.lookup_isSome, Write.lookup_carriedOut]
    split <;> rfl

/-- **A call that writes what it owes** changes nothing of what is recorded. -/
theorem recorded_settled {l l' : List Write}
    (howed : W.owed = l ++ o :: l') (hone : (W.owed.map Write.key).Nodup)
    (hclean : e = .done ∨ (o.key ∈ W.store .volumes ↔ o.obj.isSome = true)) :
    recorded { W with store := e.leaves o W.store, owed := l ++ l' } = recorded W := by
  ext u
  have hstore := mem_leaves hclean u
  simp only [recorded, World.object, Set.mem_ofPred_eq, howed, find?_append, find?_cons]
  by_cases hu : u = o.key
  · -- no other call owes a write of the volume
    subst hu
    rw [howed, map_append, map_cons, nodup_middle, nodup_cons, ← map_append] at hone
    have hnone : ∀ l'' ⊆ l ++ l', l''.find? (·.key = o.key) = none := fun l'' hl =>
      find?_eq_none.mpr fun o' ho' he =>
        hone.1 (mem_map.mpr ⟨o', hl ho', of_decide_eq_true he⟩)
    rw [if_pos rfl, ← Finmap.lookup_isSome] at hstore
    simp [hnone l (subset_append_left ..), hnone l' (subset_append_right ..), hstore]
  · rw [if_neg hu] at hstore
    have hne : decide (o.key = u) = false := decide_eq_false fun h => hu h.symm
    simp only [hne]
    cases l.find? (·.key = u) <;> cases l'.find? (·.key = u) <;>
      simp [Finmap.lookup_isSome, hstore]

/-- One more on each side, or one less. -/
theorem bijOn_change {α γ : Type} [DecidableEq α] [DecidableEq γ] {g : α → γ} {A A' : Set α}
    {B B' : Set γ} {a : α} {P : Prop} (h : Set.BijOn g A B)
    (hne : ∀ a' ∈ A, a' ≠ a → g a' ≠ g a) (hA : ∀ x, x ∈ A' ↔ if x = a then P else x ∈ A)
    (hB : ∀ y, y ∈ B' ↔ if y = g a then P else y ∈ B) : Set.BijOn g A' B' := by
  have hmem : ∀ x, x ≠ a → (x ∈ A' ↔ x ∈ A) := fun x hx => (hA x).trans (by rw [if_neg hx])
  have ha : a ∈ A' ↔ P := (hA a).trans (by rw [if_pos rfl])
  refine ⟨fun x hx => ?_, fun x hx y hy hxy => ?_, fun y hy => ?_⟩
  · rw [hB]
    by_cases hxa : x = a
    · rw [if_pos (congrArg g hxa)]
      exact ha.mp (hxa ▸ hx)
    · have hx := (hmem x hxa).mp hx
      rw [if_neg (hne x hx hxa)]
      exact h.mapsTo hx
  · by_cases hxa : x = a
    · by_contra hyx
      have hya : y ≠ a := fun hya => hyx (hxa.trans hya.symm)
      exact hne y ((hmem y hya).mp hy) hya (hxy ▸ congrArg g hxa)
    · have hx := (hmem x hxa).mp hx
      have hya : y ≠ a := fun hya => hne x hx hxa (hxy.trans (congrArg g hya))
      exact h.injOn hx ((hmem y hya).mp hy) hxy
  · rw [hB] at hy
    split at hy
    · next hya => exact ⟨a, ha.mpr hy, hya.symm⟩
    · next hya =>
      obtain ⟨x, hx, rfl⟩ := h.surjOn hy
      exact ⟨x, (hmem x fun hxa => hya (congrArg g hxa)).mpr hx, rfl⟩

/-- What holds throughout. -/
structure Inv (d : Driver) (W : World β) : Prop where
  one : (W.owed.map Write.key).Nodup
  bij : Set.BijOn (dirOf d) (recorded W) (provisioned d W.tree)

variable {quote : String → String} {text : Status → String}

/-- **Half a clean call** keeps stored volumes and directories together. -/
theorem Inv.step (h : Inv d W) {half : Half β} (hclean : Clean d W half)
    (hstep : Step quote text codec d W half W') : Inv d W' := by
  cases half with
  | second o e =>
    obtain ⟨l, l', howed, rfl⟩ := hstep
    refine ⟨?_, (recorded_settled howed h.one hclean).symm ▸ h.bij⟩
    have hone := h.one
    rw [howed, map_append, map_cons, nodup_middle, nodup_cons, ← map_append] at hone
    exact hone.2
  | first r f =>
    obtain ⟨hf, rfl⟩ := hstep
    rcases provision_ends quote text codec d r f W.tree with
      ⟨-, err, hres⟩ | ⟨hreach, ⟨err, t', hres, hfails⟩ | ⟨t', hres, hgo⟩⟩ <;> simp only [hres]
    · exact h
    · refine ⟨h.one, ?_⟩
      have hfiles := hfails.untouched_iff.1.mpr (hclean hreach).2
      exact ((hfails.affects hf).provisioned_eq hfiles).symm ▸ h.bij
    · obtain ⟨⟨halone, hapart⟩, -⟩ := hclean hreach
      have hkey := dirOf_key d r
      refine ⟨nodup_cons.mpr ⟨fun hin => ?_, h.one⟩, bijOn_change (a := r.write.key)
        (P := r.write.obj.isSome = true) h.bij (fun u hu hne heq => ?_) (mem_recorded_owing _)
        fun l => ?_⟩
      · obtain ⟨o, ho, he⟩ := mem_map.mp hin
        exact halone o ho he
      · exact (hapart u hu hne).1 (heq ▸ prefix_refl _)
      · rw [hkey]
        refine (hgo.affects hreach).mem_provisioned_iff (fun l hl hne => ?_) l
        -- every provisioned directory is that of a volume that is recorded
        obtain ⟨u, hu, rfl⟩ := h.bij.surjOn hl
        rw [← hkey] at hne ⊢
        exact hapart u hu fun heq => hne (heq ▸ rfl)

theorem recorded_of_nil (w : Storage β) : recorded ⟨w, []⟩ = {v | v ∈ w.store .volumes} := by
  ext v
  exact Finmap.lookup_isSome

/-- **A clean run** keeps stored volumes and directories together. -/
theorem inv_steps {w : Storage β} (hw : Corresponds d w)
    (h : CleanSteps quote text codec d ⟨w, []⟩ W) : Inv d W := by
  induction h with
  | refl => exact ⟨nodup_nil, (recorded_of_nil w).symm ▸ hw⟩
  | tail _ hstep ih =>
    obtain ⟨half, hclean, hstep⟩ := hstep
    exact ih.step hclean hstep

end

/-- **When volumes are all or nothing.** -/
theorem volumes_all_or_nothing_iff {β : Type} (quote : String → String) (text : Status → String)
    (codec : Csi.Codec β) (d : Driver) :
    (∀ (r : VolumeRequest) (f : Failures β) (w : Storage β),
      AllOrNothing codec d r w (call quote text codec d r f w) ↔
        (Reaches d r → Safe codec d r f w)) ∧
    ∀ (w : Storage β) (W : World β), Corresponds d w → CleanSteps quote text codec d ⟨w, []⟩ W →
      Set.BijOn (dirOf d) (recorded W) (provisioned d W.tree) ∧
        (W.owed = [] → Corresponds d W.toStorage) := by
  refine ⟨call_allOrNothing_iff quote text codec d, fun w W hw h => ?_⟩
  have hinv := inv_steps hw h
  refine ⟨hinv.bij, fun hnil => ?_⟩
  obtain ⟨w', owed⟩ := W
  obtain rfl : owed = [] := hnil
  rw [Corresponds, ← recorded_of_nil]
  exact hinv.bij

/-! ### On a follower -/

/-- A volume. -/
def dataVolume : Volume :=
  { metadata := some { name := "data", ns := "prod" }, spec := some { requestedBytes := 1 } }

/-- Nothing is stored, and there is no volume on disk. -/
def bareStorage : Storage VolumeMeta := ⟨State.empty, sampleDisk.tree⟩

/-- The files with the directory of the volume. -/
def dataTree : FileTree VolumeMeta :=
  (createVolumeFailing id plainCodec sampleDriver {} "prod/data" 1 sampleDisk.tree).2

/-- The volume is stored, and its directory is there. -/
def dataStorage : Storage VolumeMeta :=
  ⟨(VolumeRequest.create dataVolume).write.carriedOut State.empty, dataTree⟩

/-- The disk works, and the registry refuses the write, as that of a follower does. -/
def onFollower : Failures VolumeMeta where
  registry := .refused

/-- What a follower leaves of a delete. -/
def leftOver : Storage VolumeMeta :=
  ⟨dataStorage.store, (dataTree.removeAll (dirOf sampleDriver "prod/data")).1⟩

/-- What the driver makes of the volume, and what a delete leaves. -/
theorem disk_data :
    (createVolumeFailing id plainCodec sampleDriver {} "prod/data" 1 bareStorage.tree).1 =
        .ok ⟨"prod/data", 1⟩ ∧
      (deleteVolumeFailing id sampleDriver {} "prod/data" dataTree).1 = .ok () ∧
      ¬ sampleDriver.validVolumeID "prod/data" = false ∧
      (place sampleDriver.baseDir <+: dirOf sampleDriver "prod/data" ∧
        dataTree.IsFile (dirOf sampleDriver "prod/data" ++ [".volume.json".toList])) ∧
      "prod/data" ∈ leftOver.store .volumes ∧
      leftOver.tree.look (dirOf sampleDriver "prod/data") = none := by
  decide +kernel

theorem provision_data :
    provision id Status.text plainCodec sampleDriver (.create dataVolume) {} bareStorage.tree =
      (.ok (VolumeRequest.create dataVolume).write, dataTree) := by
  have hid :
      volumeID dataVolume.getMetadata.ns dataVolume.getMetadata.name = "prod/data" := by decide
  have hmade : createVolumeFailing id plainCodec sampleDriver {} "prod/data" 1 bareStorage.tree =
      (.ok ⟨"prod/data", 1⟩, dataTree) := Prod.ext disk_data.1 rfl
  rw [provision, if_neg (by decide), hid]
  simp only [dataVolume, Volume.getSpec, Option.getD_some, hmade]
  rfl

theorem deprovision_data :
    provision id Status.text plainCodec sampleDriver (.delete "prod" "data") {} dataTree =
      (.ok ⟨"prod", "data", none⟩, leftOver.tree) := by
  have hid : volumeID "prod" "data" = "prod/data" := by decide
  have hgone : deleteVolumeFailing id sampleDriver {} "prod/data" dataTree =
      (.ok (), leftOver.tree) := by
    refine Prod.ext disk_data.2.1 ?_
    rw [deleteVolumeFailing, checked, if_neg (by decide), if_neg disk_data.2.2.1]
    rfl
  rw [provision, if_neg (by decide), hid]
  simp only [hgone]

theorem corresponds_bareStorage : Corresponds sampleDriver bareStorage := by
  have hdirs : provisioned sampleDriver bareStorage.tree = ∅ := by
    refine Set.eq_empty_of_forall_notMem ?_
    rintro l ⟨-, data, hdata⟩
    rw [bareStorage, look_sampleDisk] at hdata
    split at hdata <;> cases hdata
  have hstored : {v | v ∈ bareStorage.store .volumes} = ∅ :=
    Set.eq_empty_of_forall_notMem fun _ hv => Finmap.notMem_empty hv
  rw [Corresponds, hdirs, hstored]
  exact Set.bijOn_empty _

/-- **Half a volume.**  On a follower a create that fails leaves a directory of which nothing is
stored, and a delete that fails leaves a stored volume without its directory. -/
theorem follower_halves_volumes :
    (Corresponds sampleDriver bareStorage ∧
      call id Status.text plainCodec sampleDriver (.create dataVolume) onFollower bareStorage =
        (.error ⟨.internal, "create volume: ", some .failed⟩, ⟨State.empty, dataTree⟩) ∧
      dirOf sampleDriver "prod/data" ∈ provisioned sampleDriver dataTree ∧
      ¬ Corresponds sampleDriver ⟨State.empty, dataTree⟩) ∧
    (call id Status.text plainCodec sampleDriver (.delete "prod" "data") onFollower dataStorage =
        (.error ⟨.internal, "delete volume: ", some .failed⟩, leftOver) ∧
      "prod/data" ∈ leftOver.store .volumes ∧
      leftOver.tree.look (dirOf sampleDriver "prod/data") = none) := by
  obtain ⟨-, -, -, hdir, hleft⟩ := disk_data
  refine ⟨⟨corresponds_bareStorage, ?_, hdir, fun h => ?_⟩, ?_, hleft⟩
  · simp only [call, onFollower, provision_data]
    rfl
  · obtain ⟨v, hv, -⟩ := h.surjOn hdir
    exact Finmap.notMem_empty hv
  · simp only [call, onFollower, dataStorage, deprovision_data]
    rfl

/-- The volume is made and not yet stored. -/
def halfway : World VolumeMeta :=
  ⟨⟨State.empty, dataTree⟩, [(VolumeRequest.create dataVolume).write]⟩

theorem volumes_all_or_nothing_data : Corresponds sampleDriver dataStorage := by
  have hfirst : Step id Status.text plainCodec sampleDriver ⟨bareStorage, []⟩
      (.first (.create dataVolume) {}) halfway := by
    refine ⟨DiskFailures.possible_none .., ?_⟩
    simp only [provision_data]
    rfl
  have hnone : ∀ u, u ∉ recorded ⟨bareStorage, []⟩ := fun u hu => by
    rw [recorded_of_nil] at hu
    exact Finmap.notMem_empty hu
  have hclean : Clean sampleDriver ⟨bareStorage, []⟩ (.first (.create dataVolume) {}) := fun _ =>
    ⟨⟨by simp, fun u hu => absurd hu (hnone u)⟩, by simp, by simp⟩
  have hsecond : Step id Status.text plainCodec sampleDriver halfway
      (.second (VolumeRequest.create dataVolume).write .done) ⟨dataStorage, []⟩ :=
    ⟨[], [], rfl, rfl⟩
  have hdone : Clean sampleDriver halfway
      (.second (VolumeRequest.create dataVolume).write .done) := .inl rfl
  exact ((volumes_all_or_nothing_iff id Status.text plainCodec sampleDriver).2 bareStorage
    ⟨dataStorage, []⟩ corresponds_bareStorage ((Relation.ReflTransGen.single
      ⟨_, hclean, hfirst⟩).tail ⟨_, hdone, hsecond⟩)).2 rfl

end NimbusCore.Apiserver.Provisioning
