import NimbusCore.Csi.Hostpath

/-!
# Csi — the listing of volumes

`ListVolumes` reads one level: a name of the base directory is a volume if it is a directory with
metadata in it.

`listVolumes_exact`: **the listing is exact**, one entry for each volume that exists, with the
capacity of its latest creation, in every run from a new base directory in which every create names
a directory one level below it that no other volume has, and no delete names the base directory, or
the directory or the metadata of another volume (`Plain`).  The IDs that the API server makes, a
namespace, a slash and a name, are not of this kind: they are never listed
(`namespaced_volume_unlisted`).
-/

namespace NimbusCore.Csi

open UnixPath List Finmap FileTree

variable {β : Type} {quote : String → String} {codec : Codec β} {d : Driver} {s : Disk β}
  {n : List Char}

/-! ### The condition -/

/-- What a call may name. -/
def Plain (d : Driver) (s : Disk β) : Call → Prop
  | .create name _ => d.validVolumeID name = true →
      (∃ n, place (d.volumeDir name) = place d.baseDir ++ [n]) ∧
        ∀ v ∈ s.existing, v ≠ name → place (d.volumeDir v) ≠ place (d.volumeDir name)
  | .delete id => d.validVolumeID id = true →
      place (d.volumeDir id) ≠ place d.baseDir ∧
        ∀ v ∈ s.existing, v ≠ id → place (d.volumeDir id) ≠ place (d.volumeDir v) ∧
          place (d.volumeDir id) ≠ place (d.metaPath v)

/-- Below the base directory there are the volumes that exist, with their metadata, and nothing
else; each has a directory of its own, one level below. -/
structure Flat (codec : Codec β) (d : Driver) (s : Disk β) : Prop where
  base : s.tree.IsDir (place d.baseDir)
  level : ∀ v ∈ s.existing, ∃ n, place (d.volumeDir v) = place d.baseDir ++ [n]
  dir : ∀ v ∈ s.existing, s.tree.IsDir (place (d.volumeDir v))
  metadata : ∀ v capacity, s.existing.lookup v = some capacity →
    s.tree.look (place (d.metaPath v)) = some (.file (codec.marshal ⟨v, capacity⟩))
  own : ∀ v ∈ s.existing, ∀ v' ∈ s.existing, place (d.volumeDir v) = place (d.volumeDir v') → v = v'
  only : ∀ q, place d.baseDir <+: q → q ≠ place d.baseDir → (s.tree.look q).isSome →
    ∃ v ∈ s.existing, q = place (d.volumeDir v) ∨ q = place (d.metaPath v)

/-- The base directory is new. -/
def Fresh (d : Driver) (s : Disk β) : Prop :=
  s.existing = ∅ ∧ s.tree.IsDir (place d.baseDir) ∧
    ∀ q, place d.baseDir <+: q → q ≠ place d.baseDir → s.tree.look q = none

theorem Fresh.flat (h : Fresh d s) : Flat codec d s := by
  have hnone : ∀ v, v ∉ s.existing := fun v => h.1 ▸ notMem_empty
  exact
    { base := h.2.1
      level := fun v hv => absurd hv (hnone v)
      dir := fun v hv => absurd hv (hnone v)
      metadata := fun v capacity hv => absurd (mem_of_lookup_eq_some hv) (hnone v)
      own := fun v hv => absurd hv (hnone v)
      only := fun q hq hne hsome => by
        rw [h.2.2 q hq hne] at hsome
        cases hsome }

/-! ### Places one level below -/

/-- What is one level below a place, and what is at it. -/
theorem eq_of_prefix_concat {b q : Place} (hb : b <+: q) (hne : q ≠ b)
    (hq : q <+: b ++ [n]) : q = b ++ [n] := by
  obtain ⟨r, rfl⟩ := hb
  rcases r with _ | ⟨m, r⟩
  · exact absurd (append_nil b) hne
  have hr : m :: r <+: [n] := (prefix_append_right_inj b).mp hq
  obtain ⟨rfl, htail⟩ := cons_prefix_cons.mp hr
  rw [prefix_nil.mp htail]

/-- What is two levels below a place, and what is between. -/
theorem eq_of_prefix_concat₂ {b q : Place} {n m : List Char} (hb : b <+: q) (hne : q ≠ b)
    (hq : q <+: b ++ [n] ++ [m]) : q = b ++ [n] ∨ q = b ++ [n] ++ [m] := by
  by_cases h : q <+: b ++ [n]
  · exact .inl (eq_of_prefix_concat hb hne h)
  · refine .inr ?_
    rcases prefix_or_prefix_of_prefix hq (prefix_append (b ++ [n]) [m]) with hp | hp
    · exact absurd hp h
    · have hq' : q ≠ b ++ [n] := fun he => h (he ▸ prefix_refl _)
      exact eq_of_prefix_concat hp hq' hq

theorem length_volumeDir (h : Flat codec d s) {v : String} (hv : v ∈ s.existing) :
    (place (d.volumeDir v)).length = (place d.baseDir).length + 1 := by
  obtain ⟨n, hn⟩ := h.level v hv
  rw [hn, length_append, length_singleton]

theorem length_metaPath (v : String) :
    (place (d.metaPath v)).length = (place (d.volumeDir v)).length + 1 := by
  rw [Driver.place_metaPath, length_append, length_singleton]

/-! ### Creating -/

section

variable {name : String} {n : List Char} {capacity : Int64} {t₁ t₂ : FileTree β}

/-- The metadata of a volume can be written. -/
theorem Flat.writes (h : Flat codec d s) (hn : place (d.volumeDir name) = place d.baseDir ++ [n])
    (hmk : s.tree.mkdirAll (place (d.volumeDir name)) = some t₁) (data : β) :
    t₁.writeFile (place (d.metaPath name)) data ≠ none := by
  have hdir : t₁.IsDir (place (d.volumeDir name)) := by
    rw [FileTree.IsDir, look_mkdirAll hmk, if_pos (prefix_refl _)]
  have hnot : ¬ t₁.IsDir (place (d.metaPath name)) := by
    intro hmeta
    have hlen : (place (d.metaPath name)).length = (place d.baseDir).length + 2 := by
      rw [length_metaPath, hn, length_append, length_singleton]
    have hlong : ¬ place (d.metaPath name) <+: place (d.volumeDir name) := by
      intro hp
      have := hp.length_le
      rw [length_metaPath] at this
      omega
    rw [FileTree.IsDir, look_mkdirAll hmk, if_neg hlong] at hmeta
    have hbase : place d.baseDir <+: place (d.metaPath name) := by
      rw [Driver.place_metaPath, hn, append_assoc]
      exact prefix_append _ _
    obtain ⟨v, hv, hq⟩ := h.only _ hbase (fun he => by rw [he] at hlen; omega) (by simp [hmeta])
    rcases hq with hq | hq
    · rw [hq, length_volumeDir h hv] at hlen
      omega
    · obtain ⟨capacity, hcap⟩ := Finmap.mem_iff.mp hv
      rw [hq, h.metadata v capacity hcap] at hmeta
      cases hmeta
  rw [Driver.place_metaPath] at hnot ⊢
  obtain ⟨t₂, h₂⟩ := exists_writeFile data hdir hnot
  rw [h₂]
  exact Option.some_ne_none t₂

theorem Flat.create (h : Flat codec d s) (hn : place (d.volumeDir name) = place d.baseDir ++ [n])
    (hown : ∀ v ∈ s.existing, v ≠ name → place (d.volumeDir v) ≠ place (d.volumeDir name))
    (hmk : s.tree.mkdirAll (place (d.volumeDir name)) = some t₁)
    (hwr : t₁.writeFile (place (d.metaPath name)) (codec.marshal ⟨name, capacity⟩) = some t₂) :
    Flat codec d ⟨t₂, s.existing.insert name capacity⟩ := by
  have hkeep : ∀ {q}, s.tree.IsDir q → t₂.IsDir q := fun hq =>
    isDir_writeFile hwr (isDir_mkdirAll hmk hq)
  have hmem : ∀ {v}, v ∈ s.existing.insert name capacity →
      v = name ∨ v ≠ name ∧ v ∈ s.existing := by
    intro v hv
    by_cases hname : v = name
    · exact .inl hname
    · exact .inr ⟨hname, (mem_insert.mp hv).resolve_left hname⟩
  constructor
  case base => exact hkeep h.base
  case level =>
    intro v hv
    rcases hmem hv with rfl | ⟨-, hv⟩
    · exact ⟨n, hn⟩
    · exact h.level v hv
  case dir =>
    intro v hv
    rcases hmem hv with rfl | ⟨-, hv⟩
    · refine isDir_writeFile hwr ?_
      rw [FileTree.IsDir, look_mkdirAll hmk, if_pos (prefix_refl _)]
    · exact hkeep (h.dir v hv)
  case metadata =>
    intro v cap hv
    simp only at hv ⊢
    rw [Finmap.lookup_insert_eq] at hv
    split at hv
    · next hname =>
      cases hv
      rw [look_writeFile hwr, hname, if_pos rfl]
    · next hname =>
      have hv' := mem_of_lookup_eq_some hv
      have hne : place (d.metaPath v) ≠ place (d.metaPath name) := by
        rw [Driver.place_metaPath, Driver.place_metaPath]
        exact fun he => hown v hv' hname (append_cancel_right he)
      have hlong : ¬ place (d.metaPath v) <+: place (d.volumeDir name) := by
        intro hp
        have := hp.length_le
        rw [length_metaPath, length_volumeDir h hv', hn, length_append,
          length_singleton] at this
        omega
      rw [look_writeFile hwr, if_neg hne, look_mkdirAll hmk, if_neg hlong, h.metadata v cap hv]
  case own =>
    intro v hv v' hv' he
    rcases hmem hv with rfl | ⟨hne, hold⟩
    · rcases hmem hv' with rfl | ⟨hne', hold'⟩
      · rfl
      · exact absurd he.symm (hown v' hold' hne')
    · rcases hmem hv' with rfl | ⟨-, hold'⟩
      · exact absurd he (hown v hold hne)
      · exact h.own v hold v' hold' he
  case only =>
    intro q hq hne hsome
    simp only at hsome ⊢
    rw [look_writeFile hwr, look_mkdirAll hmk] at hsome
    split at hsome
    · next hmeta => exact ⟨name, mem_insert.mpr (.inl rfl), .inr hmeta⟩
    · split at hsome
      · next hp =>
        rw [hn] at hp
        refine ⟨name, mem_insert.mpr (.inl rfl), .inl ?_⟩
        rw [hn]
        exact eq_of_prefix_concat hq hne hp
      · obtain ⟨v, hv, hqv⟩ := h.only q hq hne hsome
        exact ⟨v, mem_insert.mpr (.inr hv), hqv⟩

end

/-! ### Deleting -/

section

variable {id : String} {t' : FileTree β} {existing : Dict String Int64}

/-- What is left after a delete that touches no other volume. -/
theorem Flat.delete (h : Flat codec d s) (hvalid : d.validVolumeID id = true)
    (hplain : Plain d s (.delete id)) (hlook : ∀ q, t'.look q =
      if q ≠ [] ∧ place (d.volumeDir id) <+: q then none else s.tree.look q) :
    Flat codec d ⟨t', s.existing.erase id⟩ := by
  obtain ⟨hbase, hothers⟩ := hplain hvalid
  have hpre := Driver.base_prefix hvalid
  have hmeta : ∀ v ∈ s.existing, v ≠ id → ¬ place (d.volumeDir id) <+: place (d.metaPath v) := by
    intro v hv hne hp
    obtain ⟨n, hn⟩ := h.level v hv
    obtain ⟨hdir, hmeta⟩ := hothers v hv hne
    rw [Driver.place_metaPath, hn] at hp hmeta
    rw [hn] at hdir
    rcases eq_of_prefix_concat₂ hpre hbase hp with he | he
    · exact hdir he
    · exact hmeta he
  have hdir : ∀ v ∈ s.existing, v ≠ id → ¬ place (d.volumeDir id) <+: place (d.volumeDir v) := by
    intro v hv hne hp
    refine hmeta v hv hne (hp.trans ?_)
    rw [Driver.place_metaPath]
    exact prefix_append _ _
  have hmem : ∀ {v}, v ∈ s.existing.erase id → v ≠ id ∧ v ∈ s.existing := mem_erase.mp
  constructor
  case base =>
    have hnot : ¬ place (d.volumeDir id) <+: place d.baseDir := fun hp =>
      hbase (hp.eq_of_length_le hpre.length_le)
    exact (hlook _).trans ((if_neg fun hq => hnot hq.2).trans h.base)
  case level => exact fun v hv => h.level v (hmem hv).2
  case dir =>
    intro v hv
    obtain ⟨hne, hv⟩ := hmem hv
    exact (hlook _).trans ((if_neg fun hq => hdir v hv hne hq.2).trans (h.dir v hv))
  case metadata =>
    intro v capacity hv
    obtain ⟨hne, hold⟩ := hmem (mem_of_lookup_eq_some hv)
    rw [Finmap.lookup_erase_eq, if_neg hne] at hv
    exact (hlook _).trans
      ((if_neg fun hq => hmeta v hold hne hq.2).trans (h.metadata v capacity hv))
  case own => exact fun v hv v' hv' he => h.own v (hmem hv).2 v' (hmem hv').2 he
  case only =>
    intro q hq hne hsome
    simp only [hlook] at hsome
    split at hsome
    · cases hsome
    · next hkept =>
      obtain ⟨v, hv, hqv⟩ := h.only q hq hne hsome
      refine ⟨v, mem_erase.mpr ⟨?_, hv⟩, hqv⟩
      rintro rfl
      have hp : place (d.volumeDir v) <+: q := by
        rcases hqv with rfl | rfl
        · exact prefix_refl _
        · rw [Driver.place_metaPath]
          exact prefix_append _ _
      refine hkept ⟨?_, hp⟩
      rintro rfl
      exact hne (prefix_nil.mp hq).symm

/-- A volume that exists is deleted when it is asked for. -/
theorem Flat.removes (h : Flat codec d s) (hid : id ∈ s.existing) :
    (s.tree.removeAll (place (d.volumeDir id))).2 = true := by
  refine removeAll_ok (fun hnil => ?_) (h.dir id hid)
  have := length_volumeDir h hid
  rw [hnil] at this
  cases this

theorem flat_delete (h : Flat codec d s) (hplain : Plain d s (.delete id)) :
    Flat codec d (s.step quote codec d (.delete id)) := by
  cases hvalid : d.validVolumeID id with
  | false =>
    obtain ⟨err, hrefused⟩ := deleteVolume_refused quote hvalid s.tree
    simpa only [Disk.step, hrefused] using h
  | true =>
    have hdel : deleteVolume quote d id s.tree =
        (if (s.tree.removeAll (place (d.volumeDir id))).2 then .ok ()
          else .error ⟨.internal, "delete volume directory: ", none⟩,
          (s.tree.removeAll (place (d.volumeDir id))).1) := by
      rw [deleteVolume, if_neg (Driver.validVolumeID_iff.mp hvalid).1, if_neg (by simp [hvalid])]
    have hflat := h.delete hvalid hplain (look_removeAll s.tree _)
    rw [Disk.step, hdel]
    cases hok : (s.tree.removeAll (place (d.volumeDir id))).2 with
    | true => simpa using hflat
    | false =>
      have hid : id ∉ s.existing := fun hid => by simp [h.removes hid] at hok
      rw [Finmap.erase_of_notMem hid] at hflat
      simpa using hflat

end

/-- **A step** keeps the base directory flat. -/
theorem flat_step (h : Flat codec d s) (c : Call) (hc : Plain d s c) :
    Flat codec d (s.step quote codec d c) := by
  cases c with
  | delete id => exact flat_delete h hc
  | create name requiredBytes =>
    rcases createVolume_cases quote codec d name requiredBytes s.tree with
      ⟨err, hcreate⟩ | ⟨t₁, hvalid, hmk, hrest⟩
    · simpa only [Disk.step, hcreate] using h
    · obtain ⟨⟨n, hn⟩, hown⟩ := hc hvalid
      rcases hrest with ⟨hwr, -⟩ | ⟨t₂, hwr, hcreate⟩
      · exact absurd hwr (h.writes hn hmk _)
      · simpa only [Disk.step, hcreate] using h.create hn hown hmk hwr

/-! ### Listing -/

/-- The entry of the directory of a volume. -/
theorem Flat.listEntry_eq (h : Flat codec d s) {v : String} {capacity : Int64}
    (hv : s.existing.lookup v = some capacity)
    (hn : place (d.volumeDir v) = place d.baseDir ++ [n]) :
    listEntry codec d s.tree n = some ⟨v, capacity⟩ := by
  have hex := mem_of_lookup_eq_some hv
  have hname : IsName n := by
    have hmem : n ∈ (parse (d.volumeDir v)).names := by
      rw [← place, hn]
      simp
    exact (parse (d.volumeDir v)).isName n hmem
  have hplace : place (d.volumeDir (String.ofList n)) = place (d.volumeDir v) := by
    rw [hn, place, Driver.parse_volumeDir, walk_eq_extend _ hname, place]
    rfl
  have hmeta : place (d.metaPath (String.ofList n)) = place (d.metaPath v) := by
    rw [Driver.place_metaPath, Driver.place_metaPath, hplace]
  have hdir := h.dir v hex
  rw [hn] at hdir
  rw [listEntry, if_pos hdir, readMeta, hmeta,
    readFile_eq_some.mpr (h.metadata v capacity hv), Option.bind_some,
    codec.unmarshal_marshal]
  rfl

/-- What is found in the base directory are volumes that exist. -/
theorem Flat.exists_of_name (h : Flat codec d s)
    (hn : (s.tree.look (place d.baseDir ++ [n])).isSome) :
    ∃ v capacity, s.existing.lookup v = some capacity ∧
      place (d.volumeDir v) = place d.baseDir ++ [n] := by
  obtain ⟨v, hv, hq⟩ := h.only _ (prefix_append _ _) (by simp) hn
  obtain ⟨capacity, hcap⟩ := Finmap.mem_iff.mp hv
  refine ⟨v, capacity, hcap, ?_⟩
  rcases hq with hq | hq
  · exact hq.symm
  · have hlen := congrArg List.length hq
    rw [length_metaPath, length_volumeDir h hv, length_append, length_singleton] at hlen
    omega

/-- What `ListVolumes` has to return: one entry for each volume that exists. -/
def Exact (s : Disk β) (entries : List CsiVolume) : Prop :=
  entries.Nodup ∧ ∀ v, v ∈ entries ↔ s.existing.lookup v.volumeId = some v.capacityBytes

theorem Flat.exact (h : Flat codec d s) {names : List (List Char)}
    (hnames : s.tree.IsListing (place d.baseDir) names) :
    Exact s (names.filterMap (listEntry codec d s.tree)) := by
  have hentry : ∀ {n v}, listEntry codec d s.tree n = some v →
      s.existing.lookup v.volumeId = some v.capacityBytes ∧
        place (d.volumeDir v.volumeId) = place d.baseDir ++ [n] := by
    intro n v hv
    have hsome : (s.tree.look (place d.baseDir ++ [n])).isSome := by
      by_contra hnone
      rw [listEntry, if_neg fun hdir => hnone (by rw [hdir]; rfl)] at hv
      cases hv
    obtain ⟨id, capacity, hcap, hplace⟩ := h.exists_of_name hsome
    rw [h.listEntry_eq hcap hplace] at hv
    cases hv
    exact ⟨hcap, hplace⟩
  constructor
  · refine hnames.1.filterMap fun n m v hn hm => ?_
    have hplace := (hentry hn).2.symm.trans (hentry hm).2
    exact (List.cons.inj (append_cancel_left hplace)).1
  · intro v
    rw [mem_filterMap]
    constructor
    · rintro ⟨n, -, hv⟩
      exact (hentry hv).1
    · intro hv
      obtain ⟨n, hn⟩ := h.level v.volumeId (mem_of_lookup_eq_some hv)
      refine ⟨n, (hnames.2 n).mpr ?_, h.listEntry_eq hv hn⟩
      have hdir := h.dir v.volumeId (mem_of_lookup_eq_some hv)
      rw [hn] at hdir
      rw [hdir]
      rfl

/-- The disk after some calls. -/
def Disk.afterCalls (quote : String → String) (codec : Codec β) (d : Driver) (s : Disk β)
    (calls : List Call) : Disk β := calls.foldl (Disk.step quote codec d) s

/-- **`ListVolumes` is exact** after every run of calls that keep to plain directories. -/
theorem listVolumes_exact {calls : List Call} (hs : Fresh d s)
    (hcalls : Throughout (Disk.step quote codec d) (Plain d) s calls) :
    let s' := s.afterCalls quote codec d calls
    (∃ names, s'.tree.IsListing (place d.baseDir) names) ∧
      ∀ names, s'.tree.IsListing (place d.baseDir) names →
        ∃ entries, listVolumes codec d names s'.tree = .ok entries ∧ Exact s' entries := by
  have hflat : Flat codec d (s.afterCalls quote codec d calls) :=
    hcalls.invariant (fun s c h hc => flat_step h c hc) hs.flat
  refine ⟨exists_listing _ _, fun names hnames => ?_⟩
  exact ⟨_, if_pos hflat.base, hflat.exact hnames⟩

/-! ### Volumes that are listed, and volumes that are not -/

theorem look_sampleDisk (q : Place) :
    sampleDisk.tree.look q = if q <+: ["vol".toList] then some .dir else none := by
  have hempty : ∀ q : Place, q ≠ [] → (FileTree.empty : FileTree VolumeMeta).look q = none :=
    fun q hq => by rw [look_empty, if_neg hq]
  obtain ⟨t, ht⟩ := exists_mkdirAll (t := (FileTree.empty : FileTree VolumeMeta))
    (l := ["vol".toList]) (by
      rintro p - ⟨data, hdata⟩
      rw [look_empty] at hdata
      split at hdata <;> cases hdata)
  rw [sampleDisk, ht, Option.getD_some, look_mkdirAll ht]
  split
  · rfl
  · next hq =>
    refine hempty q ?_
    rintro rfl
    exact hq nil_prefix

theorem sampleDisk_fresh : Fresh sampleDriver sampleDisk := by
  have hbase : place sampleDriver.baseDir = ["vol".toList] := by decide
  refine ⟨rfl, by decide, fun q hq hne => ?_⟩
  rw [look_sampleDisk, if_neg]
  rw [hbase] at hq hne
  exact fun hp => hne (hp.eq_of_length_le hq.length_le)

/-- What exists after a call existed before, or was created. -/
theorem mem_existing_step {c : Call} {v : String}
    (h : v ∈ (s.step quote codec d c).existing) : v ∈ s.existing ∨ ∃ n, c = .create v n := by
  cases c with
  | create name requiredBytes =>
    rcases createVolume_cases quote codec d name requiredBytes s.tree with
      ⟨err, hc⟩ | ⟨t₁, -, -, ⟨-, err, hc⟩ | ⟨t₂, -, hc⟩⟩
    · simp only [Disk.step, hc] at h
      exact .inl h
    · simp only [Disk.step, hc] at h
      exact .inl h
    · simp only [Disk.step, hc] at h
      rcases mem_insert.mp h with rfl | h
      · exact .inr ⟨_, rfl⟩
      · exact .inl h
  | delete id =>
    rcases hdel : deleteVolume quote d id s.tree with ⟨err | _, t⟩
    · simp only [Disk.step, hdel] at h
      exact .inl h
    · simp only [Disk.step, hdel] at h
      exact .inl (mem_erase.mp h).2

/-- Two volumes are made, the first of them again with another capacity, and the second deleted. -/
def plainCalls : List Call := [.create "a" 1, .create "b" 2, .create "a" 3, .delete "b"]

theorem plain_sample {s : Disk VolumeMeta} (hs : ∀ v ∈ s.existing, v = "a" ∨ v = "b") {c : Call}
    (hc : c ∈ plainCalls) : Plain sampleDriver s c := by
  have hplace : ∀ v, v = "a" ∨ v = "b" →
      place (sampleDriver.volumeDir v) = place sampleDriver.baseDir ++ [v.toList] := by
    rintro v (rfl | rfl) <;> decide +kernel
  have hcreate : ∀ name n, name = "a" ∨ name = "b" → Plain sampleDriver s (.create name n) := by
    intro name n hname _
    refine ⟨⟨_, hplace name hname⟩, fun v hv hne => ?_⟩
    rw [hplace v (hs v hv), hplace name hname]
    simpa [String.toList_inj] using hne
  simp only [plainCalls, mem_cons, not_mem_nil, or_false] at hc
  rcases hc with rfl | rfl | rfl | rfl
  · exact hcreate "a" 1 (.inl rfl)
  · exact hcreate "b" 2 (.inr rfl)
  · exact hcreate "a" 3 (.inl rfl)
  · intro _
    rw [hplace "b" (.inr rfl)]
    refine ⟨by simp, fun v hv hne => ?_⟩
    rw [Driver.place_metaPath, hplace v (hs v hv)]
    have hlist : "b".toList ≠ v.toList := fun he => hne (String.toList_injective he).symm
    exact ⟨by simpa using hlist, by simp⟩

theorem throughout_sample {calls : List Call} {s : Disk VolumeMeta}
    (hs : ∀ v ∈ s.existing, v = "a" ∨ v = "b") (hcalls : ∀ c ∈ calls, c ∈ plainCalls) :
    Throughout (Disk.step id plainCodec sampleDriver) (Plain sampleDriver) s calls := by
  induction calls generalizing s with
  | nil => trivial
  | cons c calls ih =>
    obtain ⟨hc, hcalls⟩ := forall_mem_cons.mp hcalls
    refine ⟨plain_sample hs hc, ih (fun v hv => ?_) hcalls⟩
    rcases mem_existing_step hv with hv | ⟨n, rfl⟩
    · exact hs v hv
    · simp only [plainCalls, mem_cons, Call.create.injEq, not_mem_nil, or_false,
        reduceCtorEq] at hc
      rcases hc with ⟨rfl, -⟩ | ⟨rfl, -⟩ | ⟨rfl, -⟩
      · exact .inl rfl
      · exact .inr rfl
      · exact .inl rfl

theorem listVolumes_exact_sample :
    ∃ names entries, (sampleDisk.afterCalls id plainCodec sampleDriver plainCalls).tree.IsListing
        (place sampleDriver.baseDir) names ∧
      listVolumes plainCodec sampleDriver names
          (sampleDisk.afterCalls id plainCodec sampleDriver plainCalls).tree = .ok entries ∧
        Exact (sampleDisk.afterCalls id plainCodec sampleDriver plainCalls) entries := by
  obtain ⟨⟨names, hnames⟩, hlist⟩ := listVolumes_exact sampleDisk_fresh
    (throughout_sample (fun _ hv => absurd hv notMem_empty) fun _ hc => hc)
  obtain ⟨entries, hentries⟩ := hlist names hnames
  exact ⟨names, entries, hnames, hentries⟩

/-- The disk with the volume `data` of the namespace `default`. -/
def namespaced : Disk VolumeMeta :=
  sampleDisk.afterCalls id plainCodec sampleDriver [.create "default/data" 1]

/-- **A volume of the API server is not listed.**  Its directory is two levels below the base
directory. -/
theorem namespaced_volume_unlisted :
    namespaced.existing.lookup "default/data" = some 1 ∧
      namespaced.tree.IsListing (place sampleDriver.baseDir) ["default".toList] ∧
      listVolumes plainCodec sampleDriver ["default".toList] namespaced.tree = .ok [] := by
  obtain ⟨hexists, hnodes, hdir, hentry⟩ : namespaced.existing.lookup "default/data" = some 1 ∧
      namespaced.tree.nodes = (((((∅ : Dict Place (FileNode VolumeMeta)).insert [] .dir).insert
        ["vol".toList] .dir).insert ["vol".toList, "default".toList] .dir).insert
        ["vol".toList, "default".toList, "data".toList] .dir).insert
        ["vol".toList, "default".toList, "data".toList, ".volume.json".toList]
        (.file ⟨"default/data", 1⟩) ∧
      namespaced.tree.IsDir (place sampleDriver.baseDir) ∧
      listEntry plainCodec sampleDriver namespaced.tree "default".toList = none := by
    decide +kernel
  have hbase : place sampleDriver.baseDir = ["vol".toList] := by decide
  refine ⟨hexists, ⟨nodup_singleton _, fun n => ?_⟩, ?_⟩
  · rw [hbase, FileTree.look, hnodes]
    by_cases hn : n = "default".toList <;>
      simp [Finmap.lookup_insert_eq, lookup_empty, hn]
  · rw [listVolumes, if_pos hdir, filterMap_cons_none hentry, filterMap_nil]

end NimbusCore.Csi
