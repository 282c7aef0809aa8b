import NimbusCore.Agent.Agent
import NimbusCore.Agent.HostFiles

/-!
# Agent — the names of containers

A container is known by one text, `nimbus-`, the namespace, a dash and the name; a pod is tracked by
another, with a slash.  Nothing keeps dashes and slashes out of namespaces and names.

`containers_apart_iff`: for two pods of a node, **their containers have different names, what is
done for one leaves the container of the other alone, and their log files differ**, exactly if
neither text joins the two pods into one (`Joined`), and no name of a log file of the one, which is
a path if it has slashes, can lead to a log file of the other (`LogsMeet`).  A pod has two: that of
its container and that of its build.
-/

namespace NimbusCore.Agent

open Api UnixPath Prog List

/-! ### Pods that are joined into one -/

/-- The two pods have one namespace and one name. -/
def SameName (p q : Pod) : Prop :=
  p.getMetadata.ns = q.getMetadata.ns ∧ p.getMetadata.name = q.getMetadata.name

/-- The namespace of one pod goes on, after the character, with what the name of the other starts
with in front of the character. -/
def Overlaps (sep : Char) (p q : Pod) : Prop :=
  ∃ x, q.getMetadata.ns.toList = p.getMetadata.ns.toList ++ sep :: x ∧
    p.getMetadata.name.toList = x ++ sep :: q.getMetadata.name.toList

/-- Two pods whose namespaces and names, with the character between them, are one text. -/
def Joined (sep : Char) (p q : Pod) : Prop := Overlaps sep p q ∨ Overlaps sep q p

theorem joined_iff {sep : Char} {p q : Pod} (hne : ¬ SameName p q) :
    Joined sep p q ↔ p.getMetadata.ns.toList ++ sep :: p.getMetadata.name.toList =
      q.getMetadata.ns.toList ++ sep :: q.getMetadata.name.toList := by
  rw [append_sep_eq_iff, or_iff_right, Joined, Overlaps, Overlaps]
  rintro ⟨hns, hname⟩
  exact hne ⟨String.toList_injective hns, String.toList_injective hname⟩

theorem containerName_eq_iff {p q : Pod} (hne : ¬ SameName p q) :
    containerName p = containerName q ↔ Joined '-' p q := by
  rw [joined_iff hne, ← String.toList_inj]
  simp [containerName, containerNameRaw]

theorem podKey_eq_iff {p q : Pod} (hne : ¬ SameName p q) :
    podKey p = podKey q ↔ Joined '/' p q := by
  rw [joined_iff hne, ← String.toList_inj]
  simp [podKey]

theorem containerName_congr {p q : Pod} (h : SameName p q) : containerName p = containerName q := by
  rw [containerName, containerName, h.1, h.2]

/-! ### Leaving a container alone -/

/-- The command does not remove the container, nor build, run or track it. -/
def SparesContainer (id : String) : AgentCmd → Prop
  | .containerd (.removeContainer id') | .containerd (.buildImage _ _ _ id' _) => id' ≠ id
  | .containerd (.runContainer _ spec) => spec.id ≠ id
  | .runtime (.replace tp) | .runtime (.assign tp) => tp.containerID ≠ id
  | _ => True

/-- What is found when the pod is stopped is what was tracked for it. -/
def FindsOwn (pod : Pod) : (c : AgentCmd) → c.Answer → Prop
  | .runtime (.untrack _), x => ∀ tp, x = some tp → ∃ pod', SameName pod' pod ∧ TrackedFor pod' tp
  | _, _ => True

/-- A map is seen whole. -/
def SeesAll : (c : AgentCmd) → c.Answer → Prop
  | .order keys, x => x.Nodup ∧ x.toFinset = keys
  | _, _ => True

/-- **What is done for `p` leaves the container of `q` alone**: its start, its adoption, its end,
and the removal of orphans while `q` is listed and no third pod has its key. -/
structure LeavesAlone (p q : Pod) : Prop where
  starts : ∀ cfg, (start cfg p).Within (SparesContainer (containerName q)) fun _ => True
  adopts : (adoptIfRunning p).Within (SparesContainer (containerName q)) fun _ => True
  stops : (stop (podKey p)).Ensures (FindsOwn p) (SparesContainer (containerName q)) fun _ => True
  collects : ∀ cfg pods, q ∈ pods → q.getSpec.nodeName = cfg.nodeName →
    (∀ r ∈ pods, podKey r = podKey q → r = p ∨ r = q) →
    (reconcileOrphanContainers (desiredPods cfg pods)).Ensures SeesAll
      (SparesContainer (containerName q)) fun _ => True

section

variable {p q : Pod}

theorem spares_of_ofPod (hid : containerName p ≠ containerName q) {c : AgentCmd} (h : OfPod p c) :
    SparesContainer (containerName q) c := by
  have htracked : ∀ tp, TrackedFor p tp → tp.containerID ≠ containerName q := by
    rintro tp ⟨-, hempty | hown⟩
    · exact hempty ▸ (containerName_ne q).symm
    · exact hown ▸ hid
  rcases c with c | c | c | c | c | c | c | c
  case containerd =>
    cases c
    case removeContainer id => exact fun he => hid (h.symm.trans he)
    case buildImage addr dir logDir id src => exact fun he => hid (h.symm.trans he)
    case runContainer pod spec => exact fun he => hid (h.2.symm.trans he)
    all_goals trivial
  case runtime =>
    cases c
    case replace tp => exact htracked tp h
    case assign tp => exact htracked tp h
    all_goals trivial
  all_goals trivial

theorem spares_stop (hid : containerName p ≠ containerName q) :
    (stop (podKey p)).Ensures (FindsOwn p) (SparesContainer (containerName q)) fun _ => True := by
  refine ensures_ask_bind.mpr ⟨trivial, fun x hx => ?_⟩
  rcases x with _ | tp
  · trivial
  obtain ⟨pod', hsame, -, hown⟩ := hx tp rfl
  refine Ensures.bind (Φ := fun _ => True) ?_ fun _ _ =>
    Ensures.bind (Φ := fun _ => True) ?_ fun _ _ => ?_
  · rw [endContainer]
    split
    · trivial
    · next hne =>
      rw [containerName_congr hsame] at hown
      exact ⟨hown.resolve_left hne ▸ hid, fun _ _ => trivial⟩
  · rw [endCommand]
    split
    · trivial
    · exact ⟨trivial, fun _ _ => trivial⟩
  · rw [endWASM]
    split
    · trivial
    · exact ⟨trivial, fun _ _ => trivial⟩

theorem spares_orphanLoop {A : (c : AgentCmd) → c.Answer → Prop} {id : String}
    {wanted : List String} (hid : id ∈ wanted) :
    ∀ names, (orphanLoop wanted names).Ensures A (SparesContainer id) fun _ => True
  | [] => trivial
  | name :: names => by
    rw [orphanLoop]
    split
    · exact spares_orphanLoop hid names
    · next h =>
      refine ensures_ask_bind.mpr ⟨?_, fun _ _ => spares_orphanLoop hid names⟩
      rintro rfl
      exact h (.inr hid)

/-- What is desired is not an orphan. -/
theorem spares_reconcileOrphanContainers {desired : Dict String Pod}
    (hq : desired.lookup (podKey q) = some q) :
    (reconcileOrphanContainers desired).Ensures SeesAll (SparesContainer (containerName q))
      fun _ => True := by
  refine ensures_ask_bind.mpr ⟨trivial, fun keys hkeys => ?_⟩
  have hmem : (podKey q, q) ∈ desired.range keys := by
    have horder : Finmap.IsOrder keys desired := hkeys
    exact horder.mem_range.mpr hq
  have hwanted : containerName q ∈ (desired.range keys).map fun e => containerName e.2 :=
    mem_map.mpr ⟨_, hmem, rfl⟩
  refine Ensures.bind_ok (ensures_asked trivial) fun statuses _ => ?_
  exact ensures_ask_bind.mpr ⟨trivial, fun names _ => spares_orphanLoop hwanted names⟩

theorem leavesAlone_of_ne (hid : containerName p ≠ containerName q) (hkey : podKey p ≠ podKey q) :
    LeavesAlone p q where
  starts cfg := Within.weaken (fun _ => spares_of_ofPod hid) (fun _ _ => trivial)
    (ofPod_start (Q := fun _ => True) cfg)
  adopts := Within.weaken (fun _ => spares_of_ofPod hid) (fun _ _ => trivial)
    (ofPod_adoptIfRunning (Q := fun _ => True))
  stops := spares_stop hid
  collects cfg pods hmem hnode hpods := by
    obtain ⟨r, hr⟩ := exists_lookup_desiredPods hmem hnode
    obtain ⟨hrmem, -, hrkey⟩ := of_lookup_desiredPods hr
    rcases hpods r hrmem hrkey with rfl | rfl
    · exact absurd hrkey hkey
    · exact spares_reconcileOrphanContainers hr

/-- Of two pods with one key only one is desired, and the container of the other is an orphan. -/
theorem podKey_ne_of_leavesAlone (hid : containerName p ≠ containerName q)
    (hnode : p.getSpec.nodeName = q.getSpec.nodeName) (h : LeavesAlone p q) :
    podKey p ≠ podKey q := by
  intro hkey
  let cfg : Config := { nodeName := q.getSpec.nodeName }
  have hcollects := h.collects cfg [q, p] (by simp) rfl (by simp [or_comm])
  have hdesired : desiredPods cfg [q, p] = (∅ : Dict String Pod).insert (podKey q) p := by
    rw [desiredPods, foldl_cons, foldl_cons, foldl_nil, desire, desire,
      if_neg (not_not.mpr rfl), if_neg (not_not.mpr hnode), hkey, Finmap.insert_insert]
  rw [hdesired] at hcollects
  have hloop := ((hcollects.2 [podKey q] (Finmap.isOrder_singleton _ _)).2
    (.ok ((∅ : Dict String Bool).insert (containerName q) true)) trivial).2
    [containerName q] (Finmap.isOrder_singleton _ _)
  have hwanted : (((∅ : Dict String Pod).insert (podKey q) p).range [podKey q]).map
      (fun e => containerName e.2) = [containerName p] := by
    simp [Finmap.range]
  have horphan : ¬ (¬ "nimbus-".toList <+: (containerName q).toList ∨
      containerName q ∈ [containerName p]) := by
    rw [not_or, not_not, mem_singleton]
    refine ⟨?_, fun he => hid he.symm⟩
    simp [containerName, containerNameRaw]
  rw [hwanted] at hloop
  have hnext : (orphanLoop [containerName p] [containerName q]).Ensures SeesAll
      (SparesContainer (containerName q)) fun _ => True := hloop
  rw [orphanLoop, if_neg horphan] at hnext
  exact hnext.1 rfl

/-! ### Log files -/

/-- The files in which the logs of a pod are looked for. -/
def logFiles (logDir : String) (pod : Pod) : List String :=
  [logFilePath logDir (containerName pod), buildLogFilePath logDir (containerName pod)]

/-- Their names in the log directory. -/
def logNames (pod : Pod) : List String :=
  [containerName pod ++ ".log", containerName pod ++ ".build.log"]

/-- The two names may lead to one file, in some directory. -/
def NamesMeet (a b : String) : Prop :=
  (here.walk a).Meets (here.walk b) ∨ (here.walk b).Meets (here.walk a)

/-- A log file of the one may be a log file of the other. -/
def LogsMeet (p q : Pod) : Prop := ∃ a ∈ logNames p, ∃ b ∈ logNames q, NamesMeet a b

instance (a b : String) : Decidable (NamesMeet a b) := inferInstanceAs (Decidable (_ ∨ _))

instance : Decidable (LogsMeet p q) := inferInstanceAs (Decidable (∃ a ∈ _, ∃ b ∈ _, _))

theorem exists_joinPath_eq_iff {a b : String} :
    (∃ dir, dir ≠ "" ∧ joinPath [dir, a] = joinPath [dir, b]) ↔ NamesMeet a b := by
  rw [NamesMeet, ← exists_walk_eq_iff]
  constructor
  · rintro ⟨dir, hdir, he⟩
    have hparse := congrArg parse he
    rw [parse_join hdir, parse_join hdir, foldl_cons, foldl_nil, foldl_cons, foldl_nil] at hparse
    exact ⟨_, hparse⟩
  · rintro ⟨d, hd⟩
    refine ⟨d.render, render_ne_empty d, ?_⟩
    rw [joinPath_eq_render (render_ne_empty d), joinPath_eq_render (render_ne_empty d),
      parse_render,
      foldl_cons, foldl_nil, foldl_cons, foldl_nil, hd]

theorem mem_logFiles {logDir f : String} {pod : Pod} :
    f ∈ logFiles logDir pod ↔ ∃ a ∈ logNames pod, joinPath [logDir, a] = f :=
  mem_map (f := fun name => joinPath [logDir, name]) (l := logNames pod)

theorem logs_differ_iff :
    (∀ logDir, logDir ≠ "" → ∀ f ∈ logFiles logDir p, f ∉ logFiles logDir q) ↔
      ¬ LogsMeet p q := by
  constructor
  · rintro h ⟨a, ha, b, hb, hmeet⟩
    obtain ⟨dir, hdir, he⟩ := exists_joinPath_eq_iff.mpr hmeet
    exact h dir hdir _ (mem_logFiles.mpr ⟨a, ha, rfl⟩) (mem_logFiles.mpr ⟨b, hb, he.symm⟩)
  · intro h logDir hdir f hp hq
    obtain ⟨a, ha, rfl⟩ := mem_logFiles.mp hp
    obtain ⟨b, hb, he⟩ := mem_logFiles.mp hq
    exact h ⟨a, ha, b, hb, exists_joinPath_eq_iff.mp ⟨logDir, hdir, he.symm⟩⟩

/-- **Two pods of a node are kept apart** exactly if nothing joins them. -/
theorem containers_apart_iff (hne : ¬ SameName p q)
    (hnode : p.getSpec.nodeName = q.getSpec.nodeName) :
    (containerName p ≠ containerName q ∧ LeavesAlone p q ∧ LeavesAlone q p ∧
      ∀ logDir, logDir ≠ "" → ∀ f ∈ logFiles logDir p, f ∉ logFiles logDir q) ↔
      ¬ Joined '-' p q ∧ ¬ Joined '/' p q ∧ ¬ LogsMeet p q := by
  rw [logs_differ_iff, ← containerName_eq_iff hne, ← podKey_eq_iff hne]
  constructor
  · rintro ⟨hid, hpq, -, hlogs⟩
    exact ⟨hid, podKey_ne_of_leavesAlone hid hnode hpq, hlogs⟩
  · rintro ⟨hid, hkey, hlogs⟩
    exact ⟨hid, leavesAlone_of_ne hid hkey, leavesAlone_of_ne (Ne.symm hid) (Ne.symm hkey), hlogs⟩

end

/-- A pod of the node `n1` that runs an image. -/
def imagePod (ns name : String) : Pod where
  metadata := some { name := name, ns := ns }
  spec := some { containers := [{ name := "c", image := "nginx" }], nodeName := "n1" }

theorem containers_apart_sample :
    (containerName (imagePod "shop" "web") ≠ containerName (imagePod "shop" "web-2") ∧
      LeavesAlone (imagePod "shop" "web") (imagePod "shop" "web-2") ∧
      LeavesAlone (imagePod "shop" "web-2") (imagePod "shop" "web") ∧
      ∀ logDir, logDir ≠ "" → ∀ f ∈ logFiles logDir (imagePod "shop" "web"),
        f ∉ logFiles logDir (imagePod "shop" "web-2")) := by
  have hne : ¬ SameName (imagePod "shop" "web") (imagePod "shop" "web-2") := by
    unfold SameName
    decide
  refine (containers_apart_iff hne rfl).mpr ⟨?_, ?_, by decide⟩
  · rw [joined_iff hne]
    decide
  · rw [joined_iff hne]
    decide

/-- **Two pods with one container.**  Starting the one removes the container of the other. -/
theorem containers_shared :
    ¬ SameName (imagePod "a-b" "c") (imagePod "a" "b-c") ∧
      containerName (imagePod "a-b" "c") = containerName (imagePod "a" "b-c") ∧
      ∀ cfg, ¬ (start cfg (imagePod "a-b" "c")).Within
        (SparesContainer (containerName (imagePod "a" "b-c"))) fun _ => True := by
  refine ⟨?_, by decide, fun cfg h => ?_⟩
  · unfold SameName
    decide
  · exact h.1 (by decide)

end NimbusCore.Agent
