import NimbusCore.Agent.Correspondence
import NimbusCore.Agent.Provenance

/-!
# Agent — what is desired

The calls of the agent, each from its start to its end, and the ticks in any order with exits in
between.

* `runs_desired`: after every tick in which all starts succeed the agent runs what is desired, if
  pods keep their specs while they are tracked and their containers are their own (`SpecsKept`).
* `edited_pod_not_restarted`: a pod that is made anew with another spec between two ticks runs on as
  it was.
-/

namespace NimbusCore.Agent

open Api EventLoop Prog List Nat

/-- The agent, with the steps of its run. -/
def recordedAgent (cfg : Config) (before : String → Option PodSpec) :
    EventLoop AgentEvent AgentCmd AgentCmd.Answer AgentRun :=
  (agentLoop cfg).recorded (SpecsKept cfg before)

/-- What lasts while nothing new is told. -/
def Remains (I : AgentRun → Prop) : Prop := ∀ r r', Idles r r' → I r → I r'

variable {I : AgentRun → Prop}

theorem Remains.and {J : AgentRun → Prop} (hI : Remains I) (hJ : Remains J) :
    Remains fun r => I r ∧ J r :=
  fun r r' hi h => ⟨hI r r' hi h.1, hJ r r' hi h.2⟩

/-- What is tracked remains. -/
theorem remains_procs (P : Dict String TrackedProcess → Prop) :
    Remains fun r => P r.2.rt.procs := by
  intro r r' hi h
  cases hi with
  | drift hp _ | did _ hp _ => simpa only [hp] using h

/-- What a workload was started from remains. -/
theorem remains_startedFrom (before : String → Option PodSpec) (tp : TrackedProcess)
    (S : Option PodSpec) : Remains fun r => startedFrom before r.1 tp = S := by
  intro r r' hi h
  cases hi with
  | drift _ _ => exact h
  | did hs _ _ => exact (startedFrom_silent hs tp).trans h

/-- A number that is taken remains so. -/
theorem remains_lt (i : Nat) : Remains fun r => i < r.2.next := by
  intro r r' hi h
  cases hi with
  | drift _ hn => exact hn.symm ▸ h
  | did _ _ hn => exact lt_of_lt_of_le h hn

variable {pods : List Pod}

section

variable {cfg : Config} {before : String → Option PodSpec} {D : Dict String Pod}
  {lst : Option (List Pod)} {T : Finset String} {K : Option String} {r : AgentRun}
  {A : (c : AgentCmd) → c.Answer → AgentRun → Prop} {pod : Pod} {key : String}

theorem remains_held (before : String → Option PodSpec) (D : Dict String Pod)
    (lst : Option (List Pod)) (T : Finset String) (K : Option String) :
    Remains (Held before D lst T K) := fun _ _ hi h => h.idles hi

theorem lasts_held : Remains (Held before D lst T K) := remains_held before D lst T K

theorem Remains.stable (hI : Remains I) : (recordedAgent cfg before).Stable I := by
  rintro r ⟨tr, w⟩ ⟨hd, rfl⟩ h
  exact hI _ _ (.drift hd.fades.procs hd.fades.next) h

/-- A command that marks nothing tells nothing new. -/
theorem idles_of_answers {c : AgentCmd} {x : c.Answer} {r' : AgentRun} (hc : ¬ Marks c)
    (h : (recordedAgent cfg before).answers c r x r') : Idles r r' := by
  obtain ⟨tr, w⟩ := r'
  obtain ⟨ha, -, rfl⟩ := h
  by_cases hw : Alters c
  · -- such a command launches a process, or tells a workload to end
    cases c with
    | os c =>
      cases c with
      | wait _ i | kill i | closeWasm i =>
        obtain rfl := ha
        exact .did (silent_of_not_marks hc x) rfl (le_refl _)
      | _ => first | exact absurd trivial hc | cases hw
    | runtime c => cases c <;> first | exact absurd trivial hc | cases hw
    | _ => cases hw
  · have hf := fades_of_answers hw ha
    exact .did (silent_of_not_marks hc x) hf.procs (le_of_eq hf.next.symm)

/-- A part that marks nothing. -/
theorem post_unmarked {α : Type} (hI : Remains I) (hr : I r) {p : Act α}
    (hp : p.Within (fun c => ¬ Marks c) fun _ => True) :
    p.Post ((recordedAgent cfg before).settle A) r fun _ r' => I r' :=
  post_within hI.stable hr hp fun _ _ _ _ hc ha h => hI _ _ (idles_of_answers hc ha) h

theorem not_marks_of_looks {c : AgentCmd} (h : Looks c) : ¬ Marks c := by
  rcases c with c | c | c | c | c | c | c | c <;> try exact id
  all_goals cases c <;> first | exact id | cases h

/-! ### Starting -/

/-- What a start leaves: if it succeeds, its key is tracked. -/
def Started (before : String → Option PodSpec) (D : Dict String Pod) (lst : Option (List Pod))
    (T : Finset String) (key : String) : Except String Unit → AgentRun → Prop
  | .ok _, r => Held before D lst (insert key T) none r
  | .error _, r => Held before D lst T none r

theorem post_startProcess_held (h : Held before D lst T none r) (hD : Suits D pod)
    (hkind : ¬ HasImage pod) :
    (startProcess pod).Post ((recordedAgent cfg before).settle A) r
      (Started before D lst T (podKey pod)) := by
  rw [startProcess]
  split
  · exact post_pure h
  · refine post_settle lasts_held.stable h ?_
    rintro r x ⟨tr, w⟩ h ⟨ha, -, rfl⟩ -
    cases x with
    | error err =>
      obtain rfl : w = r.2 := ha
      exact post_pure (h.did ⟨rfl, rfl, rfl⟩)
    | ok i =>
      obtain ⟨hi, rfl⟩ : i = r.2.next ∧ w = { r.2 with next := r.2.next + 1 } := ha
      have hI := (remains_held before D lst T none).and
        ((remains_startedFrom before { pod := pod, cmd := some i } (some pod.getSpec)).and
          (remains_lt i))
      refine post_settle hI.stable ⟨h.numbered hi, by simp [startedFrom, TrackedProcess.number,
        startedBy], lt_succ_of_le (le_of_eq hi)⟩ ?_
      rintro r _ ⟨tr, w⟩ ⟨h, hs, hlt⟩ ⟨ha, -, rfl⟩ -
      obtain rfl : w = { r.2 with rt := r.2.rt.replace { pod := pod, cmd := some i } } := ha
      have hnumber : ∀ j, some i = some j → j < r.2.next := by
        rintro j ⟨⟩
        exact hlt
      have hmade := h.enter { pod := pod, cmd := some i }
        (c := .runtime (.replace { pod := pod, cmd := some i })) (x := ()) ⟨rfl, rfl, rfl⟩
        ⟨_, lookup_replace _ _⟩ none (.inl rfl) hnumber (fun _ => hs)
        ⟨fun hc => absurd rfl hc, fun hc => absurd hc.2 hkind⟩ (fun hc => absurd rfl hc) hD
      exact Post.bind (post_unmarked lasts_held hmade (within_ask.mpr id)) fun _ r h => post_pure h

theorem post_startWASM_held (h : Held before D lst T none r) (hD : Suits D pod)
    (hkind : (firstContainer pod).wasmModulePath ≠ "") (modulePath : String) :
    (startWASM pod modulePath).Post ((recordedAgent cfg before).settle A) r
      (Started before D lst T (podKey pod)) := by
  refine post_settle lasts_held.stable h ?_
  rintro r x ⟨tr, w⟩ h ⟨ha, -, rfl⟩ -
  obtain rfl : w = r.2 := ha
  replace h := h.idles (.did (x := x) (silent_of_not_marks id x) rfl (le_refl _))
  rcases x with err | wasmBytes
  · exact post_pure h
  refine post_settle lasts_held.stable h ?_
  rintro r x ⟨tr, w⟩ h ⟨ha, -, rfl⟩ -
  cases x with
  | error err =>
    obtain rfl : w = r.2 := ha
    exact post_pure (h.did ⟨rfl, rfl, rfl⟩)
  | ok i =>
    obtain ⟨hi, rfl⟩ : i = r.2.next ∧ w = { r.2 with next := r.2.next + 1 } := ha
    -- the number is that of no entry
    have hI := (remains_held before D lst T none).and
      ((remains_procs fun m => ∀ key tp, m.lookup key = some tp → tp.number ≠ some i).and
        (remains_lt i))
    have hfree : ∀ key tp, r.2.rt.procs.lookup key = some tp → tp.number ≠ some i :=
      fun key tp hk hn => Nat.ne_of_lt (h.numbers key tp i hk hn) hi
    refine post_settle hI.stable ⟨h.idles (.did (w := { r.2 with next := r.2.next + 1 })
      ⟨rfl, rfl, rfl⟩ rfl (le_succ _)), hfree, lt_succ_of_le (le_of_eq hi)⟩ ?_
    rintro r _ ⟨tr, w⟩ ⟨h, hfree, hlt⟩ ⟨ha, -, rfl⟩ -
    obtain rfl : w = { r.2 with
      rt := r.2.rt.replace { pod := pod, wasmRuntime := some i } } := ha
    -- it is tracked, and started after that
    have hmade := h.enter { pod := pod, wasmRuntime := some i }
      (c := .runtime (.replace { pod := pod, wasmRuntime := some i })) (x := ())
      ⟨rfl, rfl, rfl⟩ ⟨_, lookup_replace _ _⟩ (some (podKey pod)) (.inl rfl)
      (by rintro j ⟨⟩; exact hlt) (fun hne => absurd rfl hne)
      ⟨fun hc => absurd rfl hc, fun hc => absurd hc.1 hkind⟩ (fun hc => absurd rfl hc) hD
    have hJ := (remains_held before D lst (insert (podKey pod) T) (some (podKey pod))).and
      ((remains_procs fun m => ∀ tp, m.lookup (podKey pod) = some tp →
        tp.containerID = "" ∧ tp.number = some i ∧ tp.pod.getSpec = pod.getSpec).and
      (remains_procs fun m => ∀ key tp, m.lookup key = some tp → key ≠ podKey pod →
        tp.number ≠ some i))
    refine post_settle hJ.stable ⟨hmade, fun tp hl => ?_, fun key tp hl hk => ?_⟩ ?_
    · rw [lookup_replace, if_pos rfl] at hl
      cases hl
      exact ⟨rfl, rfl, rfl⟩
    · rw [lookup_replace, if_neg hk] at hl
      exact hfree key tp hl
    · rintro r _ ⟨tr, w⟩ ⟨h, hkey, hother⟩ ⟨ha, -, rfl⟩ -
      obtain rfl : w = r.2.launch ⟨i, podKey pod, true, .running⟩ := ha
      exact post_pure (h.ranWasm rfl rfl hkey hother)

/-- The containers of the key are its own. -/
theorem remains_alone (key id : String) : Remains fun r => Alone r.2.rt.procs key id :=
  remains_procs fun m => Alone m key id

theorem post_startContainerd_held (h : Held before D lst T none r) (hD : Suits D pod)
    (himg : HasImage pod) (hA : Alone r.2.rt.procs (podKey pod) (containerName pod)) :
    (startContainerd cfg pod).Post ((recordedAgent cfg before).settle A) r
      (Started before D lst T (podKey pod)) := by
  have hI := (remains_held before D lst T none).and
    (remains_alone (podKey pod) (containerName pod))
  have hL : ∀ c, Looks c → ¬ Marks c := fun c => not_marks_of_looks
  refine Post.bind (post_unmarked hI ⟨h, hA⟩ (within_ask.mpr id)) fun _ r hr => ?_
  refine Post.bind (post_unmarked hI hr (within_image hL cfg _ _)) fun x r hr => ?_
  rcases x with err | image
  · exact post_pure hr.1
  refine Post.bind (post_unmarked hI hr (within_logPath (hL _ trivial))) fun x r hr => ?_
  rcases x with err | logPath
  · exact post_pure hr.1
  refine Post.bind (post_unmarked hI hr (within_podMounts fun _ => hL _ trivial)) fun x r hr => ?_
  rcases x with err | mounts
  · exact post_pure hr.1
  refine post_settle hI.stable hr ?_
  rintro r x ⟨tr, w⟩ ⟨h, hA⟩ ⟨ha, -, rfl⟩ -
  obtain rfl : w = r.2 := ha
  cases x with
  | error err =>
    exact post_pure (h.did ⟨rfl, rfl, rfl⟩)
  | ok _ =>
    have hJ := (remains_held before D lst T (some (podKey pod))).and
      ((remains_alone (podKey pod) (containerName pod)).and (remains_startedFrom before
        { pod := pod, containerID := containerName pod } (some pod.getSpec)))
    refine post_settle hJ.stable ⟨h.ran hA, hA, ?_⟩ ?_
    · simp [startedFrom, containerName_ne, ranFrom, ranBy, runSpec]
    · rintro r _ ⟨tr, w⟩ ⟨h, hA, hs⟩ ⟨ha, -, rfl⟩ -
      obtain rfl : w = { r.2 with
        rt := r.2.rt.replace { pod := pod, containerID := containerName pod } } := ha
      refine post_pure (h.enter { pod := pod, containerID := containerName pod }
        ⟨rfl, rfl, rfl⟩ ⟨_, lookup_replace _ _⟩ none (.inr rfl) ?_ (fun _ => hs) ?_ ?_ hD)
      · rintro i hi
        cases hi
      · exact ⟨fun _ => rfl, fun _ => containerName_ne pod⟩
      · exact fun _ => ⟨himg, hA⟩

/-- **A start** leaves its pod tracked and started from its spec; if it fails, nothing new. -/
theorem post_start_held (h : Held before D lst T none r) (hD : Suits D pod)
    (hA : RunsContainer pod → Alone r.2.rt.procs (podKey pod) (containerName pod)) :
    (start cfg pod).Post ((recordedAgent cfg before).settle A) r
      (Started before D lst T (podKey pod)) := by
  rw [start]
  split
  · next hw => exact post_startWASM_held h hD hw _
  · next hw =>
    split
    · next himg => exact post_startContainerd_held h hD himg (hA ⟨not_not.mp hw, himg⟩)
    · next himg => exact post_startProcess_held h hD himg

/-! ### The tick -/

/-- A report tells nothing new. -/
theorem post_reportStatus (hI : Remains I) (hr : I r) (phase : PodPhase)
    (message : String) (restarts : Int32) (memory : Int64) :
    (reportStatus pod phase message restarts memory).Post ((recordedAgent cfg before).settle A) r
      fun _ r' => I r' :=
  post_unmarked hI hr (within_reportStatus (fun _ => id) ..)

/-- **A pod is started**; a start that fails is reported. -/
theorem post_startPod_held (h : Held before D lst T none r) (hD : Suits D pod)
    (hA : RunsContainer pod → Alone r.2.rt.procs (podKey pod) (containerName pod)) :
    (startPod cfg pod).Post ((recordedAgent cfg before).settle A) r
      fun _ r' => Held before D lst (insert (podKey pod) T) none r' := by
  refine Post.bind (post_start_held h hD hA) fun x r hr => ?_
  cases x with
  | ok _ => exact post_reportStatus lasts_held hr _ _ _ _
  | error err =>
    refine post_settle lasts_held.stable (show Held before D lst T none r from hr) ?_
    rintro r x ⟨tr, w⟩ h ⟨ha, -, rfl⟩ -
    obtain rfl : w = r.2 := ha
    refine post_pure ((h.did ⟨rfl, rfl, rfl⟩).insert fun hall => ?_)
    have hfailed := hall ⟨_, x⟩ mem_cons_self
    simp [reportsFailed, reportPhase] at hfailed

theorem post_has_held (h : Held before D lst T none r) (key : String) :
    (has key).Post ((recordedAgent cfg before).settle A) r fun b r' =>
      Held before D lst T none r' ∧ (b = true ↔ key ∈ r'.2.rt.procs) := by
  refine post_settle lasts_held.stable h ?_
  rintro r x ⟨tr, w⟩ h ⟨⟨hx, hw⟩, -, rfl⟩ -
  obtain rfl : w = r.2 := hw
  refine post_pure ⟨h.did ⟨rfl, rfl, rfl⟩, ?_⟩
  rw [hx, Finmap.mem_iff, Option.isSome_iff_exists]

/-- **A container is adopted** that was run from the spec of its pod. -/
theorem post_adoptIfRunning_held (h : Held before D (some pods) T none r)
    (hD : D.lookup (podKey pod) = some pod) (hsuits : Suits D pod) (hpod : pod ∈ assigned cfg pods)
    (hfree : podKey pod ∉ r.2.rt.procs) :
    (adoptIfRunning pod).Post ((recordedAgent cfg before).settle A) r fun b r' =>
      Held before D (some pods) (if b then insert (podKey pod) T else T) none r' := by
  rw [adoptIfRunning]
  split
  · exact post_pure h
  · next himg =>
    replace himg : HasImage pod := by simpa only [HasImage, not_and_or] using himg
    have hI := (remains_held before D (some pods) T none).and
      (remains_procs fun m => podKey pod ∉ m)
    refine post_settle hI.stable ⟨h, hfree⟩ ?_
    rintro r x ⟨tr, w⟩ ⟨h, hfree⟩ ⟨ha, ⟨_, hg⟩, rfl⟩ -
    obtain rfl : w = r.2 := ha
    have h' := h.idles (.did (silent_of_not_marks id x) rfl (le_refl _))
    rcases x with err | statuses
    · exact post_pure h'
    simp only
    split
    · next hrun =>
      -- what the guard says of the container that runs
      have hran : ranFrom before r.1 (containerName pod) = some pod.getSpec := by
        refine hg pod ?_ hfree himg hrun
        rw [h.listing]
        exact hpod
      have hs : startedFrom before r.1 { pod := pod, containerID := containerName pod } =
          some pod.getSpec := by
        rw [startedFrom, if_pos (containerName_ne pod)]
        exact hran
      have hJ := (remains_held before D (some pods) T none).and
        (remains_startedFrom before { pod := pod, containerID := containerName pod }
          (some pod.getSpec))
      refine post_settle hJ.stable
        ⟨h', (startedFrom_silent (silent_of_not_marks id _) _).trans hs⟩ ?_
      rintro r _ ⟨tr, w⟩ ⟨h, hs⟩ ⟨ha, -, rfl⟩ -
      obtain rfl : w = { r.2 with
        rt := r.2.rt.assign { pod := pod, containerID := containerName pod } } := ha
      refine post_pure (h.enter { pod := pod, containerID := containerName pod }
        ⟨rfl, rfl, rfl⟩ ⟨_, ProcessRuntime.lookup_assign _ _⟩ none (.inl rfl) ?_ (fun _ => hs) ?_ ?_
        hsuits)
      · rintro i hi
        cases hi
      · exact ⟨fun _ => rfl, fun _ => containerName_ne pod⟩
      · exact fun _ => ⟨himg, h.alone _ _ hD himg⟩
    · exact post_pure h'

/-- The pods in `D` are those of the listing. -/
structure Desires (cfg : Config) (pods : List Pod) (D : Dict String Pod) : Prop where
  key : ∀ key pod, D.lookup key = some pod → podKey pod = key
  mem : ∀ key pod, D.lookup key = some pod → pod ∈ assigned cfg pods
  suits : ∀ key pod, D.lookup key = some pod → Suits D pod

theorem post_startLoop_held (hD : Desires cfg pods D) :
    ∀ {entries : List (String × Pod)} {T : Finset String} {r : AgentRun},
      (∀ e ∈ entries, D.lookup e.1 = some e.2) → Held before D (some pods) T none r →
      (startLoop cfg entries).Post ((recordedAgent cfg before).settle A) r fun _ r' =>
        Held before D (some pods) (T ∪ (entries.map (·.1)).toFinset) none r'
  | [], T, r, _, h => post_pure (by simpa using h)
  | (key, pod) :: entries, T, r, hE, h => by
    have hl : D.lookup key = some pod := hE _ mem_cons_self
    obtain rfl : podKey pod = key := hD.key _ _ hl
    have hT : T ∪ (((podKey pod, pod) :: entries).map (·.1)).toFinset =
        insert (podKey pod) T ∪ (entries.map (·.1)).toFinset := by
      simp [Finset.insert_union, Finset.union_insert]
    rw [hT]
    have hrest :=
      fun {r : AgentRun} (h : Held before D (some pods) (insert (podKey pod) T) none r) =>
      post_startLoop_held hD (fun e he => hE e (mem_cons_of_mem _ he)) h
    refine Post.bind (post_has_held h _) fun b r ⟨h, hb⟩ => ?_
    cases b with
    | true => exact hrest (h.insert fun _ => hb.mp rfl)
    | false =>
      refine Post.bind (post_adoptIfRunning_held h hl (hD.suits _ _ hl) (hD.mem _ _ hl)
        fun hmem => Bool.false_ne_true (hb.mpr hmem)) fun b r h => ?_
      cases b with
      | true => exact hrest h
      | false =>
        refine Post.bind (post_startPod_held h (hD.suits _ _ hl) fun hc =>
          h.alone _ _ hl hc.2) fun _ r h => hrest h

/-- **What is stopped** is dropped. -/
theorem post_stop_held (h : Held before D lst T none r) (hkey : key ∉ T) {P : String → Prop}
    (hP : ∀ key' ∈ r.2.rt.procs, key' = key ∨ P key') :
    (stop key).Post ((recordedAgent cfg before).settle A) r fun _ r' =>
      Held before D lst T none r' ∧ ∀ key' ∈ r'.2.rt.procs, P key' := by
  have hI := (remains_held before D lst T none).and
    (remains_procs fun m => ∀ key' ∈ m, key' = key ∨ P key')
  refine post_settle hI.stable ⟨h, hP⟩ ?_
  rintro r x ⟨tr, w⟩ ⟨h, hP⟩ ⟨⟨-, hw⟩, -, rfl⟩ -
  obtain rfl : w = { r.2 with rt := r.2.rt.untrack key } := hw
  have hrest : ∀ key' ∈ (r.2.rt.untrack key).procs, P key' := by
    intro key' hmem
    obtain ⟨tp, hl⟩ := Finmap.mem_iff.mp hmem
    obtain ⟨hk, hl⟩ := of_lookup_untrack hl
    exact (hP key' (Finmap.mem_iff.mpr ⟨tp, hl⟩)).resolve_left hk
  have h' := (h.idles (.did (c := .runtime (.untrack key)) (x := x) ⟨rfl, rfl, rfl⟩ rfl
    (le_refl _))).untrack hkey
  have hJ := (remains_held before D lst T none).and (remains_procs fun m => ∀ key' ∈ m, P key')
  rcases x with _ | tp
  · exact post_pure ⟨h', hrest⟩
  refine post_unmarked hJ ⟨h', hrest⟩ (within_endWorkload (fun c hc => ?_) tp)
  rcases c with c | c | c | c | c | c | c | c <;> try exact id
  all_goals cases c <;> first | exact id | cases hc

theorem post_dropLoop_held :
    ∀ {keys : List String} {r : AgentRun}, Held before D lst D.keys none r →
      (∀ key ∈ r.2.rt.procs, key ∈ keys ∨ key ∈ D) →
      (dropLoop D keys).Post ((recordedAgent cfg before).settle A) r fun _ r' =>
        Held before D lst D.keys none r' ∧ ∀ key ∈ r'.2.rt.procs, key ∈ D
  | [], r, h, hkeys => post_pure ⟨h, fun key hk => (hkeys key hk).resolve_left not_mem_nil⟩
  | key :: keys, r, h, hkeys => by
    rw [dropLoop]
    split
    · next hk =>
      refine post_dropLoop_held h fun key' hk' => ?_
      rcases hkeys key' hk' with hmem | hmem
      · rcases mem_cons.mp hmem with rfl | hmem
        · exact .inr hk
        · exact .inl hmem
      · exact .inr hmem
    · next hk =>
      refine Post.bind (post_stop_held h (fun hmem => hk (Finmap.mem_keys.mp hmem))
        (P := fun key' => key' ∈ keys ∨ key' ∈ D) fun key' hk' => ?_)
        fun _ r hr => post_dropLoop_held hr.1 hr.2
      rcases hkeys key' hk' with hmem | hmem
      · exact (mem_cons.mp hmem).imp_right .inl
      · exact .inr (.inr hmem)

/-- The listed pods of this node, if they match what is tracked. -/
theorem Matches.desires {w : World} (h : Matches cfg w pods) :
    Desires cfg pods (desiredPods cfg pods) := by
  have hmem : ∀ key pod, (desiredPods cfg pods).lookup key = some pod →
      pod ∈ assigned cfg pods := by
    intro key pod hl
    obtain ⟨hp, hn, -⟩ := of_lookup_desiredPods hl
    exact mem_filter.mpr ⟨hp, decide_eq_true hn⟩
  have hkey : ∀ key pod, (desiredPods cfg pods).lookup key = some pod → podKey pod = key :=
    fun key pod hl => (of_lookup_desiredPods hl).2.2
  refine ⟨hkey, hmem, fun key pod hl => ⟨fun pod' hl' => ?_, fun himg key' pod' hl' himg' hc => ?_⟩⟩
  · exact (h.keys pod (hmem _ _ hl) pod' (hmem _ _ hl') (hkey _ _ hl')).symm
  · rw [← hkey _ _ hl']
    exact h.containers pod (hmem _ _ hl) himg pod' (hmem _ _ hl') himg' hc

/-- The pods are listed, and match what is tracked. -/
theorem Held.listed (h : Held before ∅ lst ∅ none r) (hm : Matches cfg r.2 pods) :
    Held before (desiredPods cfg pods) (some pods) ∅ none
      (.did (.api .listPods) (.ok pods) :: r.1, r.2) where
  listing := rfl
  progress _ key hkey := absurd hkey (Finset.notMem_empty key)
  numbers := h.numbers
  started key tp hl hK := h.started key tp hl hK
  own := h.own
  apart := h.apart
  fits key pod hpod tp hl := by
    obtain rfl := hm.desires.key _ _ hpod
    exact hm.same pod (hm.desires.mem _ _ hpod) tp hl
  alone key pod hpod himg key' tp hl hc := by
    obtain rfl := hm.desires.key _ _ hpod
    exact hm.own pod (hm.desires.mem _ _ hpod) himg key' (Finmap.mem_keys.mpr
      (Finmap.mem_iff.mpr ⟨tp, hl⟩)) tp hl hc

/-- **What a tick leaves**: the keys that are desired, started from what is desired. -/
theorem asDesired_of_held (hm : ∃ w, Matches cfg w pods)
    (h : Held before (desiredPods cfg pods) (some pods) (desiredPods cfg pods).keys none r)
    (hkeys : ∀ key ∈ r.2.rt.procs, key ∈ desiredPods cfg pods) : AsDesired cfg before r.1 r.2 := by
  obtain ⟨w, hm⟩ := hm
  intro hall pods' hpods'
  obtain rfl : pods = pods' := Option.some.inj (h.listing.symm.trans hpods')
  have hdesired :
      ∀ key, key ∈ desiredPods cfg pods ↔ ∃ pod ∈ assigned cfg pods, podKey pod = key := by
    intro key
    constructor
    · intro hk
      obtain ⟨pod, hl⟩ := Finmap.mem_iff.mp hk
      exact ⟨pod, hm.desires.mem _ _ hl, hm.desires.key _ _ hl⟩
    · rintro ⟨pod, hpod, rfl⟩
      obtain ⟨hp, hn⟩ := mem_filter.mp hpod
      exact Finmap.mem_iff.mpr (exists_lookup_desiredPods hp (of_decide_eq_true hn))
  have htracked : ∀ key ∈ desiredPods cfg pods, key ∈ r.2.rt.procs := fun key hk =>
    h.progress hall key (Finmap.mem_keys.mpr hk)
  refine ⟨?_, fun pod hpod => ?_⟩
  · ext key
    simp only [Finmap.mem_keys, mem_toFinset, mem_map, ← hdesired]
    exact ⟨hkeys key, htracked key⟩
  · have hk := (hdesired (podKey pod)).mpr ⟨pod, hpod, rfl⟩
    obtain ⟨pod', hl'⟩ := Finmap.mem_iff.mp hk
    obtain ⟨tp, hl⟩ := Finmap.mem_iff.mp (htracked _ hk)
    refine ⟨tp, hl, ?_⟩
    rw [h.started _ tp hl (by simp), h.fits _ pod' hl' tp hl]
    exact congrArg some
      (hm.keys pod hpod pod' (hm.desires.mem _ _ hl') (hm.desires.key _ _ hl'))

theorem post_reconcilePods_held (hm : ∃ w, Matches cfg w pods)
    (h : Held before (desiredPods cfg pods) (some pods) ∅ none r) :
    (reconcilePods cfg pods).Post ((recordedAgent cfg before).settle A) r fun _ r' =>
      Held before (desiredPods cfg pods) (some pods) (desiredPods cfg pods).keys none r' ∧
        ∀ key ∈ r'.2.rt.procs, key ∈ desiredPods cfg pods := by
  have hD : Desires cfg pods (desiredPods cfg pods) := hm.elim fun _ hm => hm.desires
  have hL : ∀ c, Looks c → ¬ Marks c := fun c => not_marks_of_looks
  refine Post.bind (post_unmarked lasts_held h
    (within_checkContainerdExits hL (fun _ => id) fun _ => id)) fun _ r h => ?_
  refine Post.bind (post_unmarked lasts_held h
    (within_reconcileOrphanContainers hL _)) fun _ r h => ?_
  refine post_settle lasts_held.stable h ?_
  rintro r keys ⟨tr, w⟩ h ⟨⟨horder, hw⟩, -, rfl⟩ -
  obtain rfl : w = r.2 := hw
  replace h := h.idles (.did (c := .order _) (x := keys) ⟨rfl, rfl, rfl⟩ rfl (le_refl _))
  refine Post.bind (post_startLoop_held hD (fun e he => (Finmap.mem_range.mp he).2) h)
    fun _ r h => ?_
  have hT : ∅ ∪ (((desiredPods cfg pods).range keys).map (·.1)).toFinset =
      (desiredPods cfg pods).keys := by
    rw [Finset.empty_union, Finmap.IsOrder.map_fst_range ⟨horder.1, horder.2⟩]
    exact horder.2
  rw [hT] at h
  refine post_settle lasts_held.stable h ?_
  rintro r keys ⟨tr, w⟩ h ⟨⟨horder, hw⟩, -, rfl⟩ -
  obtain rfl : w = r.2 := hw
  refine Post.bind (post_dropLoop_held (h.idles (.did (c := .runtime .keys) (x := keys)
    ⟨rfl, rfl, rfl⟩ rfl (le_refl _))) fun key hk => .inl ?_) fun _ r hr => ?_
  · exact horder.mem_iff.mpr hk
  · have hI := (remains_held before (desiredPods cfg pods) (some pods)
      (desiredPods cfg pods).keys none).and
      (remains_procs fun m => ∀ key ∈ m, key ∈ desiredPods cfg pods)
    refine Post.bind (post_unmarked hI hr (within_ask.mpr id)) fun keys r hr => ?_
    exact post_unmarked hI hr (within_reportLoop hL (fun _ => id) keys)

/-! ### The other rounds -/

/-- What is desired is forgotten. -/
theorem Held.forget (h : Held before D lst T none r) : Held before ∅ lst ∅ none r where
  listing := h.listing
  progress _ key hkey := absurd hkey (Finset.notMem_empty key)
  numbers := h.numbers
  started := h.started
  own := h.own
  apart := h.apart
  fits key pod hpod := by simp at hpod
  alone key pod hpod := by simp at hpod

theorem suits_empty (pod : Pod) : Suits ∅ pod :=
  ⟨fun pod' hpod => by simp at hpod, fun _ key' pod' hpod => by simp at hpod⟩

/-- **An exit is handled** for the pod that is tracked. -/
theorem post_handleExit_held (h : Held before ∅ lst ∅ none r) (ev : ExitEvent) :
    (handleExit cfg ev).Post ((recordedAgent cfg before).settle A) r fun _ r' =>
      Held before ∅ lst ∅ none r' := by
  have hL : ∀ c, Looks c → ¬ Marks c := fun c => not_marks_of_looks
  have hpod : (podOf ev.key).Post ((recordedAgent cfg before).settle A) r fun x r' =>
      Held before ∅ lst ∅ none r' ∧ ∀ pod, x = some pod →
        RunsContainer pod → Alone r'.2.rt.procs (podKey pod) (containerName pod) := by
    refine post_settle lasts_held.stable h ?_
    rintro r x ⟨tr, w⟩ h ⟨⟨hx, hw⟩, -, rfl⟩ -
    obtain rfl : w = r.2 := hw
    refine post_pure ⟨h.did ⟨rfl, rfl, rfl⟩, fun pod hpod hrun => ?_⟩
    obtain ⟨tp, htp, rfl⟩ := Option.map_eq_some_iff.mp hpod
    -- the pod is tracked with its container, which no other key has
    have hl : r.2.rt.procs.lookup ev.key = some tp := hx.symm.trans htp
    have hc := (h.own _ tp hl).2 hrun
    rw [r.2.rt.keyed _ tp hl, ← (h.own _ tp hl).1 hc]
    exact h.apart _ tp hl hc
  refine Post.bind hpod fun x r ⟨h, halone⟩ => ?_
  rcases x with _ | pod
  · exact post_pure h
  have hI := (remains_held before ∅ lst ∅ none).and (remains_procs fun m =>
    RunsContainer pod → Alone m (podKey pod) (containerName pod))
  refine Post.bind (post_unmarked hI ⟨h, halone pod rfl⟩ (within_stillRunning hL _))
    fun b r hr => ?_
  cases b with
  | true => exact post_pure hr.1
  | false =>
    simp only [onExit]
    split
    · refine Post.bind (α := Except String Unit) (Φ := fun _ r' =>
        Held before ∅ lst ∅ none r') ?_ fun x r h => ?_
      · refine post_settle hI.stable hr ?_
        rintro r _ ⟨tr, w⟩ ⟨h, halone⟩ ⟨ha, -, rfl⟩ -
        obtain rfl : w = { r.2 with rt := r.2.rt.countRestart (podKey pod) } := ha
        refine (post_start_held ((h.idles (.did ⟨rfl, rfl, rfl⟩ rfl
          (le_refl _))).countRestart _) (suits_empty pod) fun hrun key tp hl he => ?_).mono
          fun x r h => ?_
        · obtain ⟨tp₀, hl₀, n, rfl⟩ := of_lookup_countRestart hl
          exact halone hrun key tp₀ hl₀ he
        · cases x with
          | error err => exact h
          | ok _ => exact Held.forget h
      · have hreport : ∀ {phase message restarts} {r : AgentRun}, Held before ∅ lst ∅ none r →
            (reportStatus pod phase message restarts 0).Post
              ((recordedAgent cfg before).settle A) r fun _ r' => Held before ∅ lst ∅ none r' :=
          fun h => post_reportStatus lasts_held h _ _ _ _
        cases x with
        | error err | ok _ =>
          exact Post.bind (post_unmarked lasts_held h
            (within_restartCount hL _)) fun _ r h => hreport h
    · refine Post.bind (post_stop_held hr.1 (Finset.notMem_empty _)
        (P := fun _ => True) fun _ _ => .inr trivial) fun _ r hr => ?_
      exact post_reportStatus lasts_held hr.1 _ _ _ _

theorem post_stopLoop_held :
    ∀ {keys : List String} {r : AgentRun}, Held before ∅ lst ∅ none r →
      (stopLoop keys).Post ((recordedAgent cfg before).settle A) r fun _ r' =>
        Held before ∅ lst ∅ none r'
  | [], _, h => post_pure h
  | _ :: _, _, h =>
    Post.bind (post_stop_held h (Finset.notMem_empty _) (P := fun _ => True)
      fun _ _ => .inr trivial) fun _ _ hr => post_stopLoop_held hr.1

/-- **A round** leaves what is desired, if it has listed the pods. -/
theorem post_round_held (h : Held before ∅ none ∅ none r) (e : AgentEvent) :
    (round cfg e).Post ((recordedAgent cfg before).settle A) r fun _ r' =>
      (∃ lst, Held before ∅ lst ∅ none r') ∧ AsDesired cfg before r'.1 r'.2 := by
  -- where nothing was listed, nothing is desired
  have hnone : ∀ {r : AgentRun}, Held before ∅ none ∅ none r →
      (∃ lst, Held before ∅ lst ∅ none r) ∧ AsDesired cfg before r.1 r.2 := by
    intro r h
    refine ⟨⟨none, h⟩, fun _ pods hpods => ?_⟩
    rw [h.listing] at hpods
    cases hpods
  have hask : ∀ {c : AgentCmd} {I : AgentRun → Prop} {r : AgentRun} {b : Bool}, ¬ Marks c →
      Remains I → I r → (Prog.ask c >>= fun _ => pure b : Act Bool).Post
        ((recordedAgent cfg before).settle A) r fun _ r' => I r' := fun hc hI hr =>
    Post.bind (post_unmarked hI hr (within_ask.mpr hc)) fun _ r hr => post_pure hr
  cases e with
  | tick =>
    -- once they are listed, what is desired does not change
    refine Post.bind (Φ := fun _ r' => Held before ∅ none ∅ none r' ∨ ∃ pods,
      (∃ w, Matches cfg w pods) ∧
      Held before (desiredPods cfg pods) (some pods) (desiredPods cfg pods).keys none r' ∧
        ∀ key ∈ r'.2.rt.procs, key ∈ desiredPods cfg pods) ?_ fun _ r hr => ?_
    · refine post_settle lasts_held.stable h ?_
      rintro r x ⟨tr, w⟩ h ⟨ha, ⟨_, hg⟩, rfl⟩ -
      obtain rfl : w = r.2 := ha
      cases x with
      | error err =>
        exact post_pure (.inl (h.did ⟨rfl, rfl, rfl⟩))
      | ok pods =>
        exact (post_reconcilePods_held ⟨_, hg⟩ (h.listed hg)).mono fun _ r hr =>
          .inr ⟨pods, ⟨_, hg⟩, hr⟩
    · rcases hr with h | ⟨pods, hm, hr⟩
      · exact (hask id lasts_held h).mono fun _ r h => hnone h
      · have hI := (remains_held before (desiredPods cfg pods) (some pods)
          (desiredPods cfg pods).keys none).and
          (remains_procs fun m => ∀ key ∈ m, key ∈ desiredPods cfg pods)
        exact (hask id hI hr).mono fun _ r hr =>
          ⟨⟨_, hr.1.forget⟩, asDesired_of_held hm hr.1 hr.2⟩
  | exit ev =>
    exact Post.bind (post_handleExit_held h ev) fun _ r h => post_pure (hnone h)
  | done =>
    refine Post.bind (Φ := fun _ r' => Held before ∅ none ∅ none r') ?_ fun _ r h =>
      (hask id lasts_held h).mono fun _ r h => hnone h
    exact Post.bind (post_unmarked lasts_held h (within_ask.mpr id))
      fun _ r h => post_stopLoop_held h

/-- An event is taken. -/
theorem Held.take {e : AgentEvent} {r' : AgentRun} (h : Held before ∅ lst ∅ none r)
    (ha : (recordedAgent cfg before).arrives e r r') : Held before ∅ none ∅ none r' := by
  obtain ⟨tr, w⟩ := r'
  obtain ⟨ha, -, rfl⟩ := ha
  have hrt : w.rt = r.2.rt := Arrives.rt_eq ha
  have hnext : w.next = r.2.next := by
    cases e with
    | tick | done => rw [show w = r.2 from ha]
    | exit ev => obtain ⟨q, rest, -, -, rfl⟩ := ha; rfl
  exact
    { listing := rfl
      progress := fun _ key hkey => absurd hkey (Finset.notMem_empty key)
      numbers := by simpa only [hrt, hnext] using h.numbers
      started := fun key tp hl hK => h.started key tp (by simpa only [hrt] using hl) hK
      own := by simpa only [hrt] using h.own
      apart := by simpa only [hrt] using h.apart
      fits := by simpa only [hrt] using h.fits
      alone := by simpa only [hrt] using h.alone }

end

/-- **The agent runs what is desired**, after every tick in which all starts succeed: whenever the
loop waits, what is tracked are the pods that were listed for this node at the last tick, each
started from the spec that was listed; if pods keep their specs while they are tracked, and their
containers are their own. -/
theorem runs_desired {cfg : Config} {before : String → Option PodSpec} {tr : List AgentStep}
    {t : World} (h : (agentLoop cfg).Reaches (SpecsKept cfg before) World.new tr .idle t) :
    AsDesired cfg before tr t := by
  have hsettled := Reaches.settled (A := fun _ _ _ _ => True)
    (I := fun r => (∃ lst, Held before ∅ lst ∅ none r) ∧ AsDesired cfg before r.1 r.2)
    ?_ (fun _ _ _ _ _ _ => trivial) ?_ (fun _ e r r' hr ha _ => ?_) h.recorded
  · exact hsettled.2
  · refine ⟨⟨none, ?_⟩, fun _ pods hpods => by cases hpods⟩
    exact
      { listing := rfl
        progress := fun _ key hkey => absurd hkey (Finset.notMem_empty key)
        numbers := fun key tp i hl => by simp [World.new, ProcessRuntime.new] at hl
        started := fun key tp hl => by simp [World.new, ProcessRuntime.new] at hl
        own := fun key tp hl => by simp [World.new, ProcessRuntime.new] at hl
        apart := fun key tp hl => by simp [World.new, ProcessRuntime.new] at hl
        fits := fun key pod hpod => by simp at hpod
        alone := fun key pod hpod => by simp at hpod }
  · rintro r ⟨tr, w⟩ ⟨hd, rfl⟩ ⟨⟨lst, hheld⟩, has⟩
    have hp : w.rt.procs = r.2.rt.procs := hd.fades.procs
    refine ⟨⟨lst, hheld.idles (.drift hp hd.fades.next)⟩, fun hall pods hpods => ?_⟩
    simp only [hp]
    exact has hall pods hpods
  · obtain ⟨⟨lst, hheld⟩, -⟩ := hr
    exact post_round_held (hheld.take ha) e

/-! ### Two ticks -/

instance (tr : List AgentStep) : Decidable (AllStarted tr) :=
  inferInstanceAs (Decidable (∀ _ ∈ _, _))

instance (cfg : Config) (w : World) (pods : List Pod) : Decidable (Matches cfg w pods) :=
  decidable_of_iff (_ ∧ _ ∧ _ ∧ _)
    ⟨fun h => ⟨h.1, h.2.1, h.2.2.1, h.2.2.2⟩, fun h => ⟨h.same, h.keys, h.containers, h.own⟩⟩

instance (cfg : Config) (before : String → Option PodSpec) (tr : List AgentStep) (w : World)
    (statuses : Dict String Bool) : Decidable (AdoptsOwn cfg before tr w statuses) :=
  inferInstanceAs (Decidable (∀ _ ∈ _, _))

instance (cfg : Config) (before : String → Option PodSpec) :
    DecidableGuard (SpecsKept cfg before) where
  takes _ _ _ := inferInstanceAs (Decidable True)
  allows tr e c x w := by
    unfold SpecsKept
    dsimp only
    split <;> infer_instance

/-- No container ran before. -/
def noneBefore : String → Option PodSpec := fun _ => none

theorem runs_desired_sample :
    ∃ tr t, (agentLoop nodeOne).Reaches (SpecsKept nodeOne noneBefore) .new tr .idle t ∧
      (listing tr = some [oneShot] ∧ AllStarted tr) ∧ AsDesired nodeOne noneBefore tr t := by
  obtain ⟨tr, m, t, h, hm, hT⟩ :=
    exists_of_play (agentResolver nodeOne) (SpecsKept nodeOne noneBefore)
    (s := .new) (T := fun r => waiting r.mode = true ∧ listing r.trace = some [oneShot] ∧
      AllStarted r.trace)
    [.take .tick, .answer (listed oneShot) 20, .back, .take .tick, .answer (listed oneShot) 16,
      .back]
    (by decide)
  obtain rfl := idle_of_waiting hm
  exact ⟨tr, t, h, hT, runs_desired h⟩

/-- The pod, made anew with another command. -/
def oneShotEdited : Pod :=
  { oneShot with spec := some { oneShot.getSpec with
      containers := [{ name := "app", command := ["false"] }] } }

/-- **A pod that is edited is not restarted**: it is made anew with another command between two
ticks, and after the second one what is tracked under its key was started from the old one. -/
theorem edited_pod_not_restarted :
    ∃ tr t, (agentLoop nodeOne).Reaches unguarded .new tr .idle t ∧
      listing tr = some [oneShotEdited] ∧ AllStarted tr ∧ ¬ AsDesired nodeOne noneBefore tr t := by
  obtain ⟨tr, m, t, h, hm, hl, hall, hs⟩ := exists_of_play (agentResolver nodeOne) unguarded
    (s := .new) (T := fun r => waiting r.mode = true ∧ listing r.trace = some [oneShotEdited] ∧
      AllStarted r.trace ∧ ∀ tp ∈ r.state.rt.procs.lookup "default/job",
        startedFrom noneBefore r.trace tp = some oneShot.getSpec)
    [.take .tick, .answer (listed oneShot) 20, .back,
      .take .tick, .answer (listed oneShotEdited) 16, .back] (by decide)
  obtain rfl := idle_of_waiting hm
  refine ⟨tr, t, h, hl, hall, fun has => ?_⟩
  obtain ⟨tp, htp, hspec⟩ := (has hall _ hl).2 oneShotEdited (by decide)
  rw [hs tp htp] at hspec
  exact absurd hspec (by decide)

end NimbusCore.Agent
