import NimbusCore.Agent.Confinement
import NimbusCore.Agent.Workloads

/-!
# Agent — what a workload was started from

After a tick the agent should track the pods that are listed for its node, and each of them should
run as its spec says (`AsDesired`).  A tick compares keys: what is tracked under the key of a listed
pod is left as it is, and a container that runs under the name of one is adopted.  What a tracked
workload was started from is read off the steps of the run (`startedFrom`).

* `Matches`, `AdoptsOwn`: the listed pods are those that are tracked, as far as they are; they share
  no key and no container; and a container that is found running was last run from the spec of the
  pod it is found for.
* `Held`: what every call keeps then.  `Held.enter`: an entry is made; `Held.numbered`, `Held.ran`,
  `Held.ranWasm`: something is started; `Held.restrict`: entries go; `Held.idles`: anything else.
-/

namespace NimbusCore.Agent

open Api EventLoop ProcessRuntime

/-! ### What a workload was started from -/

/-- The container that a step has run, and the spec it was run from. -/
def ranBy : AgentStep → Option (String × PodSpec)
  | .did (.containerd (.runContainer pod spec)) (.ok _) => some (spec.id, pod.getSpec)
  | _ => none

/-- The number of the workload that a step has started, and the spec it was started from. -/
def startedBy : AgentStep → Option (Nat × PodSpec)
  | .did (.os (.startCommand pod _)) (.ok i) => some (i, pod.getSpec)
  | .did (.os (.runWasm pod i _)) _ => some (i, pod.getSpec)
  | _ => none

section

variable (before : String → Option PodSpec) (tr : List AgentStep)

/-- The spec that a container was last run from.  Before the run it was run from `before`. -/
def ranFrom (id : String) : Option PodSpec := ((tr.filterMap ranBy).lookup id).or (before id)

/-- The spec that a tracked workload was started from. -/
def startedFrom (tp : TrackedProcess) : Option PodSpec :=
  if tp.containerID ≠ "" then ranFrom before tr tp.containerID
  else tp.number.bind fun i => (tr.filterMap startedBy).lookup i

end

/-! ### What is desired -/

/-- The pods that a command has listed. -/
def listedPods : AgentDone → Option (List Pod)
  | ⟨.api .listPods, .ok pods⟩ => some pods
  | _ => none

/-- A pod was reported as failed. -/
def reportsFailed : AgentDone → Bool
  | ⟨.api (.updatePodStatus req), _⟩ => reportPhase req = .failed
  | _ => false

/-- What was listed since the last event. -/
def listing (tr : List AgentStep) : Option (List Pod) := (current tr).findSome? listedPods

/-- No start has failed since the last event: a start that fails is reported. -/
def AllStarted (tr : List AgentStep) : Prop := ∀ d ∈ current tr, reportsFailed d = false

/-- The pods that are assigned to this node. -/
def assigned (cfg : Config) (pods : List Pod) : List Pod :=
  pods.filter fun pod => pod.getSpec.nodeName = cfg.nodeName

/-- **The agent runs what is desired**: if the pods were listed and all starts have succeeded, what
is tracked are the keys of the pods that are assigned to this node, and each was started from the
spec that was listed. -/
def AsDesired (cfg : Config) (before : String → Option PodSpec) (tr : List AgentStep) (w : World) :
    Prop :=
  AllStarted tr → ∀ pods ∈ listing tr,
    w.rt.procs.keys = ((assigned cfg pods).map podKey).toFinset ∧
    ∀ pod ∈ assigned cfg pods, ∃ tp ∈ w.rt.procs.lookup (podKey pod),
      startedFrom before tr tp = some pod.getSpec

/-! ### When it does -/

/-- The pod has an image, or one to be built. -/
def HasImage (pod : Pod) : Prop :=
  (firstContainer pod).image ≠ "" ∨ (firstContainer pod).buildSource ≠ none

instance (pod : Pod) : Decidable (HasImage pod) := inferInstanceAs (Decidable (_ ∨ _))

/-- The listed pods of this node go with what is tracked, and with each other. -/
structure Matches (cfg : Config) (w : World) (pods : List Pod) : Prop where
  /-- A pod that is tracked has the spec that is tracked. -/
  same : ∀ pod ∈ assigned cfg pods, ∀ tp ∈ w.rt.procs.lookup (podKey pod),
    tp.pod.getSpec = pod.getSpec
  /-- Pods with one key have one spec. -/
  keys : ∀ pod ∈ assigned cfg pods, ∀ pod' ∈ assigned cfg pods, podKey pod' = podKey pod →
    pod'.getSpec = pod.getSpec
  /-- Pods with one container have one key. -/
  containers : ∀ pod ∈ assigned cfg pods, HasImage pod → ∀ pod' ∈ assigned cfg pods, HasImage pod' →
    containerName pod' = containerName pod → podKey pod' = podKey pod
  /-- The container of a pod is not tracked under another key. -/
  own : ∀ pod ∈ assigned cfg pods, HasImage pod → ∀ key ∈ w.rt.procs.keys,
    ∀ tp ∈ w.rt.procs.lookup key, tp.containerID = containerName pod → key = podKey pod

/-- A container that runs under the name of a listed pod of this node, when the pod is not tracked,
was last run from the spec of that pod. -/
def AdoptsOwn (cfg : Config) (before : String → Option PodSpec) (tr : List AgentStep) (w : World)
    (statuses : Dict String Bool) : Prop :=
  ∀ pod ∈ assigned cfg ((listing tr).getD []), podKey pod ∉ w.rt.procs → HasImage pod →
    running statuses (containerName pod) = true →
      ranFrom before tr (containerName pod) = some pod.getSpec

/-- **Pods keep their specs** while they are tracked, and their containers are their own. -/
def SpecsKept (cfg : Config) (before : String → Option PodSpec) :
    Guard AgentEvent AgentCmd AgentCmd.Answer World where
  allows tr _ c x w := match c, x with
    | .api .listPods, .ok pods => Matches cfg w pods
    | .containerd .listTasks, .ok statuses => AdoptsOwn cfg before tr w statuses
    | _, _ => True

/-! ### What every call keeps -/

/-- The steps of a run, and where it has come to. -/
abbrev AgentRun := List AgentStep × World

/-- The entry has the container of its pod or none, and has one if the pod is run as one. -/
def OwnContainer (tp : TrackedProcess) : Prop :=
  (tp.containerID ≠ "" → tp.containerID = containerName tp.pod) ∧
    (RunsContainer tp.pod → tp.containerID ≠ "")

/-- No other key has the container. -/
def Alone (m : Dict String TrackedProcess) (key id : String) : Prop :=
  ∀ key' tp', m.lookup key' = some tp' → tp'.containerID = id → key' = key

/-- **What is kept** in a call in which `lst` was listed and the pods in `D` are desired: everything
that is tracked, but for the key `K`, was started from the spec of its pod, and goes with the
desired pods.  If no start has failed then the keys in `T` are tracked. -/
structure Held (before : String → Option PodSpec) (D : Dict String Pod) (lst : Option (List Pod))
    (T : Finset String) (K : Option String) (r : AgentRun) : Prop where
  listing : listing r.1 = lst
  progress : AllStarted r.1 → ∀ key ∈ T, key ∈ r.2.rt.procs
  numbers : ∀ key tp i, r.2.rt.procs.lookup key = some tp → tp.number = some i → i < r.2.next
  started : ∀ key tp, r.2.rt.procs.lookup key = some tp → some key ≠ K →
    startedFrom before r.1 tp = some tp.pod.getSpec
  own : ∀ key tp, r.2.rt.procs.lookup key = some tp → OwnContainer tp
  apart : ∀ key tp, r.2.rt.procs.lookup key = some tp → tp.containerID ≠ "" →
    Alone r.2.rt.procs key tp.containerID
  fits : ∀ key pod, D.lookup key = some pod → ∀ tp, r.2.rt.procs.lookup key = some tp →
    tp.pod.getSpec = pod.getSpec
  alone : ∀ key pod, D.lookup key = some pod → HasImage pod →
    Alone r.2.rt.procs key (containerName pod)

/-- The command starts, tracks, untracks or lists. -/
def Marks : AgentCmd → Prop
  | .api .listPods => True
  | .containerd (.runContainer ..) => True
  | .os (.startCommand ..) | .os .newWasm | .os (.runWasm ..) => True
  | .runtime (.replace _) | .runtime (.assign _) | .runtime (.countRestart _) => True
  | .runtime (.untrack _) => True
  | _ => False

/-- The step runs, starts and lists nothing. -/
def Silent (c : AgentCmd) (x : c.Answer) : Prop :=
  ranBy (.did c x) = none ∧ startedBy (.did c x) = none ∧ listedPods ⟨c, x⟩ = none

/-- A step that tells nothing new. -/
inductive Idles (r : AgentRun) : AgentRun → Prop
  | drift {w : World} : w.rt.procs = r.2.rt.procs → w.next = r.2.next → Idles r (r.1, w)
  | did {c : AgentCmd} {x : c.Answer} {w : World} : Silent c x → w.rt.procs = r.2.rt.procs →
      r.2.next ≤ w.next → Idles r (.did c x :: r.1, w)

/-- The pod goes with the desired ones. -/
structure Suits (D : Dict String Pod) (pod : Pod) : Prop where
  spec : ∀ pod', D.lookup (podKey pod) = some pod' → pod.getSpec = pod'.getSpec
  container : HasImage pod → ∀ key' pod', D.lookup key' = some pod' → HasImage pod' →
    containerName pod' = containerName pod → key' = podKey pod

variable {c : AgentCmd} {pod : Pod} {rt : ProcessRuntime}

section

variable {before : String → Option PodSpec} {D : Dict String Pod} {lst : Option (List Pod)}
  {T : Finset String} {K K' : Option String} {r r' : AgentRun} {tr : List AgentStep} {w : World}
  {key : String} {x : c.Answer}

theorem AllStarted.of_cons (h : AllStarted (.did c x :: tr)) :
    AllStarted tr := fun d hd => h d (List.mem_cons_of_mem _ hd)

theorem silent_of_not_marks (hc : ¬ Marks c) (x : c.Answer) : Silent c x := by
  rcases c with c | c | c | c | c | c | c | c <;> try exact ⟨rfl, rfl, rfl⟩
  all_goals cases c <;> first | exact ⟨rfl, rfl, rfl⟩ | exact absurd trivial hc

theorem startedFrom_silent (h : Silent c x) (tp : TrackedProcess) :
    startedFrom before (.did c x :: tr) tp = startedFrom before tr tp := by
  simp only [startedFrom, ranFrom, List.filterMap_cons, h.1, h.2.1]

section

variable (h : Held before D lst T K r)

include h

/-- The world goes on, and what is tracked stays. -/
theorem Held.moved (hp : w.rt.procs = r.2.rt.procs) (hn : r.2.next ≤ w.next) :
    Held before D lst T K (r.1, w) where
  listing := h.listing
  progress := by simpa only [hp] using h.progress
  numbers key tp i hk hi := by
    simp only [hp] at hk
    exact Nat.lt_of_lt_of_le (h.numbers key tp i hk hi) hn
  started := by simpa only [hp] using h.started
  own := by simpa only [hp] using h.own
  apart := by simpa only [hp] using h.apart
  fits := by simpa only [hp] using h.fits
  alone := by simpa only [hp] using h.alone

/-- **A step that tracks nothing.**  What it leaves of what was started is to be seen. -/
theorem Held.step
    (hp : w.rt.procs = r.2.rt.procs) (hn : r.2.next ≤ w.next) (hl : listedPods ⟨c, x⟩ = none)
    (hs : ∀ key tp, r.2.rt.procs.lookup key = some tp → some key ≠ K' →
      startedFrom before (.did c x :: r.1) tp = some tp.pod.getSpec) :
    Held before D lst T K' (.did c x :: r.1, w) :=
  { h.moved hp hn with
    listing := by
      rw [← h.listing]
      simp only [Agent.listing, current, List.findSome?_cons, hl]
    progress := fun ha => (h.moved hp hn).progress ha.of_cons
    started := by simpa only [hp] using hs }

/-- **A step that tells nothing new** keeps everything. -/
theorem Held.idles (hi : Idles r r') : Held before D lst T K r' := by
  cases hi with
  | drift hp hn => exact h.moved hp (Nat.le_of_eq hn.symm)
  | did hc hp hn =>
    refine h.step hp hn hc.2.2 fun key tp hk hK => ?_
    rw [startedFrom_silent hc]
    exact h.started key tp hk hK

theorem Held.did (hc : Silent c x) : Held before D lst T K (.did c x :: r.1, r.2) :=
  h.idles (.did hc rfl (Nat.le_refl _))

/-- More is tracked only if it is tracked. -/
theorem Held.insert (hk : AllStarted r.1 → key ∈ r.2.rt.procs) :
    Held before D lst (insert key T) K r :=
  { h with
    progress := by
      intro ha key' hkey'
      rcases Finset.mem_insert.mp hkey' with rfl | hkey'
      · exact hk ha
      · exact h.progress ha key' hkey' }

end

/-- A process has been started under a number that no entry has. -/
theorem Held.numbered (h : Held before D lst T none r) {args : List String} {n : Nat}
    (hnew : n = r.2.next) :
    Held before D lst T none (.did (.os (.startCommand pod args)) (.ok n) :: r.1,
      { r.2 with next := r.2.next + 1 }) := by
  refine h.step rfl (Nat.le_succ _) rfl fun key tp hk hK => ?_
  rw [← h.started key tp hk hK]
  simp only [startedFrom, ranFrom, List.filterMap_cons, ranBy, startedBy]
  split
  · rfl
  · cases hi : tp.number with
    | none => rfl
    | some i =>
      have hlt := h.numbers key tp i hk hi
      simp only [Option.bind_some, List.lookup_cons]
      rw [show (i == n) = false from beq_false_of_ne (hnew ▸ Nat.ne_of_lt hlt)]

/-- The container of a key has been run. -/
theorem Held.ran (h : Held before D lst T none r) {spec : ContainerdRunSpec}
    (ha : Alone r.2.rt.procs key spec.id) :
    Held before D lst T (some key) (.did (.containerd (.runContainer pod spec)) (.ok ()) :: r.1,
      r.2) := by
  refine h.step rfl (Nat.le_refl _) rfl fun key' tp hk hK => ?_
  rw [← h.started key' tp hk (by simp)]
  simp only [startedFrom, ranFrom, List.filterMap_cons, ranBy, startedBy, List.lookup_cons]
  have hne : tp.containerID ≠ spec.id := fun he => hK (congrArg some (ha key' tp hk he))
  rw [beq_false_of_ne hne]

/-- The WASM module that is tracked under a key has been started. -/
theorem Held.ranWasm (h : Held before D lst T (some key) r) {i : Nat}
    {module : List UInt8} (hp : w.rt.procs = r.2.rt.procs) (hn : w.next = r.2.next)
    (hkey : ∀ tp, r.2.rt.procs.lookup key = some tp →
      tp.containerID = "" ∧ tp.number = some i ∧ tp.pod.getSpec = pod.getSpec)
    (hother : ∀ key' tp, r.2.rt.procs.lookup key' = some tp → key' ≠ key → tp.number ≠ some i) :
    Held before D lst T none (.did (.os (.runWasm pod i module)) () :: r.1, w) := by
  refine h.step hp (Nat.le_of_eq hn.symm) rfl fun key' tp hk _ => ?_
  by_cases hkk : key' = key
  · subst hkk
    obtain ⟨hc, hi, hspec⟩ := hkey tp hk
    simp [startedFrom, hc, hi, startedBy, hspec]
  · rw [← h.started key' tp hk fun he => hkk (Option.some.inj he)]
    simp only [startedFrom, ranFrom, List.filterMap_cons, ranBy, startedBy]
    split
    · rfl
    · cases hj : tp.number with
      | none => rfl
      | some j =>
        have hne : j ≠ i := by
          rintro rfl
          exact hother key' tp hk hkk hj
        simp only [Option.bind_some, List.lookup_cons, beq_false_of_ne hne]

/-- **An entry is made**: a new one that replaces the old one, or one of what runs. -/
theorem Held.enter (h : Held before D lst T K r) (tp : TrackedProcess)
    (hc : Silent c x) (hrt : ∃ n, ∀ key, rt.procs.lookup key = if key = podKey tp.pod then
      some { tp with restarts := n } else r.2.rt.procs.lookup key) (K' : Option String)
    (hK : K = none ∨ K = some (podKey tp.pod)) (hn : ∀ i, tp.number = some i → i < r.2.next)
    (hs : some (podKey tp.pod) ≠ K' → startedFrom before r.1 tp = some tp.pod.getSpec)
    (hown : OwnContainer tp) (halone : tp.containerID ≠ "" → HasImage tp.pod ∧
      Alone r.2.rt.procs (podKey tp.pod) tp.containerID) (hD : Suits D tp.pod) :
    Held before D lst (Insert.insert (podKey tp.pod) T) K'
      (.did c x :: r.1, { r.2 with rt := rt }) := by
  replace h := h.did hc
  rw [← startedFrom_silent hc] at hs
  obtain ⟨n, hrt⟩ := hrt
  -- an entry is the new one or an old one
  have hcases : ∀ {key tp'}, rt.procs.lookup key = some tp' →
      key = podKey tp.pod ∧ tp' = { tp with restarts := n } ∨ key ≠ podKey tp.pod ∧
        r.2.rt.procs.lookup key = some tp' := by
    intro key tp' hl
    rw [hrt] at hl
    split at hl
    · next hk => exact .inl ⟨hk, (Option.some.inj hl).symm⟩
    · next hk => exact .inr ⟨hk, hl⟩
  have hother : ∀ {key}, key ≠ podKey tp.pod → some key ≠ K := by
    rintro key hk he
    rcases hK with rfl | rfl
    · cases he
    · exact hk (Option.some.inj he)
  refine
    { listing := h.listing
      progress := fun ha key hkey => ?_
      numbers := fun key tp' i hl hi => ?_
      started := fun key tp' hl hne => ?_
      own := fun key tp' hl => ?_
      apart := fun key tp' hl hc key'' tp'' hl' he => ?_
      fits := fun key pod hpod tp' hl => ?_
      alone := fun key pod hpod himg key'' tp'' hl' he => ?_ }
  · rw [Finmap.mem_iff, hrt]
    split
    · exact ⟨_, rfl⟩
    · next hk =>
      exact Finmap.mem_iff.mp (h.progress ha key ((Finset.mem_insert.mp hkey).resolve_left hk))
  · rcases hcases hl with ⟨-, rfl⟩ | ⟨-, hl⟩
    · exact hn i hi
    · exact h.numbers key tp' i hl hi
  · rcases hcases hl with ⟨rfl, rfl⟩ | ⟨hk, hl⟩
    · exact hs hne
    · exact h.started key tp' hl (hother hk)
  · rcases hcases hl with ⟨-, rfl⟩ | ⟨-, hl⟩
    · exact hown
    · exact h.own key tp' hl
  · rcases hcases hl with ⟨rfl, rfl⟩ | ⟨hk, hl⟩ <;> rcases hcases hl' with ⟨rfl, rfl⟩ | ⟨hk', hl'⟩
    · rfl
    · exact (halone hc).2 key'' tp'' hl' he
    · exact ((halone (he ▸ hc)).2 key tp' hl he.symm).symm
    · exact h.apart key tp' hl hc key'' tp'' hl' he
  · rcases hcases hl with ⟨rfl, rfl⟩ | ⟨-, hl⟩
    · exact hD.spec pod hpod
    · exact h.fits key pod hpod tp' hl
  · rcases hcases hl' with ⟨rfl, rfl⟩ | ⟨-, hl'⟩
    · have hc : tp.containerID ≠ "" := he ▸ containerName_ne pod
      exact (hD.container (halone hc).1 key pod hpod himg (he.symm.trans (hown.1 hc))).symm
    · exact h.alone key pod hpod himg key'' tp'' hl' he

/-- Entries go, or have their restarts counted. -/
theorem Held.restrict (h : Held before D lst T K r)
    (hold : ∀ {key tp}, rt.procs.lookup key = some tp →
      ∃ tp₀, r.2.rt.procs.lookup key = some tp₀ ∧ ∃ n, tp = { tp₀ with restarts := n })
    (hT : ∀ key ∈ T, key ∈ r.2.rt.procs → key ∈ rt.procs) :
    Held before D lst T K (r.1, { r.2 with rt := rt }) := by
  refine
    { listing := h.listing
      progress := fun ha key hkey => hT key hkey (h.progress ha key hkey)
      numbers := fun key tp i hl hi => ?_
      started := fun key tp hl hne => ?_
      own := fun key tp hl => ?_
      apart := fun key tp hl hc key' tp' hl' he => ?_
      fits := fun key pod hpod tp hl => ?_
      alone := fun key pod hpod himg key' tp hl he => ?_ }
  · obtain ⟨tp₀, hl₀, n, rfl⟩ := hold hl
    exact h.numbers key tp₀ i hl₀ hi
  · obtain ⟨tp₀, hl₀, n, rfl⟩ := hold hl
    exact h.started key tp₀ hl₀ hne
  · obtain ⟨tp₀, hl₀, n, rfl⟩ := hold hl
    exact h.own key tp₀ hl₀
  · obtain ⟨tp₀, hl₀, n, rfl⟩ := hold hl
    obtain ⟨tp₁, hl₁, n', rfl⟩ := hold hl'
    exact h.apart key tp₀ hl₀ hc key' tp₁ hl₁ he
  · obtain ⟨tp₀, hl₀, n, rfl⟩ := hold hl
    exact h.fits key pod hpod tp₀ hl₀
  · obtain ⟨tp₀, hl₀, n, rfl⟩ := hold hl
    exact h.alone key pod hpod himg key' tp₀ hl₀ he

theorem of_lookup_countRestart {key' : String} {tp : TrackedProcess}
    (hl : (rt.countRestart key).procs.lookup key' = some tp) :
    ∃ tp₀, rt.procs.lookup key' = some tp₀ ∧ ∃ n, tp = { tp₀ with restarts := n } := by
  rw [lookup_countRestart, Option.map_eq_some_iff] at hl
  obtain ⟨tp₀, hl, rfl⟩ := hl
  refine ⟨tp₀, hl, ?_⟩
  split
  · exact ⟨_, rfl⟩
  · exact ⟨tp₀.restarts, rfl⟩

theorem of_lookup_untrack {key' : String} {tp : TrackedProcess}
    (hl : (rt.untrack key).procs.lookup key' = some tp) :
    key' ≠ key ∧ rt.procs.lookup key' = some tp := by
  rw [lookup_untrack] at hl
  split at hl
  · cases hl
  · next hk => exact ⟨hk, hl⟩

/-- A restart is counted. -/
theorem Held.countRestart (h : Held before D lst T K r) (key : String) :
    Held before D lst T K (r.1, { r.2 with rt := r.2.rt.countRestart key }) := by
  refine h.restrict of_lookup_countRestart fun key' _ hmem => ?_
  obtain ⟨tp, hl⟩ := Finmap.mem_iff.mp hmem
  rw [Finmap.mem_iff]
  simp only [lookup_countRestart, hl, Option.map_some]
  exact ⟨_, rfl⟩

/-- An entry is dropped. -/
theorem Held.untrack (h : Held before D lst T K r) (hkey : key ∉ T) :
    Held before D lst T K (r.1, { r.2 with rt := r.2.rt.untrack key }) := by
  refine h.restrict (fun hl => ⟨_, (of_lookup_untrack hl).2, _, rfl⟩) fun key' hk hmem => ?_
  rw [Finmap.mem_iff, lookup_untrack, if_neg (by rintro rfl; exact hkey hk)]
  exact Finmap.mem_iff.mp hmem

end

end NimbusCore.Agent
