import NimbusCore.Agent.Exits
import NimbusCore.Agent.Queue
import NimbusCore.Support.Steps

/-!
# Agent — containers that are missing from a listing

A container that is missing from three listings of the running tasks in a row is taken to have
exited.  How often it was missing is counted under the key of its pod (`missingStreaks`), beside
what is tracked; `start`, `adoptIfRunning`, `restart` and `stop` change what is tracked and leave
the count.  Here they and `checkContainerdExits` come in any order, one after another, and each of
them meets a listing of its own (`Operated`).

* `Counted`: the count is the number of listings in a row that the tracked container was missing
  from (`missed`), modulo three, as long as no container is taken up under a key that has a count
  (`Fresh`).
* `debounce_iff`: in such runs an exit is sent only when the container was missing from the last
  three listings since it was taken up; and whenever it was, exactly if no listing finds it missing
  after an exit was sent for it, before three more have.
* `exit_after_one_listing`: a count that is left behind makes the next container under the key exit
  at its first listing.
-/

namespace NimbusCore.Agent

open Api Prog List Option ProcessRuntime

/-! ### The operations -/

/-- An operation of the runtime. -/
inductive RuntimeOp where
  | start (pod : Pod)
  | adopt (pod : Pod)
  | restart (pod : Pod)
  | stop (key : String)
  | check

/-- `start` starts a container for the pod. -/
def runsContainer (pod : Pod) : Bool :=
  (firstContainer pod).wasmModulePath = "" ∧
    ((firstContainer pod).image ≠ "" ∨ (firstContainer pod).buildSource ≠ none)

namespace RuntimeOp

/-- The operation; it returns whether a pod was taken up. -/
def prog (cfg : Config) : RuntimeOp → Act Bool
  | .start pod => do
    let x ← Agent.start cfg pod
    return x.isOk
  | .adopt pod => adoptIfRunning pod
  | .restart pod => do
    let x ← Agent.restart cfg pod
    return x.isOk
  | .stop key => do
    Agent.stop key
    return false
  | .check => do
    checkContainerdExits
    return false

/-- The pod it takes up. -/
def pod? : RuntimeOp → Option Pod
  | .start pod | .adopt pod | .restart pod => some pod
  | .stop _ | .check => none

/-- It takes up a container. -/
def ofContainer : RuntimeOp → Bool
  | .start pod | .restart pod => runsContainer pod
  | .adopt _ => true
  | .stop _ | .check => false

end RuntimeOp

/-- What an operation meets: a listing of the tasks, and a channel in which there is always room. -/
def watched (tasks : Except String (Dict String Bool)) : Handler AgentCmd AgentCmd.Answer World
  | .containerd .listTasks, w, x, w' => x = tasks ∧ w' = w
  | .send ev, w, _, w' => w' = { w with queue := w.queue ++ [⟨ev, none⟩] }
  | c, w, x, w' => answers c w x w'

/-- One operation. -/
structure OpStep where
  op : RuntimeOp
  tasks : Except String (Dict String Bool)
  took : Bool
  pre : World
  post : World

/-- **The operations, newest first**, lead to the maps `r`.  Between two of them only the maps stay
as they are: exits are taken from the channel, and workloads end. -/
def Operated (cfg : Config) : List OpStep → ProcessRuntime → Prop
  | [], r => r = .new
  | st :: tr, r => Operated cfg tr st.pre.rt ∧ st.post.rt = r ∧
      (st.op.prog cfg).Runs (watched st.tasks) st.pre (.ok st.took) st.post

namespace OpStep

/-- The listing that `checkContainerdExits` had. -/
def listed (st : OpStep) : Option (Dict String Bool) :=
  match st.op, st.tasks with
  | .check, .ok statuses => some statuses
  | _, _ => none

/-- A pod was taken up under the key. -/
def takes (st : OpStep) (key : String) : Bool := st.took && (st.op.pod?.map podKey == some key)

theorem takes_iff {st : OpStep} {key : String} :
    st.takes key = true ↔ st.took = true ∧ ∃ pod ∈ st.op.pod?, podKey pod = key := by
  simp [takes]

/-- An exit was sent for the key. -/
def Sends (st : OpStep) (key : String) : Prop :=
  ∃ q ∈ st.post.queue.drop st.pre.queue.length, q.ev.key = key

end OpStep

/-- The container that is tracked under a key. -/
def ProcessRuntime.container (r : ProcessRuntime) (key : String) : Option String :=
  (r.procs.lookup key).bind fun tp => if tp.containerID = "" then none else some tp.containerID

/-- The count of a key. -/
def ProcessRuntime.streak (r : ProcessRuntime) (key : String) : Nat := r.missingStreaks.getD key 0

/-- **The last listings in a row that the container tracked under the key was missing from**, since
it was started or adopted. -/
def missed (key : String) : List OpStep → Nat
  | [] => 0
  | st :: tr =>
    match st.listed with
    | none => if st.takes key then 0 else missed key tr
    | some statuses =>
      match st.pre.rt.container key with
      | none => 0
      | some id => if running statuses id then 0 else missed key tr + 1

/-! ### What an operation does -/

/-- The command leaves the maps and the channel alone. -/
def Idle : AgentCmd → Prop
  | .runtime (.tracked _) | .runtime .keys => True
  | .runtime _ | .send _ => False
  | _ => True

/-- The maps and the channel are as before. -/
structure Same (w w' : World) : Prop where
  rt : w'.rt = w.rt
  queue : w'.queue = w.queue

theorem World.Numbers.queue_eq {w w' : World} {y : Except String Nat} (h : w.Numbers y w') :
    w'.queue = w.queue := by
  cases y with
  | ok i => obtain ⟨-, rfl⟩ := h; rfl
  | error err => rw [show w' = w from h]

variable {c : AgentCmd}

theorem idle_of_looks (h : Looks c) : Idle c := by
  rcases c with c | c | c | c | c | c | c | c <;> first | trivial | skip
  all_goals cases c <;> trivial

variable {w₁ : World} {b : Bool}

section

variable {tasks : Except String (Dict String Bool)} {w w' : World} {cfg : Config} {pod : Pod}

theorem Same.of_idle {x : c.Answer} (hc : Idle c) {w₂ : World}
    (h : watched tasks c w₁ x w₂) (hs : Same w w₁) : Same w w₂ := by
  suffices Same w₁ w₂ from ⟨this.rt.trans hs.rt, this.queue.trans hs.queue⟩
  cases c with
  | send ev => cases hc
  | runtime c =>
    cases c with
    | tracked key | keys => rw [h.2]; exact ⟨rfl, rfl⟩
    | _ => cases hc
  | containerd c =>
    cases c with
    | listTasks => rw [h.2]; exact ⟨rfl, rfl⟩
    | _ => rw [show w₂ = w₁ from h]; exact ⟨rfl, rfl⟩
  | os c =>
    cases c with
    | startCommand pod args | newWasm => exact ⟨World.Numbers.rt_eq h, World.Numbers.queue_eq h⟩
    | _ => rw [show w₂ = _ from h]; exact ⟨rfl, rfl⟩
  | order keys => rw [h.2]; exact ⟨rfl, rfl⟩
  | _ => rw [show w₂ = w₁ from h]; exact ⟨rfl, rfl⟩

/-- A program that leaves the maps and the channel alone. -/
theorem Same.post {α : Type} {p : Act α} {Q : Empty → Prop} (hp : p.Within Idle Q)
    (hs : Same w w₁) : p.Post (watched tasks) w₁ fun _ w' => Same w w' :=
  hp.post (fun _ hc _ _ _ h hs => hs.of_idle hc h) hs

/-- **What taking up a pod does**: the counts and the channel stay, and so does every container but
the one under the key of the pod, if the pod was taken up. -/
structure TakenUp (pod : Pod) (ofContainer : Bool) (w : World) (took : Bool) (w' : World) :
    Prop where
  streaks : w'.rt.missingStreaks = w.rt.missingStreaks
  queue : w'.queue = w.queue
  other : ∀ key, took = false ∨ key ≠ podKey pod → w'.rt.container key = w.rt.container key
  taken : took = true → ofContainer = false → w'.rt.container (podKey pod) = none

theorem Same.takenUp (h : Same w w') : TakenUp pod b w false w' where
  streaks := by rw [h.rt]
  queue := h.queue
  other key _ := by rw [h.rt]
  taken ht := by cases ht

theorem container_assign (r : ProcessRuntime) (tp : TrackedProcess) (key : String) :
    (r.assign tp).container key =
      if key = podKey tp.pod then if tp.containerID = "" then none else some tp.containerID
      else r.container key := by
  rw [ProcessRuntime.container, lookup_assign]
  split
  · rfl
  · rfl

theorem Same.takenUp_assign (tp : TrackedProcess) (h : Same w w') (htp : tp.pod = pod)
    (hb : b = false → tp.containerID = "") :
    TakenUp pod b w true { w' with rt := w'.rt.assign tp } where
  streaks := by
    change w'.rt.missingStreaks = _
    rw [h.rt]
  queue := h.queue
  other key hk := by
    have hk : key ≠ podKey tp.pod := htp ▸ hk.resolve_left Bool.noConfusion
    exact (container_assign w'.rt tp key).trans (by rw [if_neg hk, h.rt])
  taken _ hf := by
    refine (container_assign w'.rt tp _).trans ?_
    rw [if_pos (congrArg podKey htp.symm), if_pos (hb hf)]

theorem Same.takenUp_replace (tp : TrackedProcess) (h : Same w w') (htp : tp.pod = pod)
    (hb : b = false → tp.containerID = "") :
    TakenUp pod b w true { w' with rt := w'.rt.replace tp } :=
  h.takenUp_assign { tp with restarts := w'.rt.restartsOf (podKey tp.pod) } htp hb

/-- A command that leaves the maps alone, and what follows it. -/
theorem post_idle_bind {α : Type} {f : c.Answer → Act α} {Φ : α → World → Prop} (hc : Idle c)
    (hs : Same w w') (h : ∀ x w₁, Same w w₁ → (f x).Post (watched tasks) w₁ Φ) :
    (Prog.ask c >>= f).Post (watched tasks) w' Φ :=
  post_ask_bind fun x w₁ hx => h x w₁ (hs.of_idle hc hx)

theorem takesUp_startContainerd : (startContainerd cfg pod).Post (watched tasks) w
    fun x w' => TakenUp pod true w x.isOk w' := by
  refine post_idle_bind trivial ⟨rfl, rfl⟩ fun _ w₁ h₁ => ?_
  refine Post.bind (h₁.post (Q := fun _ => True) (within_image (fun _ => idle_of_looks) ..))
    fun x w₂ h₂ => ?_
  rcases x with err | image
  · exact post_pure h₂.takenUp
  refine Post.bind (h₂.post (Q := fun _ => True) (within_logPath trivial)) fun x w₃ h₃ => ?_
  rcases x with err | logPath
  · exact post_pure h₃.takenUp
  refine Post.bind
    (h₃.post (Q := fun _ => True) (within_podMounts fun _ => trivial)) fun x w₄ h₄ => ?_
  rcases x with err | mounts
  · exact post_pure h₄.takenUp
  refine post_idle_bind trivial h₄ fun x w₅ h₅ => ?_
  rcases x with err | _
  · exact post_pure h₅.takenUp
  refine post_ask_bind fun _ w₆ h₆ => post_pure ?_
  rw [show w₆ = _ from h₆]
  exact h₅.takenUp_replace _ rfl fun hf => by cases hf

theorem takesUp_startProcess : (startProcess pod).Post (watched tasks) w
    fun x w' => TakenUp pod false w x.isOk w' := by
  have hw : Same w w := ⟨rfl, rfl⟩
  rw [startProcess]
  split
  · exact post_pure hw.takenUp
  · refine post_idle_bind trivial hw fun x w₁ h₁ => ?_
    rcases x with err | i
    · exact post_pure h₁.takenUp
    refine post_ask_bind fun _ w₂ h₂ => post_ask_bind fun _ w₃ h₃ => post_pure ?_
    rw [show w₃ = _ from h₃, show w₂ = _ from h₂]
    obtain ⟨hst, hq, ho, ht⟩ := h₁.takenUp_replace (b := false)
      { pod := pod, cmd := some i } rfl fun _ => rfl
    exact ⟨hst, hq, ho, ht⟩

theorem takesUp_startWASM (modulePath : String) : (startWASM pod modulePath).Post (watched tasks) w
    fun x w' => TakenUp pod false w x.isOk w' := by
  refine post_idle_bind trivial ⟨rfl, rfl⟩ fun x w₁ h₁ => ?_
  rcases x with err | wasmBytes
  · exact post_pure h₁.takenUp
  refine post_idle_bind trivial h₁ fun x w₂ h₂ => ?_
  rcases x with err | i
  · exact post_pure h₂.takenUp
  refine post_ask_bind fun _ w₃ h₃ => post_ask_bind fun _ w₄ h₄ =>
    post_pure ?_
  rw [show w₄ = _ from h₄, show w₃ = _ from h₃]
  obtain ⟨hst, hq, ho, ht⟩ := h₂.takenUp_replace (b := false)
    { pod := pod, wasmRuntime := some i } rfl fun _ => rfl
  exact ⟨hst, hq, ho, ht⟩

theorem takesUp_start : (start cfg pod).Post (watched tasks) w
    fun x w' => TakenUp pod (runsContainer pod) w x.isOk w' := by
  rw [start]
  split
  · next hw =>
    rw [runsContainer, decide_eq_false fun h => hw h.1]
    exact takesUp_startWASM _
  · next hw =>
    split
    · next hc =>
      rw [runsContainer, decide_eq_true ⟨not_not.mp hw, hc⟩]
      exact takesUp_startContainerd
    · next hc =>
      rw [runsContainer, decide_eq_false fun h => hc h.2]
      exact takesUp_startProcess

theorem container_countRestart (r : ProcessRuntime) (key key' : String) :
    (r.countRestart key).container key' = r.container key' := by
  rw [ProcessRuntime.container, lookup_countRestart, ProcessRuntime.container]
  cases r.procs.lookup key' with
  | none => rfl
  | some tp =>
    simp only [map_some, bind_some]
    split <;> rfl

theorem takesUp_restart : (restart cfg pod).Post (watched tasks) w
    fun x w' => TakenUp pod (runsContainer pod) w x.isOk w' := by
  refine post_ask_bind fun _ w₁ h₁ => takesUp_start.mono fun x w' h => ?_
  rw [show w₁ = _ from h₁] at h
  exact ⟨h.streaks.trans (by rw [ProcessRuntime.countRestart]; split <;> rfl), h.queue,
    fun key hk => (h.other key hk).trans (container_countRestart ..), h.taken⟩

theorem takesUp_adoptIfRunning : (adoptIfRunning pod).Post (watched tasks) w
    fun took w' => TakenUp pod true w took w' := by
  have hw : Same w w := ⟨rfl, rfl⟩
  rw [adoptIfRunning]
  split
  · exact post_pure hw.takenUp
  · refine post_idle_bind trivial hw fun x w₁ h₁ => ?_
    rcases x with err | statuses
    · exact post_pure h₁.takenUp
    dsimp only
    split
    · refine post_ask_bind fun _ w₂ h₂ => post_pure ?_
      rw [show w₂ = _ from h₂]
      exact h₁.takenUp_assign _ rfl fun hf => by cases hf
    · exact post_pure h₁.takenUp

theorem untracks_stop (key : String) : (stop key).Post (watched tasks) w
    fun _ w' => Same { w with rt := w.rt.untrack key } w' := by
  refine post_ask_bind fun tp w₁ h₁ => ?_
  have hs : Same { w with rt := w.rt.untrack key } w₁ := by
    rw [show w₁ = _ from h₁.2]
    exact ⟨rfl, rfl⟩
  rcases tp with _ | tp
  · exact post_pure hs
  refine hs.post (Q := fun _ => True) (within_endWorkload (fun c hc => ?_) tp)
  rcases c with c | c | c | c | c | c | c | c <;> first | trivial | skip
  all_goals cases c <;> trivial

theorem post_sendLoop : ∀ (exits : List ExitEvent) (w : World),
    (sendLoop exits).Post (watched tasks) w fun _ w' =>
      w'.rt = w.rt ∧ w'.queue = w.queue ++ exits.map fun ev => ⟨ev, none⟩
  | [], w => post_pure ⟨rfl, by simp⟩
  | ev :: exits, w => by
    refine post_ask_bind fun _ w₁ h₁ => (post_sendLoop exits w₁).mono fun _ w' h => ?_
    rw [show w₁ = _ from h₁] at h
    exact ⟨h.1, by rw [h.2]; simp⟩

/-- **A listing**: the counts are those of the loop, and what it finds is sent. -/
theorem post_check (statuses : Dict String Bool) :
    checkContainerdExits.Post (watched (.ok statuses)) w fun _ w' =>
      ∃ order, Finmap.IsOrder order w.rt.procs ∧ w'.rt = (w.rt.confirm statuses order).1 ∧
        w'.queue = w.queue ++ (w.rt.confirm statuses order).2.map fun ev => ⟨ev, none⟩ := by
  refine post_ask_bind fun x w₁ h₁ => ?_
  obtain ⟨rfl, rfl⟩ := h₁
  refine post_ask_bind fun exits w₂ h₂ => (post_sendLoop exits w₂).mono fun _ w' h => ?_
  obtain ⟨order, ho, rfl, rfl⟩ := h₂
  exact ⟨order, ho, h.1, h.2⟩

theorem post_check_error (err : String) : checkContainerdExits.Post (watched (.error err)) w
    fun _ w' => Same w w' := by
  refine post_ask_bind fun x w₁ h₁ => ?_
  obtain ⟨rfl, rfl⟩ := h₁
  exact post_pure ⟨rfl, rfl⟩

end

/-! ### What a listing does to the counts -/

/-- The count of a key after a listing. -/
def countAfter (statuses : Dict String Bool) (id : String) (n : Nat) : Nat :=
  if running statuses id then 0
  else if n + 1 < containerdMissingConfirmations then n + 1 else 0

variable {id : String}

section

variable {statuses : Dict String Bool} {tp : TrackedProcess} {key : String}

/-- One round of the loop. -/
theorem confirmLoop_fst_cons (statuses : Dict String Bool) (key : String) (tp : TrackedProcess)
    (entries : List (String × TrackedProcess)) (streaks : Dict String Nat) :
    ∃ streaks', (confirmLoop statuses ((key, tp) :: entries) streaks).1 =
        (confirmLoop statuses entries streaks').1 ∧
      (∀ other, other ≠ key → streaks'.getD other 0 = streaks.getD other 0) ∧
      (tp.containerID ≠ "" →
        streaks'.getD key 0 = countAfter statuses tp.containerID (streaks.getD key 0)) := by
  rw [confirmLoop, countAfter]
  split
  · next hc => exact ⟨streaks, rfl, fun _ _ => rfl, fun hne => absurd hc hne⟩
  · split
    · refine ⟨streaks.erase key, rfl, fun other ho => ?_, fun _ => ?_⟩
      · simp only [Finmap.getD, Finmap.lookup_erase_ne ho]
      · simp only [Finmap.getD, Finmap.lookup_erase, getD_none]
    · split
      · refine ⟨_, rfl, fun other ho => ?_, fun _ => ?_⟩
        · simp only [Finmap.getD, Finmap.lookup_insert_of_ne _ ho]
        · simp only [Finmap.getD, Finmap.lookup_insert, getD_some]
      · refine ⟨streaks.erase key, rfl, fun other ho => ?_, fun _ => ?_⟩
        · simp only [Finmap.getD, Finmap.lookup_erase_ne ho]
        · simp only [Finmap.getD, Finmap.lookup_erase, getD_none]

theorem getD_confirmLoop_of_notMem : ∀ {entries : List (String × TrackedProcess)}
    {streaks : Dict String Nat}, key ∉ entries.map Prod.fst →
      (confirmLoop statuses entries streaks).1.getD key 0 = streaks.getD key 0
  | [], _, _ => rfl
  | (other, tp) :: entries, streaks, h => by
    rw [map_cons, mem_cons, not_or] at h
    obtain ⟨streaks', heq, hother, -⟩ := confirmLoop_fst_cons statuses other tp entries
      streaks
    rw [heq, getD_confirmLoop_of_notMem h.2, hother key h.1]

/-- **The loop counts every container once.** -/
theorem getD_confirmLoop (hc : tp.containerID ≠ "") : ∀ {entries : List (String × TrackedProcess)}
    {streaks : Dict String Nat}, (entries.map Prod.fst).Nodup → (key, tp) ∈ entries →
      (confirmLoop statuses entries streaks).1.getD key 0 =
        countAfter statuses tp.containerID (streaks.getD key 0)
  | [], _, _, h => by cases h
  | (other, tp') :: entries, streaks, hn, h => by
    rw [map_cons, nodup_cons] at hn
    obtain ⟨streaks', heq, hother, hround⟩ := confirmLoop_fst_cons statuses other tp' entries
      streaks
    rw [heq]
    rcases mem_cons.mp h with he | h
    · cases he
      rw [getD_confirmLoop_of_notMem hn.1, hround hc]
    · have hmem : key ∈ entries.map Prod.fst := mem_map_of_mem (f := Prod.fst) h
      have hne : key ≠ other := fun hk => hn.1 (hk ▸ hmem)
      rw [getD_confirmLoop hc hn.2 h, hother key hne]

theorem container_eq_some {r : ProcessRuntime} : r.container key = some id ↔
    ∃ tp, r.procs.lookup key = some tp ∧ tp.containerID ≠ "" ∧ tp.containerID = id := by
  simp only [ProcessRuntime.container, bind_eq_some_iff, ite_none_left_eq_some,
    Option.some.injEq, ne_eq]

end

/-! ### One operation -/

/-- A listing was had. -/
structure WithListing (st : OpStep) (statuses : Dict String Bool) : Prop where
  listed : st.listed = some statuses
  container : ∀ key, st.post.rt.container key = st.pre.rt.container key
  streak : ∀ key id, st.pre.rt.container key = some id →
    st.post.rt.streak key = countAfter statuses id (st.pre.rt.streak key)
  sends : ∀ key, st.Sends key ↔ ∃ id, st.pre.rt.container key = some id ∧
    running statuses id = false ∧ containerdMissingConfirmations ≤ st.pre.rt.streak key + 1

/-- No listing was had. -/
structure WithoutListing (st : OpStep) : Prop where
  listed : st.listed = none
  streak : ∀ key, st.post.rt.streak key = st.pre.rt.streak key
  sends : ∀ key, ¬ st.Sends key
  container : ∀ key, (st.post.rt.container key).isSome →
    (st.takes key = true ∧ st.op.ofContainer = true) ∨
      st.takes key = false ∧ (st.pre.rt.container key).isSome

variable {statuses : Dict String Bool}

section

variable {cfg : Config} {st : OpStep} {tr : List OpStep} {key : String}

theorem OpStep.not_sends (h : st.post.queue = st.pre.queue) : ¬ st.Sends key := by
  rintro ⟨q, hq, -⟩
  rw [h, drop_length] at hq
  cases hq

theorem Same.withoutListing (hl : st.listed = none) (h : Same st.pre st.post)
    (ht : ∀ key, st.takes key = false) : WithoutListing st where
  listed := hl
  streak key := by rw [h.rt]
  sends _ := OpStep.not_sends h.queue
  container key hs := .inr ⟨ht key, by rwa [h.rt] at hs⟩

theorem TakenUp.withoutListing (pod : Pod) (hl : st.listed = none) (hp : st.op.pod? = some pod)
    (h : TakenUp pod st.op.ofContainer st.pre st.took st.post) : WithoutListing st where
  listed := hl
  streak key := by rw [ProcessRuntime.streak, h.streaks, ProcessRuntime.streak]
  sends _ := OpStep.not_sends h.queue
  container key hs := by
    have htakes : st.takes key = (st.took && (podKey pod == key)) := by
      rw [OpStep.takes, hp]
      rfl
    rw [htakes]
    by_cases hk : st.took = true ∧ podKey pod = key
    · obtain ⟨htook, rfl⟩ := hk
      refine .inl ⟨by simp [htook], ?_⟩
      rw [← Bool.not_eq_false]
      intro hf
      rw [h.taken htook hf] at hs
      cases hs
    · refine .inr ⟨by simpa using hk, ?_⟩
      rw [h.other key ?_] at hs
      · exact hs
      · by_cases ht : st.took = true
        · exact .inr fun he => hk ⟨ht, he.symm⟩
        · exact .inl (Bool.not_eq_true _ ▸ ht)

theorem withListing_of_confirm {order : List String} (hl : st.listed = some statuses)
    (ho : Finmap.IsOrder order st.pre.rt.procs)
    (hrt : st.post.rt = (st.pre.rt.confirm statuses order).1) (hq : st.post.queue =
      st.pre.queue ++ (st.pre.rt.confirm statuses order).2.map fun ev => ⟨ev, none⟩) :
    WithListing st statuses := by
  have hnodup : ((st.pre.rt.procs.range order).map Prod.fst).Nodup := by
    rw [ho.map_fst_range]
    exact ho.1
  refine ⟨hl, fun key => by rw [hrt]; rfl, fun key id hc => ?_, fun key => ?_⟩
  · obtain ⟨tp, htp, hne, rfl⟩ := container_eq_some.mp hc
    rw [hrt]
    exact getD_confirmLoop hne hnodup (ho.mem_range.mpr htp)
  · rw [OpStep.Sends, hq, drop_left]
    constructor
    · rintro ⟨q, hmem, rfl⟩
      obtain ⟨ev, hev, rfl⟩ := mem_map.mp hmem
      rw [ProcessRuntime.confirm, confirmLoop_exits statuses hnodup] at hev
      obtain ⟨⟨key, tp⟩, hent, rfl⟩ := mem_map.mp hev
      obtain ⟨hrange, hdue⟩ := mem_filter.mp hent
      obtain ⟨hne, hrun, hle⟩ := of_decide_eq_true hdue
      exact ⟨tp.containerID, container_eq_some.mpr ⟨tp, ho.mem_range.mp hrange, hne, rfl⟩,
        hrun, hle⟩
    · rintro ⟨id, hc, hrun, hle⟩
      obtain ⟨tp, htp, hne, rfl⟩ := container_eq_some.mp hc
      refine ⟨⟨⟨key, -1⟩, none⟩, mem_map_of_mem ?_, rfl⟩
      rw [ProcessRuntime.confirm, confirmLoop_exits statuses hnodup]
      refine mem_map.mpr ⟨(key, tp), mem_filter.mpr ⟨ho.mem_range.mpr htp, ?_⟩, rfl⟩
      exact decide_eq_true ⟨hne, hrun, hle⟩

/-- **What one operation does.** -/
theorem OpStep.cases (h : (st.op.prog cfg).Runs (watched st.tasks) st.pre (.ok st.took) st.post) :
    (∃ statuses, WithListing st statuses) ∨ WithoutListing st := by
  obtain ⟨op, tasks, took, pre, post⟩ := st
  cases op with
  | start pod =>
    refine .inr (TakenUp.withoutListing pod rfl rfl ?_)
    exact Post.bind takesUp_start (fun _ _ hx => post_pure hx) _ _ h
  | restart pod =>
    refine .inr (TakenUp.withoutListing pod rfl rfl ?_)
    exact Post.bind takesUp_restart (fun _ _ hx => post_pure hx) _ _ h
  | adopt pod => exact .inr (TakenUp.withoutListing pod rfl rfl (takesUp_adoptIfRunning _ _ h))
  | stop key =>
    have hs : Same { pre with rt := pre.rt.untrack key } post :=
      (untracks_stop key).const false _ _ h
    refine .inr ⟨rfl, fun other => ?_, fun _ => OpStep.not_sends hs.queue, fun other hc => ?_⟩
    · change post.rt.streak other = _
      rw [hs.rt]
      rfl
    · refine .inr ⟨by simp [OpStep.takes, RuntimeOp.pod?], ?_⟩
      change (post.rt.container other).isSome at hc
      rw [hs.rt, ProcessRuntime.container] at hc
      change (((pre.rt.untrack key).procs.lookup other).bind _).isSome at hc
      rw [lookup_untrack] at hc
      split at hc
      · cases hc
      · exact hc
  | check =>
    cases tasks with
    | error err =>
      have hs : Same pre post := (post_check_error err).const false _ _ h
      exact .inr (hs.withoutListing rfl fun _ => by simp [OpStep.takes, RuntimeOp.pod?])
    | ok statuses =>
      obtain ⟨order, ho, hrt, hq⟩ := (post_check statuses).const false _ _ h
      exact .inl ⟨statuses, withListing_of_confirm rfl ho hrt hq⟩

/-! ### Every run -/

/-- **No count is left behind**: when a container is taken up under a key, the key has no count. -/
def Fresh (_ : List OpStep) (st : OpStep) : Prop :=
  st.op.ofContainer = true → st.took = true →
    ∀ pod ∈ st.op.pod?, st.pre.rt.streak (podKey pod) = 0

instance (tr : List OpStep) (st : OpStep) : Decidable (Fresh tr st) :=
  inferInstanceAs (Decidable (_ → _ → ∀ pod ∈ _, _))

/-- An exit is sent for a key only if the container that is tracked there was missing from the last
three listings since it was taken up. -/
def OnlyConfirmed (tr : List OpStep) (st : OpStep) : Prop :=
  ∀ key, st.Sends key → st.listed.isSome ∧ containerdMissingConfirmations ≤ missed key (st :: tr)

/-- Whenever it was, one is sent. -/
def Prompt (tr : List OpStep) (st : OpStep) : Prop :=
  st.listed.isSome → ∀ key, containerdMissingConfirmations ≤ missed key (st :: tr) → st.Sends key

/-- After three listings in a row that a container was missing from, it is not missing again, unless
it is missing three more times. -/
def Heeded (tr : List OpStep) (st : OpStep) : Prop :=
  st.listed.isSome → ∀ key, containerdMissingConfirmations ≤ missed key (st :: tr) →
    missed key (st :: tr) % containerdMissingConfirmations = 0

/-- **The count is the number of listings in a row, modulo three.** -/
def Counted (tr : List OpStep) (r : ProcessRuntime) : Prop :=
  ∀ key, (r.container key).isSome → r.streak key = missed key tr % containerdMissingConfirmations

theorem missed_of_withListing
    (h : WithListing st statuses) (hc : st.pre.rt.container key = some id) :
    missed key (st :: tr) = if running statuses id then 0 else missed key tr + 1 := by
  rw [missed, h.listed]
  simp only [hc]

theorem Counted.step (h : Counted tr st.pre.rt) (hfresh : Fresh tr st)
    (hs : (∃ statuses, WithListing st statuses) ∨ WithoutListing st) :
    Counted (st :: tr) st.post.rt := by
  intro key hsome
  rcases hs with ⟨statuses, hs⟩ | hs
  · rw [hs.container] at hsome
    obtain ⟨id, hid⟩ := isSome_iff_exists.mp hsome
    rw [hs.streak key id hid, missed_of_withListing hs hid, h key hsome, countAfter]
    split
    · rfl
    · rw [containerdMissingConfirmations]
      split <;> omega
  · rw [hs.streak key, missed, hs.listed]
    dsimp only
    rcases hs.container key hsome with ⟨htakes, hop⟩ | ⟨htakes, hpre⟩
    · obtain ⟨htook, pod, hpod, rfl⟩ := OpStep.takes_iff.mp htakes
      rw [hfresh hop htook pod hpod, if_pos htakes]
      rfl
    · rw [h key hpre, htakes]
      rfl

/-- **An exit is sent at every third listing in a row.** -/
theorem Counted.sends_iff (h : Counted tr st.pre.rt)
    (hs : (∃ statuses, WithListing st statuses) ∨ WithoutListing st) :
    st.Sends key ↔ st.listed.isSome ∧ 0 < missed key (st :: tr) ∧
      missed key (st :: tr) % containerdMissingConfirmations = 0 := by
  rcases hs with ⟨statuses, hs⟩ | hs
  · rw [hs.sends, hs.listed]
    cases hc : st.pre.rt.container key with
    | none => simp [missed, hs.listed, hc]
    | some id =>
      have hcount := h key (by rw [hc]; rfl)
      rw [missed_of_withListing hs hc, hcount]
      cases hrun : running statuses id with
      | true => simp [hrun]
      | false =>
        simp only [Option.some.injEq, exists_eq_left', hrun, isSome_some, true_and,
          Bool.false_eq_true, if_false, containerdMissingConfirmations]
        omega
  · rw [hs.listed]
    simp [hs.sends key]

/-- **In a run in which no count is left behind**, an exit is sent only when it is confirmed; and
whenever it is, exactly if none is missing again after that. -/
theorem debounce_iff {r : ProcessRuntime} (h : Operated cfg tr r) (hfresh : EachStep Fresh tr) :
    EachStep OnlyConfirmed tr ∧ (EachStep Prompt tr ↔ EachStep Heeded tr) := by
  have hall : Counted tr r ∧ EachStep OnlyConfirmed tr ∧
      (EachStep Prompt tr ↔ EachStep Heeded tr) := by
    induction tr generalizing r with
    | nil =>
      obtain rfl := h
      refine ⟨fun key hc => ?_, trivial, Iff.rfl⟩
      simp [ProcessRuntime.container, ProcessRuntime.new] at hc
    | cons st tr ih =>
      obtain ⟨hrun, rfl, hst⟩ := h
      obtain ⟨hcount, honly, hiff⟩ := ih hrun hfresh.2
      have hcases := OpStep.cases hst
      refine ⟨hcount.step hfresh.1 hcases, ⟨fun key hsend => ?_, honly⟩, and_congr ?_ hiff⟩
      · obtain ⟨hl, hpos, hmod⟩ := (hcount.sends_iff hcases).mp hsend
        refine ⟨hl, ?_⟩
        rw [containerdMissingConfirmations] at hmod ⊢
        omega
      · refine forall_congr' fun hl => forall_congr' fun key => forall_congr' fun hle => ?_
        rw [hcount.sends_iff hcases]
        have hpos : 0 < missed key (st :: tr) := lt_of_lt_of_le (by decide) hle
        simp [hl, hpos]
  exact hall.2

end

/-! ### A count that is left behind -/

/-- What an operation meets in a scene. -/
def Scene.watch (sc : Scene) : (c : AgentCmd) → World → Option (c.Answer × World)
  | .send ev, w => some ((), { w with queue := w.queue ++ [⟨ev, none⟩] })
  | c, w => answer c sc w

theorem Scene.watched_watch (sc : Scene) (c : AgentCmd) (w : World) (x : c.Answer) (w' : World)
    (h : sc.watch c w = some (x, w')) : watched sc.tasks c w x w' := by
  cases c with
  | send ev => cases h; rfl
  | containerd c =>
    cases c with
    | listTasks => cases h; exact ⟨rfl, rfl⟩
    | _ => exact answers_answer _ sc w x w' h
  | _ => exact answers_answer _ sc w x w' h

/-- The operations, each in its scene, one after another. -/
def operate (cfg : Config) : List (RuntimeOp × Scene) → List OpStep → World → Option (List OpStep)
  | [], tr, _ => some tr
  | (op, sc) :: ops, tr, w =>
    match (op.prog cfg).perform sc.watch w with
    | some (.ok took, w') => operate cfg ops (⟨op, sc.tasks, took, w, w'⟩ :: tr) w'
    | _ => none

theorem operated_of_operate {cfg : Config} :
    ∀ {ops : List (RuntimeOp × Scene)} {tr tr' : List OpStep}
    {w : World}, Operated cfg tr w.rt → operate cfg ops tr w = some tr' → ∃ r, Operated cfg tr' r
  | [], _, _, _, h, ho => by cases ho; exact ⟨_, h⟩
  | (op, sc) :: ops, tr, tr', w, h, ho => by
    rw [operate] at ho
    split at ho
    · next took w' hp =>
      have hrun := runs_of_perform (fun c s x s' => sc.watched_watch c s x s') hp
      have hstep : Operated cfg (⟨op, sc.tasks, took, w, w'⟩ :: tr) w'.rt := ⟨h, rfl, hrun⟩
      exact operated_of_operate hstep ho
    · cases ho

theorem exists_operated (cfg : Config) (ops : List (RuntimeOp × Scene)) {T : List OpStep → Prop}
    [DecidablePred T] (h : (operate cfg ops [] World.new).any fun tr => T tr) :
    ∃ tr r, Operated cfg tr r ∧ T tr := by
  obtain ⟨tr, htr, hT⟩ := (any_eq_true _ _).mp h
  have hnew : Operated cfg [] World.new.rt := rfl
  obtain ⟨r, hr⟩ := operated_of_operate hnew htr
  exact ⟨tr, r, hr, of_decide_eq_true hT⟩

instance (st : OpStep) (key : String) : Decidable (st.Sends key) :=
  inferInstanceAs (Decidable (∃ q ∈ _, _))

/-- The tasks that run while the container of the job is missing. -/
def jobMissing : Scene := { keys := [podKey jobPod] }

/-- The job is missing from two listings. -/
def missedTwiceOps : List (RuntimeOp × Scene) :=
  [(.start jobPod, {}), (.check, jobMissing), (.check, jobMissing)]

/-- A listing fails, and the third finds the job missing again. -/
theorem debounce_iff_job :
    ∃ tr r, Operated jobNode tr r ∧ EachStep Fresh tr ∧
      (∃ st ∈ tr.head?, st.Sends (podKey jobPod)) ∧
      EachStep OnlyConfirmed tr ∧ (EachStep Prompt tr ↔ EachStep Heeded tr) := by
  obtain ⟨tr, r, h, hfresh, hT⟩ := exists_operated jobNode
    (missedTwiceOps ++ [(.check, { tasks := .error "unavailable" }), (.check, jobMissing)])
    (T := fun tr => EachStep Fresh tr ∧ ∃ st ∈ tr.head?, st.Sends (podKey jobPod))
    (by decide +kernel)
  exact ⟨tr, r, h, hfresh, hT, debounce_iff h hfresh⟩

/-- **An exit after one listing, and none after four.**  The job is stopped and started again, and
its exit is sent when it is missing once.  If nobody acts on an exit, the listing after it is the
first of three. -/
theorem exit_after_one_listing :
    (∃ tr r, Operated jobNode tr r ∧
      ∃ st ∈ tr.head?, st.Sends (podKey jobPod) ∧ missed (podKey jobPod) tr = 1) ∧
    ∃ tr r, Operated jobNode tr r ∧
      ∃ st ∈ tr.head?, ¬ st.Sends (podKey jobPod) ∧ missed (podKey jobPod) tr = 4 := by
  constructor
  · exact exists_operated jobNode
      (missedTwiceOps ++ [(.stop (podKey jobPod), {}), (.start jobPod, {}), (.check, jobMissing)])
      (T := fun tr => ∃ st ∈ tr.head?, st.Sends (podKey jobPod) ∧ missed (podKey jobPod) tr = 1)
      (by decide +kernel)
  · exact exists_operated jobNode (missedTwiceOps ++ [(.check, jobMissing), (.check, jobMissing)])
      (T := fun tr => ∃ st ∈ tr.head?, ¬ st.Sends (podKey jobPod) ∧ missed (podKey jobPod) tr = 4)
      (by decide +kernel)

end NimbusCore.Agent
