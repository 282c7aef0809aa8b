import NimbusCore.Agent.Terminal

/-!
# Agent — workloads and what is tracked

Every process and WASM module that lives should be the one that is tracked under the key of its pod
(`NoneLeaked`), and whatever is tracked should run, or have an exit that the agent has still to see
(`NoneDead`).  The calls of the runtime and the rounds of the agent come in any order (`Call`), with
exits at any time.

An exit carries the key and not the workload, so an old one is taken for that of a new workload; a
start replaces what is tracked without ending it; a restart that fails leaves the old entry; and to
close the runtime of a WASM module does not interrupt the module, which lives on, untracked.

* `Drifts.fades`, `fades_of_answers`: exits, and the commands that neither track nor launch, leave
  what is tracked and every exit to be seen (`Fades`).
* `Sound`: the correspondence but for one key, with what it takes to keep it.  `Sound.launch`,
  `Sound.take`: a workload is launched, and an exit is taken.
-/

namespace NimbusCore.Agent

open Api EventLoop List ProcessRuntime

/-! ### Calls -/

/-- A round of the agent, or a call of its runtime. -/
inductive Call where
  | agent (e : AgentEvent)
  | start (pod : Pod)
  | restart (pod : Pod)
  | stop (key : String)

namespace Call

/-- The call can be made. -/
def Arrives : Call → World → World → Prop
  | .agent e, w, w' => Agent.Arrives e w w'
  | .start _, w, w' => w' = w
  | .restart _, w, w' => w' = w
  | .stop _, w, w' => w' = w

/-- What is called. -/
def body (cfg : Config) : Call → Act Bool
  | .agent e => round cfg e
  | .start pod => do
    let _ ← Agent.start cfg pod
    return true
  | .restart pod => do
    let _ ← Agent.restart cfg pod
    return true
  | .stop key => do
    Agent.stop key
    return true

end Call

/-- The runtime, called in any order. -/
def runtimeLoop (cfg : Config) : EventLoop Call AgentCmd AgentCmd.Answer World where
  arrives := Call.Arrives
  body := Call.body cfg
  answers := answers
  drifts := Drifts

/-! ### The correspondence -/

/-- The number of the workload that is tracked. -/
def TrackedProcess.number (tp : TrackedProcess) : Option Nat := tp.cmd.or tp.wasmRuntime

/-- The workload runs, or its exit is still to be seen. -/
def World.Awaits (w : World) (key : String) (i : Nat) : Prop :=
  (∃ x ∈ w.workloads, x.id = i ∧ x.key = key) ∨ ∃ q ∈ w.queue, q.origin = some i ∧ q.ev.key = key

/-- The workload lives: it runs, or it is a WASM module that was told to end and has not. -/
def Workload.Live (x : Workload) : Prop := x.stage = .running ∨ x.wasm = true ∧ x.stage = .told

instance (x : Workload) : Decidable x.Live := inferInstanceAs (Decidable (_ ∨ _))

/-- **Every workload that lives is the one that is tracked under its key.** -/
def NoneLeaked (w : World) : Prop :=
  ∀ x ∈ w.workloads, x.Live →
    ∃ tp, w.rt.procs.lookup x.key = some tp ∧ tp.number = some x.id

/-- **Every process or WASM module that is tracked runs**, or its exit is still to be seen. -/
def NoneDead (w : World) : Prop :=
  ∀ key tp, w.rt.procs.lookup key = some tp → tp.containerID = "" →
    ∃ i, tp.number = some i ∧ w.Awaits key i

/-- No workload of the key lives. -/
def World.Quiet (w : World) (key : String) : Prop :=
  ∀ x ∈ w.workloads, x.Live → x.key ≠ key

/-- The next exit is that of the workload that is tracked under its key, if any is. -/
def World.OwnExit (w : World) : Prop :=
  ∀ q ∈ w.queue.head?, ∀ tp ∈ w.rt.procs.lookup q.ev.key, tp.number = q.origin

/-- A process or a WASM module is started. -/
def Succeeds : (c : AgentCmd) → c.Answer → Prop
  | .os (.startCommand _ _), x | .os .newWasm, x => x.isOk = true
  | .os (.readFile _), x => x.isOk = true
  | _, _ => True

/-- A WASM module of that number has ended. -/
def World.Over (w : World) (i : Nat) : Prop :=
  ∀ x ∈ w.workloads, x.id = i → x.wasm = true → x.stage.unended = false

/-- What is told to end is not a WASM module that has not ended. -/
def EndsOver : AgentCmd → World → Prop
  | .os (.kill i), w | .os (.closeWasm i), w => w.Over i
  | _, _ => True

/-- **Exits come in order**: the exit that is taken is of the workload that is tracked; nothing is
started under the key of a workload that lives; what is started on an exit starts; and a WASM module
is closed only when it has ended. -/
def Orderly : Guard Call AgentCmd AgentCmd.Answer World where
  takes _ e w := match e with
    | .agent (.exit _) => w.OwnExit
    | .start pod | .restart pod => w.Quiet (podKey pod)
    | .agent .tick | .agent .done | .stop _ => True
  allows _ e c x w := EndsOver c w ∧ match e with
    | .agent (.exit _) => Succeeds c x
    | _ => True

/-! ### What fades -/

/-- The numbers of the workloads whose exits are to be seen. -/
def World.ids (w : World) : List Nat := w.workloads.map (·.id) ++ w.queue.filterMap (·.origin)

/-- Nothing is tracked or started; exits only come closer. -/
structure Fades (w w' : World) : Prop where
  procs : w'.rt.procs = w.rt.procs
  next : w'.next = w.next
  ids : w'.ids.Perm w.ids
  awaits : ∀ key i, w.Awaits key i → w'.Awaits key i
  live : ∀ x ∈ w'.workloads, x.Live → x ∈ w.workloads

theorem Fades.refl (w : World) : Fades w w := ⟨rfl, rfl, .refl _, fun _ _ h => h, fun _ h _ => h⟩

theorem Drifts.fades {w w' : World} (h : Drifts w w') : Fades w w' := by
  cases h with
  | @ends l₁ l₂ x e hw _ _ =>
    refine ⟨rfl, rfl, by simp [World.ids, hw], ?_, ?_⟩
    · rintro key i (⟨y, hy, hid, hkey⟩ | hq)
      · rw [hw, mem_append, mem_cons] at hy
        rcases hy with hy | rfl | hy
        · exact .inl ⟨y, mem_append_left _ hy, hid, hkey⟩
        · exact .inl ⟨_, mem_append_right _ mem_cons_self, hid, hkey⟩
        · exact .inl ⟨y, mem_append_right _ (mem_cons_of_mem _ hy), hid, hkey⟩
      · exact .inr hq
    · intro y hy hrun
      rw [hw]
      rcases mem_append.mp hy with hy | hy
      · exact mem_append_left _ hy
      · rcases mem_cons.mp hy with rfl | hy
        · simp [Workload.Live] at hrun
        · exact mem_append_right _ (mem_cons_of_mem _ hy)
  | @sends l₁ l₂ x code hw _ _ =>
    refine ⟨rfl, rfl, ?_, ?_, ?_⟩
    · refine perm_iff_count.mpr fun i => ?_
      simp only [World.ids, hw, map_append, map_cons, filterMap_append,
        filterMap_cons, filterMap_nil, count_append, count_cons,
        count_nil]
      omega
    · rintro key i (⟨y, hy, hid, hkey⟩ | ⟨q, hq, hi⟩)
      · rw [hw, mem_append, mem_cons] at hy
        rcases hy with hy | rfl | hy
        · exact .inl ⟨y, mem_append_left _ hy, hid, hkey⟩
        · exact .inr ⟨_, mem_append_right _ (mem_singleton_self _), by rw [hid], hkey⟩
        · exact .inl ⟨y, mem_append_right _ hy, hid, hkey⟩
      · exact .inr ⟨q, mem_append_left _ hq, hi⟩
    · intro y hy _
      rw [hw]
      rcases mem_append.mp hy with hy | hy
      · exact mem_append_left _ hy
      · exact mem_append_right _ (mem_cons_of_mem _ hy)

/-- What lives after a number was told to end is not of it, and was there. -/
theorem of_live_tell {w : World} {i : Nat} (hi : w.Over i) {x : Workload}
    (hx : x ∈ (w.tell i).workloads) (hrun : x.Live) : x.id ≠ i ∧ x ∈ w.workloads := by
  obtain ⟨y, hy, rfl⟩ := mem_map.mp hx
  split at hrun
  · next he =>
    have hover := hi y hy he
    rcases hrun with hrun | ⟨hwasm, hrun⟩
    · cases hs : y.stage <;> simp [Stage.tell, hs] at hrun
    · have hended := hover hwasm
      cases hs : y.stage <;> simp [Stage.tell, Stage.unended, hs] at hrun hended
  · next he => rw [if_neg he]; exact ⟨he, hy⟩

theorem fades_tell {w : World} {i : Nat} (hi : w.Over i) : Fades w (w.tell i) where
  procs := rfl
  next := rfl
  ids := by
    have : (w.tell i).workloads.map (·.id) = w.workloads.map (·.id) := by
      simp only [World.tell, map_map]
      refine map_congr_left fun x _ => ?_
      simp only [Function.comp]
      split <;> rfl
    simp only [World.ids, this]
    exact .refl _
  awaits := by
    rintro key j (⟨x, hx, hid, hkey⟩ | hq)
    · refine .inl ⟨_, mem_map_of_mem hx, ?_, ?_⟩
      · rw [← hid]; split <;> rfl
      · rw [← hkey]; split <;> rfl
    · exact .inr hq
  live x hx hrun := (of_live_tell hi hx hrun).2

/-- The command tracks, untracks, numbers, launches or tells to end. -/
def Alters : AgentCmd → Prop
  | .os (.startCommand _ _) | .os .newWasm | .os (.wait _ _) | .os (.runWasm _ _ _) => True
  | .os (.kill _) | .os (.closeWasm _) => True
  | .runtime (.replace _) | .runtime (.assign _) | .runtime (.countRestart _) => True
  | .runtime (.untrack _) => True
  | _ => False

/-- **Every other command fades.** -/
theorem fades_of_answers {c : AgentCmd} {x : c.Answer} {w w' : World} (hc : ¬ Alters c)
    (h : answers c w x w') : Fades w w' := by
  cases c with
  | api c | containerd c | reconcileServices | stopNodePorts =>
    rw [show w' = w from h]; exact .refl w
  | order keys => rw [h.2]; exact .refl w
  | send ev =>
    obtain ⟨-, rfl⟩ := h
    refine ⟨rfl, rfl, by simp [World.ids], ?_, fun x hx _ => hx⟩
    rintro key i (hx | ⟨q, hq, hi⟩)
    · exact .inl hx
    · exact .inr ⟨q, mem_append_left _ hq, hi⟩
  | runtime c =>
    cases c with
    | tracked key => rw [h.2]; exact .refl w
    | keys => rw [h.2]; exact .refl w
    | confirm statuses =>
      obtain ⟨order, -, -, rfl⟩ := h
      exact ⟨rfl, rfl, .refl _, fun _ _ h => h, fun _ h _ => h⟩
    | _ => exact absurd trivial hc
  | os c =>
    cases c with
    | openLog => obtain rfl := h; exact .refl _
    | ensureVolumeDir => obtain rfl := h; exact .refl _
    | readFile path => obtain rfl := h; exact .refl _
    | residentSet p => obtain rfl := h; exact .refl _
    | _ => exact absurd trivial hc

/-- What lasts while the world fades. -/
def Lasts (I : World → Prop) : Prop := ∀ w w', Fades w w' → I w → I w'

theorem Lasts.stable {cfg : Config} {I : World → Prop} (hI : Lasts I) :
    (runtimeLoop cfg).Stable I :=
  fun w w' hd => hI w w' hd.fades

theorem Lasts.and {I J : World → Prop} (hI : Lasts I) (hJ : Lasts J) : Lasts fun w => I w ∧ J w :=
  fun w w' hf h => ⟨hI w w' hf h.1, hJ w w' hf h.2⟩

theorem Lasts.or {I J : World → Prop} (hI : Lasts I) (hJ : Lasts J) : Lasts fun w => I w ∨ J w :=
  fun w w' hf h => h.imp (hI w w' hf) (hJ w w' hf)

/-- What is tracked lasts. -/
theorem lasts_procs (P : Dict String TrackedProcess → Prop) : Lasts fun w => P w.rt.procs := by
  intro w w' hf h
  rw [hf.procs]
  exact h

/-- What no workload does that lives. -/
theorem lasts_live (P : Workload → Prop) :
    Lasts fun w => ∀ x ∈ w.workloads, x.Live → P x :=
  fun _ _ hf h x hx hrun => h x (hf.live x hx hrun) hrun

theorem lasts_quiet (key : String) : Lasts fun w => w.Quiet key := lasts_live (·.key ≠ key)

/-! ### The invariant -/

/-- A pod that starts as a process or as a WASM module, if the operating system lets it. -/
def Startable (pod : Pod) : Prop :=
  (firstContainer pod).wasmModulePath ≠ "" ∨
    (firstContainer pod).image = "" ∧ (firstContainer pod).buildSource = none ∧
      (firstContainer pod).command ≠ []

/-- **The correspondence, but for one key**, with what it takes to keep it: numbers are used once,
and what is tracked as a process or a WASM module can be started as one. -/
structure Sound (K : Option String) (w : World) : Prop where
  nodup : w.ids.Nodup
  fresh : ∀ i ∈ w.ids, i < w.next
  recorded : ∀ x ∈ w.workloads, x.Live → some x.key ≠ K →
    ∃ tp, w.rt.procs.lookup x.key = some tp ∧ tp.number = some x.id
  alive : ∀ key tp, w.rt.procs.lookup key = some tp → some key ≠ K → tp.containerID = "" →
    ∃ i, tp.number = some i ∧ w.Awaits key i
  startable : ∀ key tp, w.rt.procs.lookup key = some tp → tp.containerID = "" → Startable tp.pod

theorem lasts_sound (K : Option String) : Lasts (Sound K) := fun w w' hf h =>
  { nodup := hf.ids.nodup_iff.mpr h.nodup
    fresh := by
      intro i hi
      rw [hf.next]
      exact h.fresh i (hf.ids.mem_iff.mp hi)
    recorded := by
      intro x hx hrun hK
      rw [hf.procs]
      exact h.recorded x (hf.live x hx hrun) hrun hK
    alive := by
      intro key tp hl hK hc
      rw [hf.procs] at hl
      obtain ⟨i, hi, ha⟩ := h.alive key tp hl hK hc
      exact ⟨i, hi, hf.awaits key i ha⟩
    startable := lasts_procs (fun m => ∀ key tp, m.lookup key = some tp → tp.containerID = "" →
      Startable tp.pod) w w' hf h.startable }

/-- The number is not in use. -/
def World.Unused (w : World) (i : Nat) : Prop := i < w.next ∧ i ∉ w.ids

theorem lasts_unused (i : Nat) : Lasts fun w => w.Unused i :=
  fun _ _ hf h => ⟨by rw [hf.next]; exact h.1, fun hi => h.2 (hf.ids.mem_iff.mp hi)⟩

section

variable {K : Option String} {w : World} {key : String}

/-- The correspondence holds but for any key. -/
theorem Sound.but (h : Sound none w) (K : Option String) : Sound K w where
  nodup := h.nodup
  fresh := h.fresh
  recorded x hx hrun _ := h.recorded x hx hrun (by simp)
  alive key tp hl _ hc := h.alive key tp hl (by simp) hc
  startable := h.startable

/-- **It holds for the key too**, if no workload of it lives and it is not tracked as one. -/
theorem Sound.close (h : Sound (some key) w) (hq : w.Quiet key)
    (hc : ∀ tp, w.rt.procs.lookup key = some tp → tp.containerID ≠ "") : Sound none w where
  nodup := h.nodup
  fresh := h.fresh
  recorded x hx hrun _ := h.recorded x hx hrun fun he => hq x hx hrun (Option.some.inj he)
  alive key' tp hl _ hc' := by
    by_cases hk : key' = key
    · subst hk
      exact absurd hc' (hc tp hl)
    · exact h.alive key' tp hl (fun he => hk (Option.some.inj he)) hc'
  startable := h.startable

/-- What is not tracked does not live. -/
theorem Sound.quiet (h : Sound none w) (hl : w.rt.procs.lookup key = none) : w.Quiet key := by
  intro x hx hrun hk
  obtain ⟨tp, htp, -⟩ := h.recorded x hx hrun (by simp)
  rw [hk, hl] at htp
  cases htp

/-- Only what is tracked under the key has changed. -/
theorem Sound.rt (h : Sound (some key) w) {r : ProcessRuntime}
    (hr : ∀ key', key' ≠ key → r.procs.lookup key' = w.rt.procs.lookup key')
    (hs : ∀ tp, r.procs.lookup key = some tp → tp.containerID = "" → Startable tp.pod) :
    Sound (some key) { w with rt := r } where
  nodup := h.nodup
  fresh := h.fresh
  recorded x hx hrun hK := by
    simp only [hr x.key fun he => hK (congrArg some he)]
    exact h.recorded x hx hrun hK
  alive key' tp hl hK hc := by
    simp only [hr key' fun he => hK (congrArg some he)] at hl
    exact h.alive key' tp hl hK hc
  startable key' tp hl hc := by
    by_cases hk : key' = key
    · subst hk
      exact hs tp hl hc
    · simp only [hr key' hk] at hl
      exact h.startable key' tp hl hc

/-- Counting a restart keeps the workload. -/
theorem Sound.countRestart (h : Sound K w) (key : String) :
    Sound K { w with rt := w.rt.countRestart key } := by
  -- an entry is the old one, but for the count
  have hold : ∀ key' tp, (w.rt.countRestart key).procs.lookup key' = some tp →
      ∃ tp₀, w.rt.procs.lookup key' = some tp₀ ∧ tp.number = tp₀.number ∧
        tp.containerID = tp₀.containerID ∧ tp.pod = tp₀.pod := by
    intro key' tp hl
    rw [lookup_countRestart, Option.map_eq_some_iff] at hl
    obtain ⟨tp₀, hl, rfl⟩ := hl
    exact ⟨tp₀, hl, by split <;> rfl, by split <;> rfl, by split <;> rfl⟩
  refine ⟨h.nodup, h.fresh, fun x hx hrun hK => ?_, fun key' tp hl hK hc => ?_,
    fun key' tp hl hc => ?_⟩
  · obtain ⟨tp, hl, hn⟩ := h.recorded x hx hrun hK
    refine ⟨if x.key = key then { tp with restarts := tp.restarts + 1 } else tp, ?_, ?_⟩
    · simp only [lookup_countRestart, hl, Option.map_some]
    · rw [← hn]
      split <;> rfl
  · obtain ⟨tp₀, hl₀, hn, hc₀, -⟩ := hold key' tp hl
    rw [hc₀] at hc
    rw [hn]
    exact h.alive key' tp₀ hl₀ hK hc
  · obtain ⟨tp₀, hl₀, -, hc₀, hp⟩ := hold key' tp hl
    rw [hc₀] at hc
    rw [hp]
    exact h.startable key' tp₀ hl₀ hc

/-- A new number. -/
theorem Sound.number (h : Sound K w) : Sound K { w with next := w.next + 1 } where
  nodup := h.nodup
  fresh i hi := Nat.lt_succ_of_lt (h.fresh i hi)
  recorded := h.recorded
  alive := h.alive
  startable := h.startable

theorem Sound.unused (h : Sound K w) : ({ w with next := w.next + 1 } : World).Unused w.next :=
  ⟨Nat.lt_succ_self _, fun hi => Nat.lt_irrefl _ (h.fresh _ hi)⟩

/-- **The workload that is tracked is launched.** -/
theorem Sound.launch (h : Sound (some key) w) (hq : w.Quiet key) {i : Nat} (hi : w.Unused i)
    {tp : TrackedProcess} (hl : w.rt.procs.lookup key = some tp) (hn : tp.number = some i)
    (wasm : Bool) : Sound none (w.launch ⟨i, key, wasm, .running⟩) := by
  have hids : (w.launch ⟨i, key, wasm, .running⟩).ids.Perm (i :: w.ids) := by
    refine perm_iff_count.mpr fun j => ?_
    simp only [World.ids, World.launch, map_append, map_cons, map_nil,
      count_append, count_cons, count_nil]
    omega
  refine ⟨hids.nodup_iff.mpr (nodup_cons.mpr ⟨hi.2, h.nodup⟩), ?_, ?_, ?_, h.startable⟩
  · intro j hj
    rcases mem_cons.mp (hids.mem_iff.mp hj) with rfl | hj
    · exact hi.1
    · exact h.fresh j hj
  · intro x hx hrun _
    rcases mem_append.mp hx with hx | hx
    · exact h.recorded x hx hrun fun he => hq x hx hrun (Option.some.inj he)
    · obtain rfl := mem_singleton.mp hx
      exact ⟨tp, hl, hn⟩
  · intro key' tp' hl' _ hc
    by_cases hk : key' = key
    · subst hk
      have he : tp' = tp := Option.some.inj (hl'.symm.trans hl)
      exact ⟨i, by rw [he, hn], .inl ⟨_, mem_append_right _ (mem_singleton_self _), rfl, rfl⟩⟩
    · obtain ⟨j, hj, ha⟩ := h.alive key' tp' hl' (fun he => hk (Option.some.inj he)) hc
      refine ⟨j, hj, ?_⟩
      rcases ha with ⟨x, hx, hx'⟩ | hq'
      · exact .inl ⟨x, mem_append_left _ hx, hx'⟩
      · exact .inr hq'

theorem Sound.at (h : Sound K w) (hK : K = none ∨ K = some key) : Sound (some key) w := by
  rcases hK with rfl | rfl
  · exact h.but _
  · exact h

theorem lookup_replace (r : ProcessRuntime) (tp : TrackedProcess) (key : String) :
    (r.replace tp).procs.lookup key =
      if key = podKey tp.pod then some { tp with restarts := r.restartsOf (podKey tp.pod) }
      else r.procs.lookup key :=
  lookup_assign ..

theorem Sound.replace {tp : TrackedProcess} (h : Sound (some (podKey tp.pod)) w)
    (hs : tp.containerID = "" → Startable tp.pod) :
    Sound (some (podKey tp.pod)) { w with rt := w.rt.replace tp } := by
  refine h.rt (fun key' hk => ?_) fun tp' hl hc => ?_
  · rw [lookup_replace, if_neg hk]
  · rw [lookup_replace, if_pos rfl] at hl
    cases hl
    exact hs hc

/-- A container is tracked. -/
theorem Sound.container (tp : TrackedProcess) {r : ProcessRuntime}
    (h : Sound (some (podKey tp.pod)) w) (hq : w.Quiet (podKey tp.pod)) (hc : tp.containerID ≠ "")
    (hr : ∀ key', key' ≠ podKey tp.pod → r.procs.lookup key' = w.rt.procs.lookup key')
    (hl : ∀ tp', r.procs.lookup (podKey tp.pod) = some tp' → tp'.containerID = tp.containerID) :
    Sound none { w with rt := r } := by
  refine Sound.close (h.rt hr fun tp' htp' hc' => ?_) hq fun tp' htp' => ?_
  · rw [hl tp' htp'] at hc'
    exact absurd hc' hc
  · rw [hl tp' htp']
    exact hc

/-- The exit that is taken leaves everything but its key, under which nothing lives. -/
theorem Sound.take (h : Sound none w) (hown : w.OwnExit) {q : Queued}
    {rest : List Queued} (hq : w.queue = q :: rest) :
    Sound (some q.ev.key) { w with queue := rest } ∧
      ({ w with queue := rest } : World).Quiet q.ev.key := by
  have hids : ({ w with queue := rest } : World).ids.Sublist w.ids := by
    simp only [World.ids, hq]
    refine List.Sublist.append_left ?_ _
    rw [filterMap_cons]
    split
    · exact .refl _
    · exact sublist_cons_self _ _
  refine ⟨⟨hids.nodup h.nodup, fun i hi => h.fresh i (hids.subset hi), fun x hx hrun _ =>
    h.recorded x hx hrun (by simp), fun key tp hl hK hc => ?_, h.startable⟩, ?_⟩
  · obtain ⟨i, hi, ha⟩ := h.alive key tp hl (by simp) hc
    refine ⟨i, hi, ha.imp_right ?_⟩
    rintro ⟨q', hq', hi', hk'⟩
    rw [hq, mem_cons] at hq'
    rcases hq' with rfl | hq'
    · exact absurd (congrArg some hk'.symm) hK
    · exact ⟨q', hq', hi', hk'⟩
  · -- what ran would be what is tracked, whose exit was taken
    intro x hx hrun hk
    obtain ⟨tp, hl, hn⟩ := h.recorded x hx hrun (by simp)
    rw [hk] at hl
    have horigin : q.origin = some x.id := by
      rw [← hn]
      exact (hown q (by simp [hq]) tp hl).symm
    have hdis := disjoint_of_nodup_append h.nodup
    refine hdis (mem_map_of_mem hx) ?_
    exact mem_filterMap.mpr ⟨q, by simp [hq], horigin⟩

end

end NimbusCore.Agent
