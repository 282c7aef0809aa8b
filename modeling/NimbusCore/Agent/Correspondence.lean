import NimbusCore.Agent.Workloads

/-!
# Agent — what the calls keep

A call of the runtime, or a round of the agent, is followed from its start to its end, with exits in
between.  A start keeps the correspondence, if nothing lives under its key (`post_start`); a stop
ends what is tracked (`post_stop`); and an exit is handled for its own workload (`post_handleExit`).

* `workloads_correspond`: what lives is what is tracked, between calls, if an exit is of the
  workload that is tracked, nothing is started under the key of a workload that lives, no restart on
  an exit fails, and a WASM module is closed only when it has ended (`Orderly`).
* `correspondence_fails`: otherwise something lives that is not tracked, or is tracked and gone.
-/

namespace NimbusCore.Agent

open Api EventLoop Prog ProcessRuntime

/-! ### What the calls keep -/

variable {w : World} {i : Nat} {tp : TrackedProcess}

section

variable {cfg : Config} {A : (c : AgentCmd) → c.Answer → World → Prop} {K : Option String}
  {s : World}
  {key : String} {pod : Pod}

/-- A part that fades. -/
theorem post_fading {α : Type} {I : World → Prop} (hI : Lasts I) (hs : I s)
    {p : Act α} (hp : p.Within (fun c => ¬ Alters c) fun _ => True) :
    p.Post ((runtimeLoop cfg).settle A) s fun _ w => I w :=
  post_within hI.stable hs hp fun _ _ w w' hc ha => hI w w' (fades_of_answers hc ha)

theorem not_alters_of_looks {c : AgentCmd} (h : Looks c) : ¬ Alters c := by
  rcases c with c | c | c | c | c | c | c | c <;> try exact id
  all_goals cases c <;> first | exact id | cases h

/-- Something can be started under the key. -/
theorem lasts_ready (K : Option String) (key : String) : Lasts fun w => Sound K w ∧ w.Quiet key :=
  (lasts_sound K).and (lasts_quiet key)

/-- What a start leaves. -/
def StartLeaves (K : Option String) : Except String Unit → World → Prop
  | .ok _, w => Sound none w
  | .error _, w => Sound K w

/-- If everything was as it should be. -/
theorem StartLeaves.sound {r : Except String Unit} (h : StartLeaves none r w) : Sound none w := by
  cases r with
  | error err => exact h
  | ok _ => exact h

/-- A workload is tracked and launched. -/
theorem post_launch (tp : TrackedProcess) {c : OsCmd} (hs : Sound (some (podKey tp.pod)) s)
    (hq : s.Quiet (podKey tp.pod)) (hi : s.Unused i) (hn : tp.number = some i)
    (hst : Startable tp.pod)
    (hc : ∀ w x w', osAnswers c w x w' → ∃ wasm, w' = w.launch ⟨i, podKey tp.pod, wasm, .running⟩) :
    (do
      let _ ← runtime (.replace tp)
      let _ ← os c
      return .ok () : Act (Except String Unit)).Post ((runtimeLoop cfg).settle A) s
        (StartLeaves K) := by
  have hready := (lasts_ready (some (podKey tp.pod)) (podKey tp.pod)).and (lasts_unused i)
  refine post_settle hready.stable ⟨⟨hs, hq⟩, hi⟩ ?_
  rintro w _ w₁ ⟨⟨hs, hq⟩, hi⟩ ha -
  obtain rfl : w₁ = { w with rt := w.rt.replace tp } := ha
  have htracked := lasts_procs fun m =>
    ∃ tp', m.lookup (podKey tp.pod) = some tp' ∧ tp'.number = some i
  refine post_settle (hready.and htracked).stable ⟨⟨⟨hs.replace fun _ => hst, hq⟩, hi⟩,
    { tp with restarts := w.rt.restartsOf (podKey tp.pod) }, ?_, hn⟩ ?_
  · rw [lookup_replace, if_pos rfl]
  · rintro w x w₂ ⟨⟨⟨hs, hq⟩, hi⟩, tp', hl, hn'⟩ ha -
    obtain ⟨wasm, rfl⟩ := hc w x w₂ ha
    exact post_pure (hs.launch hq hi hl hn' wasm)

theorem post_startProcess (hK : K = none ∨ K = some (podKey pod)) (hs : Sound K s)
    (hq : s.Quiet (podKey pod))
    (hkind : (firstContainer pod).image = "" ∧ (firstContainer pod).buildSource = none) :
    (startProcess pod).Post ((runtimeLoop cfg).settle A) s (StartLeaves K) := by
  rw [startProcess]
  split
  · exact post_pure hs
  · next hcmd =>
    refine post_settle (lasts_ready K (podKey pod)).stable ⟨hs, hq⟩ ?_
    rintro w x w₁ ⟨hs, hq⟩ ha -
    cases x with
    | error err =>
      obtain rfl : w₁ = w := ha
      exact post_pure hs
    | ok i =>
      obtain ⟨rfl, rfl⟩ : i = w.next ∧ w₁ = { w with next := w.next + 1 } := ha
      exact post_launch { pod := pod, cmd := some w.next } (hs.at hK).number hq
        hs.unused rfl (.inr ⟨hkind.1, hkind.2, hcmd⟩) fun w x w' ha => ⟨false, ha⟩

theorem post_startWASM (hK : K = none ∨ K = some (podKey pod)) (hs : Sound K s)
    (hq : s.Quiet (podKey pod)) (hkind : (firstContainer pod).wasmModulePath ≠ "")
    (modulePath : String) :
    (startWASM pod modulePath).Post ((runtimeLoop cfg).settle A) s (StartLeaves K) := by
  refine post_settle (lasts_ready K (podKey pod)).stable ⟨hs, hq⟩ ?_
  rintro w x w₁ ⟨hs, hq⟩ ha -
  obtain rfl : w₁ = w := ha
  rcases x with err | wasmBytes
  · exact post_pure hs
  refine post_settle (lasts_ready K (podKey pod)).stable ⟨hs, hq⟩ ?_
  rintro w x w₁ ⟨hs, hq⟩ ha -
  cases x with
  | error err =>
    obtain rfl : w₁ = w := ha
    exact post_pure hs
  | ok i =>
    obtain ⟨rfl, rfl⟩ : i = w.next ∧ w₁ = { w with next := w.next + 1 } := ha
    exact post_launch { pod := pod, wasmRuntime := some w.next } (hs.at hK).number hq
      hs.unused rfl (.inl hkind) fun w x w' ha => ⟨true, ha⟩

theorem post_startContainerd (hK : K = none ∨ K = some (podKey pod)) (hs : Sound K s)
    (hq : s.Quiet (podKey pod)) :
    (startContainerd cfg pod).Post ((runtimeLoop cfg).settle A) s (StartLeaves K) := by
  have hready := lasts_ready K (podKey pod)
  have hL : ∀ c, Looks c → ¬ Alters c := fun c => not_alters_of_looks
  refine post_settle hready.stable ⟨hs, hq⟩ ?_
  rintro w _ w₁ hw ha -
  obtain rfl : w₁ = w := ha
  refine Post.bind (post_fading hready hw (within_image hL cfg _ _)) fun x w hw => ?_
  rcases x with err | image
  · exact post_pure hw.1
  refine Post.bind (post_fading hready hw (within_logPath (hL _ trivial))) fun x w hw => ?_
  rcases x with err | logPath
  · exact post_pure hw.1
  refine Post.bind (post_fading hready hw (within_podMounts fun _ => hL _ trivial))
    fun x w hw => ?_
  rcases x with err | mounts
  · exact post_pure hw.1
  refine post_settle hready.stable hw ?_
  rintro w x w₁ hw ha -
  obtain rfl : w₁ = w := ha
  rcases x with err | _
  · exact post_pure hw.1
  refine post_settle hready.stable hw ?_
  rintro w _ w₁ ⟨hs, hq⟩ ha -
  obtain rfl : w₁ = { w with rt := _ } := ha
  refine post_pure (Sound.container { pod := pod, containerID := _ }
    (hs.at hK) hq (containerName_ne pod) (fun key' hk => ?_) fun tp' hl => ?_)
  · rw [lookup_replace, if_neg hk]
  · rw [lookup_replace, if_pos rfl] at hl
    cases hl
    rfl

/-- **A start** leaves everything as it should be; if it fails, as it was. -/
theorem post_start (hK : K = none ∨ K = some (podKey pod)) (hs : Sound K s)
    (hq : s.Quiet (podKey pod)) :
    (start cfg pod).Post ((runtimeLoop cfg).settle A) s (StartLeaves K) := by
  rw [start]
  split
  · next hw => exact post_startWASM hK hs hq hw _
  · split
    · exact post_startContainerd hK hs hq
    · next hc =>
      refine post_startProcess hK hs hq ?_
      simpa only [not_or, not_not] using hc

/-- A start that can succeed, and whose parts do. -/
theorem start_succeeds (hA : ∀ c x t, A c x t → Succeeds c x) (hp : Startable pod) :
    (start cfg pod).Post ((runtimeLoop cfg).settle A) s fun r _ => r = .ok () := by
  rw [start]
  split
  · refine post_ask_bind fun x w hH => ?_
    obtain ⟨t, -, -, hx⟩ := hH
    rcases x with err | wasmBytes
    · cases hA _ _ _ hx
    refine post_ask_bind fun x w hH => ?_
    obtain ⟨t, -, -, hx⟩ := hH
    rcases x with err | i
    · cases hA _ _ _ hx
    refine post_ask_bind fun _ _ _ => post_ask_bind fun _ _ _ => ?_
    exact post_pure rfl
  · next hw =>
    obtain ⟨himg, hsrc, hcmd⟩ := hp.resolve_left hw
    rw [if_neg (by simp [himg, hsrc]), startProcess, if_neg hcmd]
    refine post_ask_bind fun x w hH => ?_
    obtain ⟨t, -, -, hx⟩ := hH
    rcases x with err | i
    · cases hA _ _ _ hx
    refine post_ask_bind fun _ _ _ => post_ask_bind fun _ _ _ => ?_
    exact post_pure rfl

theorem post_restart (hK : K = none ∨ K = some (podKey pod)) (hs : Sound K s)
    (hq : s.Quiet (podKey pod)) :
    (restart cfg pod).Post ((runtimeLoop cfg).settle A) s (StartLeaves K) := by
  refine post_settle (lasts_ready K (podKey pod)).stable ⟨hs, hq⟩ ?_
  rintro w _ w₁ ⟨hs, hq⟩ ha -
  obtain rfl : w₁ = { w with rt := w.rt.countRestart (podKey pod) } := ha
  exact post_start hK (hs.countRestart _) hq

theorem post_adoptIfRunning (hs : Sound none s) (hq : s.Quiet (podKey pod)) :
    (adoptIfRunning pod).Post ((runtimeLoop cfg).settle A) s fun b w =>
      Sound none w ∧ (b = false → w.Quiet (podKey pod)) := by
  rw [adoptIfRunning]
  split
  · exact post_pure ⟨hs, fun _ => hq⟩
  · refine post_settle (lasts_ready none (podKey pod)).stable ⟨hs, hq⟩ ?_
    rintro w x w₁ ⟨hs, hq⟩ ha -
    obtain rfl : w₁ = w := ha
    rcases x with err | statuses
    · exact post_pure ⟨hs, fun _ => hq⟩
    simp only
    split
    · refine post_settle (lasts_ready none (podKey pod)).stable ⟨hs, hq⟩ ?_
      rintro w _ w₁ ⟨hs, hq⟩ ha -
      obtain rfl : w₁ = { w with rt := _ } := ha
      refine post_pure ⟨Sound.container { pod := pod, containerID := _ } (hs.but _) hq
        (containerName_ne pod) (fun key' hk => ?_) fun tp' hl => ?_, fun h => by cases h⟩
      · rw [lookup_assign, if_neg hk]
      · rw [lookup_assign, if_pos rfl] at hl
        cases hl
        rfl
    · exact post_pure ⟨hs, fun _ => hq⟩

/-- Nothing is tracked under the key, and what lives under it has the number `n`. -/
structure Leaving (key : String) (n : Option Nat) (w : World) : Prop where
  sound : Sound (some key) w
  untracked : w.rt.procs.lookup key = none
  only : ∀ x ∈ w.workloads, x.Live → x.key = key → n = some x.id

theorem lasts_leaving (key : String) (n : Option Nat) : Lasts (Leaving key n) := fun w w' hf h =>
  ⟨lasts_sound _ w w' hf h.sound, lasts_procs (·.lookup key = none) w w' hf h.untracked,
    lasts_live (fun x => x.key = key → n = some x.id) w w' hf h.only⟩

theorem Leaving.quiet (h : Leaving key none w) : Sound none w := by
  refine h.sound.close (fun x hx hrun hk => by cases h.only x hx hrun hk) fun tp hl => ?_
  rw [h.untracked] at hl
  cases hl

/-- It is told to end. -/
theorem Leaving.tell (hi : w.Over i) (h : Leaving key (some i) w) :
    Leaving key none (w.tell i) := by
  have hf := lasts_leaving _ _ w _ (fades_tell hi) h
  refine ⟨hf.sound, hf.untracked, fun x hx hrun hk => ?_⟩
  exact absurd (Option.some.inj (hf.only x hx hrun hk)).symm (of_live_tell hi hx hrun).1

theorem post_endWorkload (hE : ∀ c x t, A c x t → EndsOver c t) (h : Leaving key tp.number s) :
    (endWorkload tp).Post ((runtimeLoop cfg).settle A) s fun _ w => Sound none w := by
  refine Post.bind (Φ := fun _ w => Leaving key tp.number w) ?_ fun _ w hw => ?_
  · refine post_fading (lasts_leaving _ _) h ?_
    rw [endContainer]
    split
    · trivial
    · exact within_ask.mpr id
  · -- what is left after the command was killed is the WASM runtime
    refine Post.bind (Φ := fun _ w => Leaving key tp.wasmRuntime w ∨ Leaving key none w) ?_
      fun _ w hw => ?_
    · rw [endCommand]
      split
      · next hc =>
        rw [TrackedProcess.number, hc, Option.none_or] at hw
        exact post_pure (.inl hw)
      · next i hc =>
        rw [TrackedProcess.number, hc, Option.some_or] at hw
        refine post_settle_ask (lasts_leaving _ _).stable hw ?_
        rintro w x w₁ hw ha hx
        obtain rfl : w₁ = w.tell i := ha
        exact .inr (hw.tell (hE _ x w hx))
    · rw [endWASM]
      split
      · next hc =>
        rw [hc, or_self] at hw
        exact post_pure hw.quiet
      · next i hc =>
        rw [hc] at hw
        refine post_settle_ask
          ((lasts_leaving key (some i)).or (lasts_leaving key none)).stable hw ?_
        rintro w x w₁ hw ha hx
        obtain rfl : w₁ = w.tell i := ha
        have hover : w.Over i := hE _ x w hx
        rcases hw with hw | hw
        · exact (hw.tell hover).quiet
        · exact (lasts_leaving _ _ w _ (fades_tell hover) hw).quiet

/-- What lives under the key is what is tracked under it. -/
def World.Mine (w : World) (key : String) : Prop :=
  ∀ x ∈ w.workloads, x.Live → x.key = key →
    ∃ tp, w.rt.procs.lookup key = some tp ∧ tp.number = some x.id

theorem lasts_mine (key : String) : Lasts fun w => w.Mine key := by
  intro w w' hf h x hx hrun hk
  rw [hf.procs]
  exact h x (hf.live x hx hrun) hrun hk

theorem Sound.mine (h : Sound none w) (key : String) : w.Mine key := by
  rintro x hx hrun rfl
  exact h.recorded x hx hrun (by simp)

/-- **A stop** ends what is tracked under the key. -/
theorem post_stop (hE : ∀ c x t, A c x t → EndsOver c t) (hs : Sound (some key) s)
    (hm : s.Mine key) :
    (stop key).Post ((runtimeLoop cfg).settle A) s fun _ w => Sound none w := by
  refine post_settle ((lasts_sound _).and (lasts_mine key)).stable ⟨hs, hm⟩ ?_
  rintro w tp w₁ ⟨hs, hm⟩ ha -
  obtain ⟨rfl, rfl⟩ : tp = w.rt.procs.lookup key ∧ w₁ = { w with rt := w.rt.untrack key } := ha
  have hnone : (w.rt.untrack key).procs.lookup key = none := by
    rw [lookup_untrack, if_pos rfl]
  have hsound : Sound (some key) { w with rt := w.rt.untrack key } := by
    refine hs.rt (fun key' hk => ?_) fun tp hl => ?_
    · rw [lookup_untrack, if_neg hk]
    · rw [hnone] at hl
      cases hl
  cases hl : w.rt.procs.lookup key with
  | none =>
    refine post_pure (Leaving.quiet ⟨hsound, hnone, fun x hx hrun hk => ?_⟩)
    obtain ⟨tp, htp, -⟩ := hm x hx hrun hk
    rw [hl] at htp
    cases htp
  | some tp =>
    refine post_endWorkload hE ⟨hsound, hnone, fun x hx hrun hk => ?_⟩
    obtain ⟨tp', htp', hn⟩ := hm x hx hrun hk
    rw [hl] at htp'
    cases htp'
    exact hn

theorem post_stopLoop (hE : ∀ c x t, A c x t → EndsOver c t) :
    ∀ {keys : List String} {s : World}, Sound none s →
    (stopLoop keys).Post ((runtimeLoop cfg).settle A) s fun _ w => Sound none w
  | [], _, hs => post_pure hs
  | _ :: _, _, hs =>
    Post.bind (post_stop hE (hs.but _) (hs.mine _)) fun _ _ hw => post_stopLoop hE hw

theorem post_dropLoop (hE : ∀ c x t, A c x t → EndsOver c t) (desired : Dict String Pod) :
    ∀ {keys : List String} {s : World}, Sound none s →
    (dropLoop desired keys).Post ((runtimeLoop cfg).settle A) s fun _ w => Sound none w
  | [], _, hs => post_pure hs
  | key :: keys, _, hs => by
    rw [dropLoop]
    split
    · exact post_dropLoop hE desired hs
    · exact Post.bind (post_stop hE (hs.but _) (hs.mine _)) fun _ _ hw =>
        post_dropLoop hE desired hw

theorem post_startLoop : ∀ {entries : List (String × Pod)} {s : World},
    (∀ e ∈ entries, podKey e.2 = e.1) → Sound none s →
      (startLoop cfg entries).Post ((runtimeLoop cfg).settle A) s fun _ w => Sound none w
  | [], _, _, hs => post_pure hs
  | (key, pod) :: entries, s, hkeys, hs => by
    obtain ⟨hkey, hkeys⟩ := List.forall_mem_cons.mp hkeys
    have hsound := lasts_sound none
    refine Post.bind (Φ := fun b w => Sound none w ∧ (b = false → w.Quiet (podKey pod))) ?_
      fun b w hw => ?_
    · refine post_settle hsound.stable hs ?_
      rintro w tp w₁ hw ha -
      obtain ⟨rfl, rfl⟩ : tp = w.rt.procs.lookup key ∧ w₁ = w := ha
      refine post_pure ⟨hw, fun hb => hw.quiet ?_⟩
      rw [hkey]
      exact Option.isNone_iff_eq_none.mp (by simpa using hb)
    · cases b with
      | true => exact post_startLoop hkeys hw.1
      | false =>
        refine Post.bind (post_adoptIfRunning hw.1 (hw.2 rfl)) fun b w hw => ?_
        cases b with
        | true => exact post_startLoop hkeys hw.1
        | false =>
          refine Post.bind (Φ := fun _ w => Sound none w) ?_ fun _ w hw =>
            post_startLoop hkeys hw
          refine Post.bind (post_start (.inl rfl) hw.1 (hw.2 rfl)) fun r w hw => ?_
          cases r with
          | error err | ok _ =>
            exact post_fading hsound hw (within_reportStatus (fun _ => id) ..)

theorem post_reconcile (hE : ∀ c x t, A c x t → EndsOver c t) (hs : Sound none s) :
    (reconcile cfg).Post ((runtimeLoop cfg).settle A) s fun _ w => Sound none w := by
  have hsound := lasts_sound none
  have hL : ∀ c, Looks c → ¬ Alters c := fun c => not_alters_of_looks
  refine post_settle hsound.stable hs ?_
  rintro w x w₁ hw ha -
  obtain rfl : w₁ = w := ha
  rcases x with err | pods
  · exact post_pure hw
  refine Post.bind (post_fading hsound hw
    (within_checkContainerdExits hL (fun _ => id) fun _ => id)) fun _ w hw => ?_
  refine Post.bind (post_fading hsound hw (within_reconcileOrphanContainers hL _))
    fun _ w hw => ?_
  refine Post.bind (post_fading hsound hw (within_ask.mpr (hL _ trivial)))
    fun keys w hw => ?_
  refine Post.bind (post_startLoop (fun e he => ?_) hw) fun _ w hw => ?_
  · exact (of_lookup_desiredPods (Finmap.mem_range.mp he).2).2.2
  refine Post.bind (post_fading hsound hw (within_ask.mpr (hL _ trivial)))
    fun keys w hw => ?_
  refine Post.bind (post_dropLoop hE _ hw) fun _ w hw => ?_
  refine Post.bind (post_fading hsound hw (within_ask.mpr (hL _ trivial)))
    fun keys w hw => ?_
  exact post_fading hsound hw (within_reportLoop hL (fun _ => id) keys)

/-- `stillRunning` is about containers. -/
theorem post_stillRunning {I : World → Prop} (hI : Lasts I) (hs : I s) :
    (stillRunning key).Post ((runtimeLoop cfg).settle A) s fun b w => I w ∧
      (b = true → ∃ tp, w.rt.procs.lookup key = some tp ∧ tp.containerID ≠ "") := by
  refine post_settle hI.stable hs ?_
  rintro w tp w₁ hw ha -
  obtain ⟨rfl, rfl⟩ : tp = w.rt.procs.lookup key ∧ w₁ = w := ha
  cases hl : w₁.rt.procs.lookup key with
  | none => exact post_pure ⟨hw, fun h => by cases h⟩
  | some tp =>
    simp only
    split
    · exact post_pure ⟨hw, fun h => by cases h⟩
    · next hc =>
      refine post_settle (hI.and (lasts_procs (·.lookup key = some tp))).stable ⟨hw, hl⟩ ?_
      rintro w x w₁ ⟨hw, hl⟩ ha -
      obtain rfl : w₁ = w := ha
      cases x with
      | error err => exact post_pure ⟨hw, fun h => by cases h⟩
      | ok statuses => exact post_pure ⟨hw, fun _ => ⟨tp, hl, hc⟩⟩

/-- An exit of what is tracked is handled. -/
structure Exited (key : String) (tp : TrackedProcess) (w : World) : Prop where
  sound : Sound (some key) w
  quiet : w.Quiet key
  tracked : w.rt.procs.lookup key = some tp

theorem lasts_exited (key : String) (tp : TrackedProcess) :
    Lasts (Exited key tp) := fun w w' hf h =>
  ⟨lasts_sound _ w w' hf h.sound, lasts_quiet key w w' hf h.quiet,
    lasts_procs (·.lookup key = some tp) w w' hf h.tracked⟩

/-- Containers are not concerned. -/
theorem Exited.close (h : Exited key tp w) (hc : tp.containerID ≠ "") : Sound none w := by
  refine h.sound.close h.quiet fun tp' hl => ?_
  rw [h.tracked] at hl
  cases hl
  exact hc

/-- **A restart on an exit**, which does not fail. -/
theorem Exited.post_restart (hA : ∀ c x t, A c x t → Succeeds c x) (h : Exited key tp s) :
    (restart cfg tp.pod).Post ((runtimeLoop cfg).settle A) s fun _ w => Sound none w := by
  have hkey : podKey tp.pod = key := s.rt.keyed key tp h.tracked
  by_cases hc : tp.containerID = ""
  · have hok : (restart cfg tp.pod).Post ((runtimeLoop cfg).settle A) s fun r _ => r = .ok () :=
      post_ask_bind fun _ _ _ => start_succeeds hA (h.sound.startable key tp h.tracked hc)
    intro r w hr
    have hleaves := Agent.post_restart (.inr (by rw [hkey])) h.sound (hkey ▸ h.quiet) r w hr
    rw [hok r w hr] at hleaves
    exact hleaves
  · refine Post.mono (Agent.post_restart (.inl rfl) (h.close hc) (hkey ▸ h.quiet)) fun r w hw => ?_
    exact hw.sound

/-- **An exit is handled** for the workload that has exited. -/
theorem post_handleExit (hE : ∀ c x t, A c x t → EndsOver c t)
    (hA : ∀ c x t, A c x t → Succeeds c x) {ev : ExitEvent} (hs : Sound (some ev.key) s)
    (hq : s.Quiet ev.key) :
    (handleExit cfg ev).Post ((runtimeLoop cfg).settle A) s fun _ w => Sound none w := by
  have hsound := lasts_sound none
  have hL : ∀ c, Looks c → ¬ Alters c := fun c => not_alters_of_looks
  refine Post.bind (Φ := fun pod w => pod.elim (Sound none w)
    fun pod => ∃ tp, tp.pod = pod ∧ Exited ev.key tp w) ?_ fun pod w hw => ?_
  · refine post_settle (lasts_ready _ ev.key).stable ⟨hs, hq⟩ ?_
    rintro w tp w₁ ⟨hs, hq⟩ ha -
    obtain ⟨rfl, rfl⟩ : tp = w.rt.procs.lookup ev.key ∧ w₁ = w := ha
    cases hl : w₁.rt.procs.lookup ev.key with
    | none => exact post_pure (hs.close hq fun tp h => by rw [hl] at h; cases h)
    | some tp => exact post_pure ⟨tp, rfl, hs, hq, hl⟩
  · rcases pod with _ | pod
    · exact post_pure hw
    obtain ⟨tp, rfl, hw⟩ := hw
    refine Post.bind (post_stillRunning (lasts_exited _ _) hw) fun b w hw => ?_
    cases b with
    | true =>
      obtain ⟨tp', hl, hc⟩ := hw.2 rfl
      rw [hw.1.tracked] at hl
      cases hl
      exact post_pure (hw.1.close hc)
    | false =>
      simp only [onExit]
      split
      · refine Post.bind (hw.1.post_restart hA) fun r w hw => ?_
        cases r with
        | error err | ok _ =>
          exact post_fading hsound hw (Within.bind (within_restartCount hL ev.key)
            fun _ => within_reportStatus (fun _ => id) _ _ _ _ _)
      · have hmine : w.Mine ev.key := fun x hx hrun hk => absurd hk (hw.1.quiet x hx hrun)
        refine Post.bind (post_stop hE hw.1.sound hmine) fun _ w hw => ?_
        exact post_fading hsound hw (within_reportStatus (fun _ => id) ..)

end

/-! ### The runs -/

/-- What is answered on a call. -/
def answersOn (e : Call) (c : AgentCmd) (x : c.Answer) (w : World) : Prop :=
  Orderly.allows [] e c x w

theorem sound_new : Sound none World.new where
  nodup := List.nodup_nil
  fresh i hi := by cases hi
  recorded x hx := by cases hx
  alive key tp hl := by simp [World.new, ProcessRuntime.new] at hl
  startable key tp hl := by simp [World.new, ProcessRuntime.new] at hl

/-- **One call.** -/
theorem post_call {cfg : Config} {tr : List (Label Call AgentCmd AgentCmd.Answer)} {e : Call}
    {w₁ : World} (hw : Sound none w) (ha : e.Arrives w w₁) (hg : Orderly.takes tr e w) :
    (e.body cfg).Post ((runtimeLoop cfg).settle (answersOn e)) w₁ fun _ w' => Sound none w' := by
  have hsound := lasts_sound none
  have hE : ∀ c x t, answersOn e c x t → EndsOver c t := fun c x t h => h.1
  cases e with
  | start pod =>
    obtain rfl : w₁ = w := ha
    exact Post.bind (post_start (.inl rfl) hw hg) fun r w hw => post_pure hw.sound
  | restart pod =>
    obtain rfl : w₁ = w := ha
    exact Post.bind (post_restart (.inl rfl) hw hg) fun r w hw => post_pure hw.sound
  | stop key =>
    obtain rfl : w₁ = w := ha
    exact Post.bind (post_stop hE (hw.but _) (hw.mine _)) fun _ w hw => post_pure hw
  | agent e =>
    cases e with
    | tick =>
      obtain rfl : w₁ = w := ha
      refine Post.bind (post_reconcile hE hw) fun _ w hw => ?_
      exact post_fading hsound hw (within_ask_bind.mpr ⟨id, fun _ => trivial⟩)
    | done =>
      obtain rfl : w₁ = w := ha
      refine Post.bind (Φ := fun _ w => Sound none w) ?_ fun _ w hw => ?_
      · refine Post.bind (post_fading hsound hw (within_ask.mpr id)) fun keys w hw => ?_
        exact post_stopLoop hE hw
      · exact post_fading hsound hw (within_ask_bind.mpr ⟨id, fun _ => trivial⟩)
    | exit ev =>
      obtain ⟨q, rest, hq, rfl, rfl⟩ := ha
      obtain ⟨hs, hquiet⟩ := hw.take hg hq
      exact Post.bind (post_handleExit hE (fun c x t h => h.2) hs hquiet) fun _ w hw =>
        post_pure hw

/-- **Workloads and what is tracked correspond** between calls, in any order of calls and exits in
which the exit that is taken is of the workload that is tracked, nothing is started under the key of
a workload that lives, no restart on an exit fails, and a WASM module is closed only when it has
ended. -/
theorem workloads_correspond {cfg : Config} {tr : List (Label Call AgentCmd AgentCmd.Answer)}
    {m : Mode Call AgentCmd AgentCmd.Answer} {t : World}
    (h : (runtimeLoop cfg).Reaches Orderly .new tr m t) (hm : ∀ e p, m ≠ .busy e p) :
    NoneLeaked t ∧ NoneDead t := by
  have hsettles := h.settled (A := answersOn) (I := Sound none) sound_new (fun _ _ _ _ _ h => h)
    (lasts_sound none).stable fun tr e w w₁ hw ha hg => post_call hw ha hg
  have hs : Sound none t := by
    cases m with
    | idle => exact hsettles
    | ended => exact hsettles
    | busy e p => exact absurd rfl (hm e p)
  exact ⟨fun x hx hrun => hs.recorded x hx hrun (by simp),
    fun key tp hl hc => hs.alive key tp hl (by simp) hc⟩

/-! ### Exits out of order -/

instance (w : World) : Decidable w.OwnExit :=
  inferInstanceAs (Decidable (∀ q ∈ w.queue.head?, ∀ tp ∈ w.rt.procs.lookup q.ev.key, _))

instance (w : World) (key : String) : Decidable (w.Quiet key) :=
  inferInstanceAs (Decidable (∀ x ∈ w.workloads, _))

instance (w : World) (key : String) (i : Nat) : Decidable (w.Awaits key i) :=
  inferInstanceAs (Decidable (_ ∨ _))

instance decidableSucceeds : (c : AgentCmd) → (x : c.Answer) → Decidable (Succeeds c x)
  | .os (.startCommand _ _), x => inferInstanceAs (Decidable (x.isOk = true))
  | .os .newWasm, x => inferInstanceAs (Decidable (x.isOk = true))
  | .os (.readFile _), x => inferInstanceAs (Decidable (x.isOk = true))
  | .os (.openLog ..), _ | .os (.ensureVolumeDir ..), _ | .os (.wait _ _), _ => isTrue trivial
  | .os (.runWasm _ _ _), _ | .os (.kill _), _ | .os (.closeWasm _), _ => isTrue trivial
  | .os (.residentSet _), _ | .api _, _ | .containerd _, _ | .runtime _, _ => isTrue trivial
  | .send _, _ | .order _, _ | .reconcileServices, _ | .stopNodePorts, _ => isTrue trivial

instance (w : World) (i : Nat) : Decidable (w.Over i) :=
  inferInstanceAs (Decidable (∀ x ∈ w.workloads, _))

instance decidableEndsOver (w : World) : (c : AgentCmd) → Decidable (EndsOver c w)
  | .os (.kill i) | .os (.closeWasm i) => inferInstanceAs (Decidable (w.Over i))
  | .os (.startCommand _ _) | .os .newWasm | .os (.readFile _) | .os (.openLog ..) => isTrue trivial
  | .os (.ensureVolumeDir ..) | .os (.wait _ _) | .os (.runWasm _ _ _) => isTrue trivial
  | .os (.residentSet _) | .api _ | .containerd _ | .runtime _ => isTrue trivial
  | .send _ | .order _ | .reconcileServices | .stopNodePorts => isTrue trivial

instance : DecidableGuard Orderly where
  takes _ e w := match e with
    | .agent (.exit _) => inferInstanceAs (Decidable w.OwnExit)
    | .start pod => inferInstanceAs (Decidable (w.Quiet (podKey pod)))
    | .restart pod => inferInstanceAs (Decidable (w.Quiet (podKey pod)))
    | .agent .tick | .agent .done | .stop _ => isTrue trivial
  allows _ e c x w := match e with
    | .agent (.exit _) => @instDecidableAnd _ _ (decidableEndsOver w c) (decidableSucceeds c x)
    | .agent .tick | .agent .done | .start _ | .restart _ | .stop _ =>
      @instDecidableAnd _ _ (decidableEndsOver w c) (isTrue trivial)

/-- The call can be made. -/
def Call.arrive : Call → World → Option World
  | .agent e, w => Agent.arrive e w
  | .start _, w | .restart _, w | .stop _, w => some w

theorem Call.arrives_arrive (e : Call) (w w' : World) (h : e.arrive w = some w') :
    e.Arrives w w' := by
  cases e with
  | agent e => exact Agent.arrives_arrive e w w' h
  | start pod => cases h; rfl
  | restart pod => cases h; rfl
  | stop key => cases h; rfl

/-- The runtime among computed answers. -/
def runtimeResolver (cfg : Config) : Resolver (runtimeLoop cfg) Scene Happens where
  arrive := Call.arrive
  answer := Scene.answer
  drift := Happens.drift
  arrives := Call.arrives_arrive
  answers := Scene.answers_answer
  drifts := Happens.drifts

/-- A workload lives that is not the one that is tracked. -/
def leaked (w : World) : Option Workload :=
  w.workloads.find? fun x => x.Live ∧
    (w.rt.procs.lookup x.key).bind TrackedProcess.number ≠ some x.id

theorem not_noneLeaked (h : (leaked w).isSome) : ¬ NoneLeaked w := by
  intro hn
  obtain ⟨x, hx⟩ := Option.isSome_iff_exists.mp h
  have hfound := List.find?_some hx
  simp only [decide_eq_true_eq] at hfound
  obtain ⟨hrun, hne⟩ := hfound
  obtain ⟨tp, hl, hnum⟩ := hn x (List.mem_of_find?_eq_some hx) hrun
  exact hne (by rw [hl, Option.bind_some, hnum])

/-- What is tracked under the key neither runs nor has an exit to be seen. -/
def deadUnder (w : World) (key : String) : Bool :=
  (w.rt.procs.lookup key).any fun tp => tp.containerID = "" ∧
    ¬ tp.number.any fun i => w.Awaits key i

theorem not_noneDead {key : String} (h : deadUnder w key = true) : ¬ NoneDead w := by
  intro hn
  obtain ⟨tp, hl, htp⟩ := (Option.any_eq_true _ _).mp h
  obtain ⟨hc, hdead⟩ := of_decide_eq_true htp
  obtain ⟨i, hi, ha⟩ := hn key tp hl hc
  exact hdead (by simp [hi, ha])

/-- The loop waits. -/
def waiting {ε : Type} : Mode ε AgentCmd AgentCmd.Answer → Bool
  | .idle => true
  | .busy _ _ | .ended => false

theorem ne_busy_of_waiting {ε : Type} {m : Mode ε AgentCmd AgentCmd.Answer} (h : waiting m = true) :
    ∀ e p, m ≠ .busy e p := by
  rintro e p rfl
  cases h

theorem idle_of_waiting {ε : Type} {m : Mode ε AgentCmd AgentCmd.Answer} (h : waiting m = true) :
    m = .idle := by
  cases m with
  | idle => rfl
  | busy e p => cases h
  | ended => cases h

/-- A pod on the node `n1` that is always restarted. -/
def service : Pod :=
  { metadata := some { name := "job", ns := "default" }
    spec := some
      { containers := [{ name := "app", command := ["serve"] }]
        nodeName := "n1"
        restartPolicy := .always } }

/-- A pod of a WASM module, which is not restarted. -/
def wasmJob : Pod :=
  { metadata := some { name := "job", ns := "default" }
    spec := some
      { containers := [{ name := "app", wasmModulePath := "app.wasm" }]
        nodeName := "n1"
        restartPolicy := .never } }

/-- No pod is listed. -/
def unlisted : Scene := { keys := ["default/job"] }

/-- The pod is started, and exits. -/
def startsAndExits : List (Move Call Scene Happens) :=
  [.take (.start service), .answer {} 3, .back, .drift (.ends 0 (.waited (.exitError 1))),
    .drift (.sends 0)]

/-- A process exits and is restarted; a WASM module ends and is closed. -/
theorem workloads_correspond_sample :
    (∃ tr m t, (runtimeLoop nodeOne).Reaches Orderly .new tr m t ∧
      (waiting m = true ∧ t.next = 2) ∧ NoneLeaked t ∧ NoneDead t) ∧
    ∃ tr m t, (runtimeLoop nodeOne).Reaches Orderly .new tr m t ∧
      (waiting m = true ∧ t.next = 1 ∧ (t.rt.procs.lookup "default/job").isNone) ∧
        NoneLeaked t ∧ NoneDead t := by
  constructor
  · obtain ⟨tr, m, t, h, hm⟩ := exists_of_play (runtimeResolver nodeOne) Orderly (s := .new)
      (T := fun r => waiting r.mode = true ∧ r.state.next = 2)
      (startsAndExits ++ [.take (.agent (.exit ⟨"default/job", 1⟩)), .answer {} 8, .back])
      (by decide)
    exact ⟨tr, m, t, h, hm, workloads_correspond h (ne_busy_of_waiting hm.1)⟩
  · obtain ⟨tr, m, t, h, hm⟩ := exists_of_play (runtimeResolver nodeOne) Orderly (s := .new)
      (T := fun r => waiting r.mode = true ∧ r.state.next = 1 ∧
        (r.state.rt.procs.lookup "default/job").isNone)
      [.take (.start wasmJob), .answer {} 4, .back, .drift (.ends 0 (.ran (.exited 0))),
        .drift (.sends 0), .take (.agent (.exit ⟨"default/job", 0⟩)), .answer {} 5, .back]
      (by decide)
    exact ⟨tr, m, t, h, hm, workloads_correspond h (ne_busy_of_waiting hm.1)⟩

/-- The pod is listed, not listed, and listed again before the exit of its first workload is
sent. -/
def recreated : List (Move Call Scene Happens) :=
  [.take (.agent .tick), .answer (listed service) 20, .back,
    .take (.agent .tick), .answer unlisted 12, .back,
    .take (.agent .tick), .answer (listed service) 20, .back,
    .drift (.ends 0 (.waited (.exitError (-1)))), .drift (.sends 0)]

/-- **The correspondence fails** in four ways.  The exit of a workload that was stopped is taken for
that of the one started after it, which is started once more beside the one that runs; a restart
that fails leaves what has exited; a restart does not end what runs; and a WASM module that was
stopped lives on beside the one started after it. -/
theorem correspondence_fails :
    (∃ tr t, (runtimeLoop nodeOne).Reaches unguarded .new tr .idle t ∧ ¬ NoneLeaked t) ∧
    (∃ tr t, (runtimeLoop nodeOne).Reaches unguarded .new tr .idle t ∧ ¬ NoneDead t) ∧
    (∃ tr t, (runtimeLoop nodeOne).Reaches unguarded .new tr .idle t ∧ ¬ NoneLeaked t) ∧
    ∃ tr t, (runtimeLoop nodeOne).Reaches unguarded .new tr .idle t ∧
      t.workloads.length = 2 ∧ ¬ NoneLeaked t := by
  refine ⟨?_, ?_, ?_, ?_⟩
  · obtain ⟨tr, m, t, h, hm, hl⟩ := exists_of_play (runtimeResolver nodeOne) unguarded (s := .new)
      (T := fun r => waiting r.mode = true ∧ (leaked r.state).isSome)
      (recreated ++ [.take (.agent (.exit ⟨"default/job", -1⟩)), .answer {} 8, .back]) (by decide)
    exact ⟨tr, t, idle_of_waiting hm ▸ h, not_noneLeaked hl⟩
  · obtain ⟨tr, m, t, h, hm, hd⟩ := exists_of_play (runtimeResolver nodeOne) unguarded (s := .new)
      (T := fun r => waiting r.mode = true ∧ deadUnder r.state "default/job" = true)
      (startsAndExits ++ [.take (.agent (.exit ⟨"default/job", 1⟩)),
        .answer { starts := .error "no such file" } 6, .back]) (by decide)
    exact ⟨tr, t, idle_of_waiting hm ▸ h, not_noneDead hd⟩
  · obtain ⟨tr, m, t, h, hm, hl⟩ := exists_of_play (runtimeResolver nodeOne) unguarded (s := .new)
      (T := fun r => waiting r.mode = true ∧ (leaked r.state).isSome)
      [.take (.start service), .answer {} 3, .back, .take (.restart service), .answer {} 4, .back]
      (by decide)
    exact ⟨tr, t, idle_of_waiting hm ▸ h, not_noneLeaked hl⟩
  · obtain ⟨tr, m, t, h, hm, htwo, hl⟩ := exists_of_play (runtimeResolver nodeOne) unguarded
      (s := .new) (T := fun r => waiting r.mode = true ∧ r.state.workloads.length = 2 ∧
        (leaked r.state).isSome)
      [.take (.start wasmJob), .answer {} 4, .back, .take (.stop "default/job"), .answer {} 2,
        .back, .take (.start wasmJob), .answer {} 4, .back] (by decide)
    exact ⟨tr, t, idle_of_waiting hm ▸ h, htwo, not_noneLeaked hl⟩

end NimbusCore.Agent
