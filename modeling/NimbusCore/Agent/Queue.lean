import NimbusCore.Agent.Terminal

/-!
# Agent — the channel of exits

The agent is the only one that takes exits from the channel, and it sends to it too: on a tick, one
exit for every container that is absent from the running tasks for the third time in a row.  The
channel holds 32.  When it is full, and the agent is about to send, it waits for itself.

* `never_blocked`: the agent is never blocked, if what is due at a tick fits into the channel
  together with what is in it and with what the goroutines may still send (`FitsQueue`).
* `blocked_for_good`: once it is blocked it stays so.
* `missing_containers_block`: 33 containers that are absent from three listings block it.
-/

namespace NimbusCore.Agent

open Api EventLoop Prog List

/-! ### What is due -/

/-- An entry is due: a container that is absent, and was so twice before. -/
def dueEntry (statuses : Dict String Bool) (streaks : Dict String Nat)
    (e : String × TrackedProcess) : Bool :=
  e.2.containerID ≠ "" ∧ running statuses e.2.containerID = false ∧
    containerdMissingConfirmations ≤ streaks.getD e.1 0 + 1

/-- The keys that are due. -/
def ProcessRuntime.due (r : ProcessRuntime) (statuses : Dict String Bool) : Finset String :=
  r.procs.keys.filter fun key =>
    (r.procs.lookup key).any fun tp => dueEntry statuses r.missingStreaks (key, tp)

/-- **The loop finds what is due.** -/
theorem confirmLoop_exits (statuses : Dict String Bool) :
    ∀ {entries : List (String × TrackedProcess)} {streaks : Dict String Nat},
      (entries.map Prod.fst).Nodup → (confirmLoop statuses entries streaks).2 =
        (entries.filter (dueEntry statuses streaks)).map fun e => ⟨e.1, -1⟩
  | [], _, _ => rfl
  | (key, tp) :: entries, streaks, hn => by
    rw [map_cons, nodup_cons] at hn
    -- the round of one key does not touch the streaks of the others
    have hrest : ∀ streaks', (∀ key', key' ≠ key → streaks'.getD key' 0 = streaks.getD key' 0) →
        (confirmLoop statuses entries streaks').2 =
          (entries.filter (dueEntry statuses streaks)).map fun e => ⟨e.1, -1⟩ := by
      intro streaks' hs
      rw [confirmLoop_exits statuses hn.2]
      congr 1
      refine filter_congr fun e he => ?_
      simp only [dueEntry, hs e.1 fun hk => hn.1 (mem_map.mpr ⟨e, he, hk⟩)]
    have herase : ∀ key', key' ≠ key →
        (Finmap.erase key streaks).getD key' 0 = streaks.getD key' 0 := fun key' hk => by
      simp only [Finmap.getD, Finmap.lookup_erase_ne hk]
    have hinsert : ∀ n key', key' ≠ key →
        (Finmap.insert key n streaks).getD key' 0 = streaks.getD key' 0 := fun n key' hk => by
      simp only [Finmap.getD, Finmap.lookup_insert_of_ne _ hk]
    rw [confirmLoop]
    split
    · next hc =>
      rw [hrest streaks fun _ _ => rfl, filter_cons_of_neg (by simp [dueEntry, hc])]
    · next hc =>
      split
      · next hr =>
        rw [hrest _ herase, filter_cons_of_neg (by simp [dueEntry, hr])]
      · next hr =>
        split
        · next hlt =>
          rw [hrest _ (hinsert _), filter_cons_of_neg]
          simp only [dueEntry, decide_eq_true_eq]
          omega
        · next hle =>
          rw [filter_cons_of_pos, map_cons, ← hrest _ herase]
          simp only [dueEntry, decide_eq_true_eq]
          exact ⟨hc, by simpa using hr, by omega⟩

/-- As many exits are sent as keys are due. -/
theorem length_confirm (r : ProcessRuntime) (statuses : Dict String Bool) {order : List String}
    (ho : Finmap.IsOrder order r.procs) :
    (r.confirm statuses order).2.length = (r.due statuses).card := by
  have hnodup : ((r.procs.range order).map Prod.fst).Nodup := by
    rw [ho.map_fst_range]
    exact ho.1
  simp only [ProcessRuntime.confirm, confirmLoop_exits statuses hnodup, length_map]
  have hkeys : (((r.procs.range order).filter (dueEntry statuses r.missingStreaks)).map
      Prod.fst).toFinset = r.due statuses := by
    ext key
    simp only [mem_toFinset, mem_map, mem_filter, Prod.exists, exists_and_right,
      exists_eq_right, ProcessRuntime.due, Finset.mem_filter, Finmap.mem_keys, ho.mem_range,
      Option.any_eq_true]
    constructor
    · rintro ⟨tp, hl, hd⟩
      exact ⟨Finmap.mem_of_lookup_eq_some hl, tp, hl, hd⟩
    · rintro ⟨-, tp, hl, hd⟩
      exact ⟨tp, hl, hd⟩
  rw [← hkeys, toFinset_card_of_nodup, length_map]
  exact hnodup.sublist (filter_sublist.map _)

/-! ### What the agent has still to send -/

/-- The exits that are still to be sent. -/
def pending : List AgentDone → Nat
  | [] => 0
  | ⟨.runtime (.confirm _), exits⟩ :: _ => exits.length
  | ⟨.send _, _⟩ :: h => pending h - 1
  | _ :: h => pending h

/-- The command starts a goroutine that will send. -/
def Launches : AgentCmd → Prop
  | .os (.wait _ _) | .os (.runWasm _ _ _) => True
  | _ => False

/-- The command sends, or finds what is to be sent. -/
def Sends : AgentCmd → Prop
  | .send _ | .runtime (.confirm _) => True
  | _ => False

/-- What is sent is still to be sent, and nothing is launched before everything is. -/
def SendsDue (h : List AgentDone) (c : AgentCmd) : Prop :=
  ((∃ ev, c = .send ev) → 0 < pending h) ∧ (Launches c → pending h = 0)

variable {c : AgentCmd}

theorem pending_cons (hc : ¬ Sends c) (x : c.Answer) (h : List AgentDone) :
    pending (⟨c, x⟩ :: h) = pending h := by
  rcases c with c | c | c | c | c | c | c | c <;> try rfl
  · cases c <;> first | rfl | exact absurd trivial hc
  · exact absurd trivial hc

variable {h : List AgentDone}

theorem sendsDue_of_pending (hc : ∀ ev, c ≠ .send ev) (h0 : pending h = 0) : SendsDue h c :=
  ⟨fun ⟨ev, he⟩ => absurd he (hc ev), fun _ => h0⟩

/-- A part that sends nothing, when nothing is to be sent. -/
theorem along_of_pending {α : Type} {p : Act α} (hp : p.Within (fun c => ¬ Sends c) fun _ => True)
    (h0 : pending h = 0) : p.Along SendsDue h := by
  refine Within.along (J := fun h => pending h = 0) ?_ ?_ hp h0
  · intro h c x hc hj
    rw [pending_cons hc, hj]
  · rintro h c hc hj
    refine sendsDue_of_pending (fun ev he => ?_) hj
    rw [he] at hc
    exact absurd trivial hc

theorem not_sends_of_looks (h : Looks c) : ¬ Sends c := by
  rcases c with c | c | c | c | c | c | c | c <;> try exact id
  · cases c <;> first | exact id | cases h
  · cases h

theorem not_sends_of_takesUp (pod : Pod) (c : AgentCmd) (h : TakesUp pod c) : ¬ Sends c := by
  rcases c with c | c | c | c | c | c | c | c <;> try exact id
  · cases c <;> first | exact id | cases h
  · cases h

theorem not_sends_of_stops (key : String) (c : AgentCmd) (h : Stops key c) : ¬ Sends c := by
  rcases c with c | c | c | c | c | c | c | c <;> try exact id
  · cases c <;> first | exact id | cases h
  · cases h

/-- The sending loop, with as much to send as is pending. -/
theorem along_sendLoop {β : Type} {f : Unit → Act β}
    (hf : ∀ h, pending h = 0 → (f ()).Along SendsDue h) :
    ∀ {exits : List ExitEvent} {h : List AgentDone}, pending h = exits.length →
      (sendLoop exits >>= f).Along SendsDue h
  | [], h, hp => hf h hp
  | ev :: exits, h, hp => by
    refine ⟨⟨fun _ => by rw [hp]; exact Nat.succ_pos _, fun hl => False.elim hl⟩, fun x => ?_⟩
    refine along_sendLoop hf (h := ⟨.send ev, x⟩ :: h) ?_
    rw [pending, hp, length_cons, Nat.add_sub_cancel]

theorem along_checkContainerdExits {β : Type} {f : Unit → Act β}
    (h0 : pending h = 0) (hf : ∀ h, pending h = 0 → (f ()).Along SendsDue h) :
    (checkContainerdExits >>= f).Along SendsDue h := by
  refine ⟨sendsDue_of_pending (fun ev => by simp) h0, fun x => ?_⟩
  rcases x with err | statuses
  · exact hf _ h0
  refine ⟨sendsDue_of_pending (fun ev => by simp) h0, fun exits => ?_⟩
  exact along_sendLoop hf rfl

theorem along_reconcile (cfg : Config) : (reconcile cfg).Along SendsDue [] := by
  have hL : ∀ c, Looks c → ¬ Sends c := fun c => not_sends_of_looks
  refine ⟨sendsDue_of_pending (fun ev => by simp) rfl, fun x => ?_⟩
  rcases x with err | pods
  · trivial
  refine along_checkContainerdExits rfl fun h h0 => along_of_pending ?_ h0
  refine Within.bind (within_reconcileOrphanContainers hL _) fun _ => ?_
  refine within_ask_bind.mpr ⟨hL _ trivial, fun keys => ?_⟩
  refine Within.bind (within_startLoop not_sends_of_takesUp (fun _ => id) cfg _) fun _ => ?_
  refine within_ask_bind.mpr ⟨hL _ trivial, fun keys => ?_⟩
  refine Within.bind (within_dropLoop not_sends_of_stops _ keys) fun _ => ?_
  refine within_ask_bind.mpr ⟨hL _ trivial, fun keys => ?_⟩
  exact within_reportLoop hL (fun _ => id) keys

theorem along_round_sendsDue (cfg : Config) (e : AgentEvent) : (round cfg e).Along SendsDue [] := by
  cases e with
  | tick =>
    refine Along.bind (f := fun _ => do
      let _ ← Prog.ask AgentCmd.reconcileServices
      return true) (fun _ h => ?_) (along_reconcile cfg)
    exact ⟨⟨(fun ⟨ev, he⟩ => by cases he), fun hl => False.elim hl⟩, fun _ => trivial⟩
  | exit ev =>
    refine along_of_pending (Within.bind ?_ fun _ => trivial) rfl
    exact within_handleExit not_sends_of_takesUp not_sends_of_stops (fun _ => id) cfg ev
  | done =>
    refine along_of_pending (Within.bind (within_stopAll not_sends_of_stops) fun _ => ?_) rfl
    exact within_ask_bind.mpr ⟨id, fun _ => trivial⟩

/-! ### The runs -/

/-- What is found to be due fits into the channel, with what is in it and with what the workloads
will send; or nothing is. -/
def ConfirmFits (w : World) : AgentCmd → Prop
  | .runtime (.confirm statuses) => (w.rt.due statuses).card = 0 ∨
      w.queue.length + w.workloads.length + (w.rt.due statuses).card ≤ exitedCap
  | _ => True

/-- **What is due at a tick fits into the channel.** -/
def FitsQueue : Guard AgentEvent AgentCmd AgentCmd.Answer World where
  allows _ _ c _ w := ConfirmFits w c

instance (w : World) : DecidablePred (ConfirmFits w)
  | .runtime (.confirm _) => inferInstanceAs (Decidable (_ ∨ _))
  | .runtime (.tracked _) | .runtime .keys | .runtime (.replace _) => isTrue trivial
  | .runtime (.assign _) | .runtime (.countRestart _) | .runtime (.untrack _) => isTrue trivial
  | .api _ | .containerd _ | .os _ | .send _ | .order _ => isTrue trivial
  | .reconcileServices | .stopNodePorts => isTrue trivial

instance : DecidableGuard FitsQueue where
  takes _ _ _ := inferInstanceAs (Decidable True)
  allows _ _ c _ w := inferInstanceAs (Decidable (ConfirmFits w c))

/-- The agent is about to send. -/
def atSend : Mode AgentEvent AgentCmd AgentCmd.Answer → Bool
  | .busy _ (.call (.send _) _) => true
  | _ => false

/-- The agent waits to send, and the channel is full. -/
def Blocked (m : Mode AgentEvent AgentCmd AgentCmd.Answer) (w : World) : Prop :=
  atSend m = true ∧ ¬ w.HasRoom

instance (m : Mode AgentEvent AgentCmd AgentCmd.Answer) (w : World) : Decidable (Blocked m w) :=
  inferInstanceAs (Decidable (_ ∧ _))

variable {w w' : World}

section

variable {cfg : Config} {s t : World} {tr : List AgentStep}
  {m : Mode AgentEvent AgentCmd AgentCmd.Answer}

/-- What is pending fits. -/
def PendingFits (tr : List AgentStep) (w : World) : Prop :=
  pending (current tr) = 0 ∨ w.queue.length + w.workloads.length + pending (current tr) ≤ exitedCap

theorem World.Numbers.length_eq {y : Except String Nat} (h : w.Numbers y w') :
    w'.queue.length = w.queue.length ∧ w'.workloads.length = w.workloads.length := by
  cases y with
  | ok i => obtain ⟨-, rfl⟩ := h; exact ⟨rfl, rfl⟩
  | error err => rw [show w' = w from h]; exact ⟨rfl, rfl⟩

/-- What is in the channel and what will come only moves. -/
theorem Drifts.length_eq (h : Drifts w w') :
    w'.queue.length + w'.workloads.length = w.queue.length + w.workloads.length := by
  cases h with
  | ends e hw _ _ => simp [hw]
  | sends hw _ _ => simp [hw]; omega

/-- A command that neither sends nor launches leaves the channel and the workloads as many. -/
theorem length_eq_of_answers {x : c.Answer} (hs : ¬ Sends c)
    (hl : ¬ Launches c) (h : answers c w x w') :
    w'.queue.length = w.queue.length ∧ w'.workloads.length = w.workloads.length := by
  cases c with
  | api c | containerd c | reconcileServices | stopNodePorts =>
    rw [show w' = w from h]; exact ⟨rfl, rfl⟩
  | send ev => exact absurd trivial hs
  | order keys => rw [h.2]; exact ⟨rfl, rfl⟩
  | runtime c =>
    cases c with
    | tracked key => rw [h.2]; exact ⟨rfl, rfl⟩
    | keys => rw [h.2]; exact ⟨rfl, rfl⟩
    | untrack key => rw [h.2]; exact ⟨rfl, rfl⟩
    | confirm statuses => exact absurd trivial hs
    | _ => obtain rfl := h; exact ⟨rfl, rfl⟩
  | os c =>
    cases c with
    | startCommand pod args => exact World.Numbers.length_eq h
    | newWasm => exact World.Numbers.length_eq h
    | wait pod i => exact absurd trivial hl
    | runWasm pod i module => exact absurd trivial hl
    | kill i => obtain rfl := h; exact ⟨rfl, length_map _⟩
    | closeWasm i => obtain rfl := h; exact ⟨rfl, length_map _⟩
    | _ => obtain rfl := h; exact ⟨rfl, rfl⟩

/-- **One command.** -/
theorem PendingFits.step {x : c.Answer} (h : PendingFits tr w) (hc : SendsDue (current tr) c)
    (ha : answers c w x w') (hg : ConfirmFits w c) : PendingFits (.did c x :: tr) w' := by
  by_cases hs : Sends c
  · rcases c with c | c | c | c | ev | c | c | c <;> try exact hs.elim
    · cases c with
      | confirm statuses =>
        obtain ⟨order, ho, rfl, rfl⟩ := ha
        have hlen := length_confirm w.rt statuses ho
        simp only [PendingFits, current, pending, hlen]
        exact hg
      | _ => exact hs.elim
    · have hpos := hc.1 ⟨ev, rfl⟩
      obtain ⟨-, rfl⟩ := ha
      simp only [PendingFits, current, pending, length_append, length_singleton] at h ⊢
      omega
  · by_cases hl : Launches c
    · exact .inl (by rw [current, pending_cons hs]; exact hc.2 hl)
    · obtain ⟨hq, hw⟩ := length_eq_of_answers hs hl ha
      simp only [PendingFits, current, pending_cons hs, hq, hw]
      exact h

/-- **Any steps.** -/
theorem pendingFits_of_reaches (h : (agentLoop cfg).Reaches FitsQueue s tr m t) :
    PendingFits tr t := by
  induction h with
  | nil | take e _ _ _ _ => exact .inl rfl
  | drift _ hd ih =>
    simp only [PendingFits, hd.length_eq] at ih ⊢
    exact ih
  | did h ha hg ih =>
    have hal := h.along (Φ := fun _ => SendsDue) (along_round_sendsDue cfg)
    exact ih.step hal.1 ha hg
  | back _ ih => exact ih

/-- **The agent never waits for itself**, if what is due at a tick fits into the channel, together
with what is in it and with what the workloads may still send. -/
theorem never_blocked (h : (agentLoop cfg).Reaches FitsQueue s tr m t) : ¬ Blocked m t := by
  have hal := h.along (Φ := fun _ => SendsDue) (along_round_sendsDue cfg)
  have hfits := pendingFits_of_reaches h
  rintro ⟨hsend, hfull⟩
  rcases m with _ | ⟨e, _ | e' | ⟨c, k⟩⟩ | _ <;> try cases hsend
  cases c with
  | send ev =>
    have hpos := hal.1.1 ⟨ev, rfl⟩
    simp only [PendingFits] at hfits
    simp only [World.HasRoom] at hfull
    omega
  | _ => cases hsend

/-- **Once blocked, blocked for good.**  Whatever else happens, the command has no answer. -/
theorem blocked_for_good {ev : ExitEvent} (hw : ¬ w.HasRoom)
    (h : Relation.ReflTransGen Drifts w w') :
    ¬ w'.HasRoom ∧ ∀ x w'', ¬ answers (.send ev) w' x w'' := by
  have hroom : ¬ w'.HasRoom := by
    induction h with
    | refl => exact hw
    | tail _ hd ih =>
      cases hd with
      | ends e _ _ _ => exact ih
      | sends _ _ hr => exact absurd hr ih
  exact ⟨hroom, fun x w'' ha => hroom ha.1⟩

end

/-! ### Containers that are missing -/

/-- A pod of the node `n1` that runs as a container. -/
def containerPod (n : Nat) : Pod :=
  { metadata := some { name := String.singleton (Char.ofNat (65 + n)), ns := "a" }
    spec := some
      { containers := [{ image := "app" }]
        nodeName := "n1" } }

/-- So many of them are listed, and no task runs. -/
def missing (n : Nat) : Scene :=
  { pods := .ok ((List.range n).map containerPod)
    keys := (List.range n).map fun i => podKey (containerPod i) }

/-- They are started, and then missing at two ticks. -/
def missingTwice (n : Nat) : List (Move AgentEvent Scene Happens) :=
  [.take .tick, .answer (missing n) (12 * n + 10), .back,
    .take .tick, .answer (missing n) (6 * n + 10), .back,
    .take .tick, .answer (missing n) (6 * n + 10), .back]

theorem never_blocked_sample :
    ∃ tr m t, (agentLoop nodeOne).Reaches FitsQueue .new tr m t ∧ t.queue.length = 2 ∧
      ¬ Blocked m t := by
  obtain ⟨tr, m, t, h, hq⟩ := exists_of_play (agentResolver nodeOne) FitsQueue (s := .new)
    (T := fun r => r.state.queue.length = 2)
    (missingTwice 2 ++ [.take .tick, .answer (missing 2) 5]) (by decide +kernel)
  exact ⟨tr, m, t, h, hq, never_blocked h⟩

/-- **33 containers that are missing at three ticks block the agent.** -/
theorem missing_containers_block :
    ∃ tr m t, (agentLoop nodeOne).Reaches unguarded .new tr m t ∧ Blocked m t :=
  exists_of_play (agentResolver nodeOne) unguarded (T := fun r => Blocked r.mode r.state)
    (missingTwice 33 ++ [.take .tick, .answer (missing 33) 35]) (by decide +kernel)

end NimbusCore.Agent
