import NimbusCore.Agent.Agent
import NimbusCore.Support.Loops

/-!
# Agent — the node around it

What the agent acts on: the maps of its runtime, the processes and WASM modules it has started, and
the channel of exits, which holds 32.  Everything that is outside may answer as it likes: the API
server, containerd, the start of a process; nothing of them is kept.

A workload is a process or a WASM module from the time its goroutine runs until that goroutine has
sent its exit.  It ends by itself, or some time after it was told to (`Kill`, `Close`); then the
goroutine sends, as soon as the channel has room.  Workloads are numbered in the order in which they
were started, and an exit that waits in the channel keeps the number it comes from, which the agent
does not see.
-/

namespace NimbusCore.Agent

open Api EventLoop ProcessRuntime

/-- What a workload has come to. -/
inductive Stage where
  | running
  | told
  | ended (exitCode : Int)
  deriving DecidableEq

/-- A process or a WASM module whose exit has not been sent. -/
structure Workload where
  id : Nat
  key : String
  wasm : Bool
  stage : Stage
  deriving DecidableEq

/-- How a workload ends. -/
inductive Ending where
  | waited (r : WaitResult)
  | ran (r : RunResult)

/-- The exit code that is sent. -/
def Ending.exitCode : Ending → Int
  | .waited r => r.exitCode
  | .ran r => r.exitCode

/-- It is how such a workload ends. -/
def Ending.isWasm : Ending → Bool
  | .waited _ => false
  | .ran _ => true

/-- It has not ended. -/
def Stage.unended : Stage → Bool
  | .running | .told => true
  | .ended _ => false

/-- Told to end, if it has not ended. -/
def Stage.tell : Stage → Stage
  | .running | .told => .told
  | .ended code => .ended code

/-- An exit in the channel, and the workload it comes from. -/
structure Queued where
  ev : ExitEvent
  origin : Option Nat
  deriving DecidableEq

/-- The node. -/
structure World where
  rt : ProcessRuntime
  workloads : List Workload
  queue : List Queued
  next : Nat

/-- The capacity of the channel. -/
def exitedCap : Nat := 32

namespace World

/-- A node on which nothing has been started. -/
def new : World := ⟨.new, [], [], 0⟩

/-- The goroutine of a workload runs. -/
def launch (w : World) (x : Workload) : World := { w with workloads := w.workloads ++ [x] }

/-- A workload is told to end. -/
def tell (w : World) (i : Nat) : World :=
  { w with workloads := w.workloads.map fun x =>
      if x.id = i then { x with stage := x.stage.tell } else x }

/-- The channel has room. -/
def HasRoom (w : World) : Prop := w.queue.length < exitedCap

instance (w : World) : Decidable w.HasRoom := inferInstanceAs (Decidable (_ < _))

/-- The number of a start that has succeeded. -/
def Numbers (w : World) (x : Except String Nat) (w' : World) : Prop :=
  match x with
  | .ok i => i = w.next ∧ w' = { w with next := w.next + 1 }
  | .error _ => w' = w

end World

/-- What the operating system does. -/
def osAnswers : Handler OsCmd OsCmd.Answer World
  | .startCommand _ _, w, x, w' => w.Numbers x w'
  | .newWasm, w, x, w' => w.Numbers x w'
  | .wait pod i, w, _, w' => w' = w.launch ⟨i, podKey pod, false, .running⟩
  | .runWasm pod i _, w, _, w' => w' = w.launch ⟨i, podKey pod, true, .running⟩
  | .kill i, w, _, w' => w' = w.tell i
  | .closeWasm i, w, _, w' => w' = w.tell i
  | .openLog .., w, _, w' => w' = w
  | .ensureVolumeDir .., w, _, w' => w' = w
  | .readFile _, w, _, w' => w' = w
  | .residentSet _, w, _, w' => w' = w

/-- What the critical sections do. -/
def runtimeAnswers : Handler RuntimeCmd RuntimeCmd.Answer World
  | .tracked key, w, x, w' => x = w.rt.procs.lookup key ∧ w' = w
  | .keys, w, x, w' => Finmap.IsOrder x w.rt.procs ∧ w' = w
  | .replace tp, w, _, w' => w' = { w with rt := w.rt.replace tp }
  | .assign tp, w, _, w' => w' = { w with rt := w.rt.assign tp }
  | .countRestart key, w, _, w' => w' = { w with rt := w.rt.countRestart key }
  | .untrack key, w, x, w' => x = w.rt.procs.lookup key ∧ w' = { w with rt := w.rt.untrack key }
  | .confirm statuses, w, x, w' => ∃ order, Finmap.IsOrder order w.rt.procs ∧
      x = (w.rt.confirm statuses order).2 ∧ w' = { w with rt := (w.rt.confirm statuses order).1 }

/-- What every command answers, and what it does. -/
def answers : Handler AgentCmd AgentCmd.Answer World
  | .api _, w, _, w' => w' = w
  | .containerd _, w, _, w' => w' = w
  | .os c, w, x, w' => osAnswers c w x w'
  | .runtime c, w, x, w' => runtimeAnswers c w x w'
  | .send ev, w, _, w' => w.HasRoom ∧ w' = { w with queue := w.queue ++ [⟨ev, none⟩] }
  | .order keys, w, x, w' => (x.Nodup ∧ x.toFinset = keys) ∧ w' = w
  | .reconcileServices, w, _, w' => w' = w
  | .stopNodePorts, w, _, w' => w' = w

/-- What goes on by itself: a workload ends, and its goroutine sends the exit. -/
inductive Drifts : World → World → Prop
  | ends {w : World} {l₁ l₂ : List Workload} {x : Workload} (e : Ending) :
      w.workloads = l₁ ++ x :: l₂ → x.stage.unended = true → e.isWasm = x.wasm →
      Drifts w { w with workloads := l₁ ++ { x with stage := .ended e.exitCode } :: l₂ }
  | sends {w : World} {l₁ l₂ : List Workload} {x : Workload} {code : Int} :
      w.workloads = l₁ ++ x :: l₂ → x.stage = .ended code → w.HasRoom →
      Drifts w { w with
        workloads := l₁ ++ l₂
        queue := w.queue ++ [⟨⟨x.key, code⟩, some x.id⟩] }

/-- An event of the agent can be taken. -/
def Arrives : AgentEvent → World → World → Prop
  | .tick, w, w' => w' = w
  | .exit ev, w, w' => ∃ q rest, w.queue = q :: rest ∧ q.ev = ev ∧ w' = { w with queue := rest }
  | .done, w, w' => w' = w

/-- `Run`. -/
def agentLoop (cfg : Config) : EventLoop AgentEvent AgentCmd AgentCmd.Answer World where
  arrives := Arrives
  body := round cfg
  answers := answers
  drifts := Drifts

/-! ### What happens to the maps -/

/-- The command tracks a pod. -/
def Tracks (key : String) : AgentCmd → Prop
  | .runtime (.replace tp) | .runtime (.assign tp) => podKey tp.pod = key
  | _ => False

section

variable {c : AgentCmd} {x : c.Answer} {w w' : World}

theorem Drifts.rt_eq (h : Drifts w w') : w'.rt = w.rt := by
  cases h <;> rfl

theorem Arrives.rt_eq {e : AgentEvent} (h : Arrives e w w') : w'.rt = w.rt := by
  cases e with
  | tick | done => rw [show w' = w from h]
  | exit ev => obtain ⟨q, rest, -, -, rfl⟩ := h; rfl

theorem World.Numbers.rt_eq {y : Except String Nat} (h : w.Numbers y w') : w'.rt = w.rt := by
  cases y with
  | ok i => obtain ⟨-, rfl⟩ := h; rfl
  | error err => rw [show w' = w from h]

theorem rt_eq_of_osAnswers {c : OsCmd} {x : c.Answer} (h : osAnswers c w x w') : w'.rt = w.rt := by
  cases c with
  | startCommand pod args | newWasm => exact World.Numbers.rt_eq h
  | _ => obtain rfl := h; rfl

/-- **What is not tracked** is not tracked after a command that does not track it. -/
theorem untracked_of_answers {key : String} (hc : ¬ Tracks key c) (h : answers c w x w')
    (hw : w.rt.procs.lookup key = none) : w'.rt.procs.lookup key = none := by
  cases c with
  | api c | containerd c | reconcileServices | stopNodePorts => rw [show w' = w from h]; exact hw
  | os c => rw [rt_eq_of_osAnswers h]; exact hw
  | send ev | order keys => rw [h.2]; exact hw
  | runtime c =>
    cases c with
    | tracked key' => rw [h.2]; exact hw
    | keys => rw [h.2]; exact hw
    | confirm statuses => obtain ⟨order, -, -, rfl⟩ := h; exact hw
    | countRestart key' =>
      rw [show w' = _ from h]
      simp [lookup_countRestart, hw]
    | untrack key' =>
      rw [h.2]
      simp [lookup_untrack, hw]
    | replace tp =>
      rw [show w' = _ from h]
      simp only [ProcessRuntime.replace, lookup_assign]
      rw [if_neg fun he => hc he.symm, hw]
    | assign tp =>
      rw [show w' = _ from h]
      simp only [lookup_assign]
      rw [if_neg fun he => hc he.symm, hw]

end

/-! ### Computed answers -/

/-- What the outside answers for a while. -/
structure Scene where
  pods : Except String (List Pod) := .ok []
  tasks : Except String (Dict String Bool) := .ok ∅
  /-- What comes of starting something. -/
  starts : Except String Unit := .ok ()
  /-- The order of keys. -/
  keys : List String := []

namespace Scene

/-- The keys, in the order of the scene, if it has them all. -/
def orderOf (sc : Scene) (keys : Finset String) : Option (List String) :=
  let l := sc.keys.filter fun key => key ∈ keys
  if l.Nodup ∧ l.toFinset = keys then some l else none

theorem orderOf_eq_some {sc : Scene} {keys : Finset String} {l : List String}
    (h : sc.orderOf keys = some l) : l.Nodup ∧ l.toFinset = keys := by
  simp only [orderOf] at h
  split at h
  · next hl => cases h; exact hl
  · cases h

def containerd (sc : Scene) : (c : ContainerdCmd) → c.Answer
  | .listTasks => sc.tasks
  | .taskPid _ => .error ""
  | .removeContainer _ => ()
  | .buildImage .. => sc.starts.map fun _ => ""
  | .localImage _ => sc.starts.map fun _ => ""
  | .pullImage _ => sc.starts.map fun _ => ""
  | .runContainer .. => sc.starts

/-- The number of a start. -/
def number (sc : Scene) (w : World) : Except String Nat × World :=
  match sc.starts with
  | .ok () => (.ok w.next, { w with next := w.next + 1 })
  | .error err => (.error err, w)

theorem numbers_number (sc : Scene) (w : World) : w.Numbers (sc.number w).1 (sc.number w).2 := by
  rw [number]
  cases sc.starts with
  | ok _ => exact ⟨rfl, rfl⟩
  | error err => rfl

def os (sc : Scene) : (c : OsCmd) → World → c.Answer × World
  | .startCommand _ _, w => sc.number w
  | .newWasm, w => sc.number w
  | .wait pod i, w => ((), w.launch ⟨i, podKey pod, false, .running⟩)
  | .runWasm pod i _, w => ((), w.launch ⟨i, podKey pod, true, .running⟩)
  | .kill i, w => ((), w.tell i)
  | .closeWasm i, w => ((), w.tell i)
  | .openLog .., w => (sc.starts.map fun _ => "", w)
  | .ensureVolumeDir .., w => (sc.starts.map fun _ => "", w)
  | .readFile _, w => (sc.starts.map fun _ => [], w)
  | .residentSet _, w => (none, w)

def runtime (sc : Scene) : (c : RuntimeCmd) → World → Option (c.Answer × World)
  | .tracked key, w => some (w.rt.procs.lookup key, w)
  | .keys, w => (sc.orderOf w.rt.procs.keys).map fun l => (l, w)
  | .replace tp, w => some ((), { w with rt := w.rt.replace tp })
  | .assign tp, w => some ((), { w with rt := w.rt.assign tp })
  | .countRestart key, w => some ((), { w with rt := w.rt.countRestart key })
  | .untrack key, w => some (w.rt.procs.lookup key, { w with rt := w.rt.untrack key })
  | .confirm statuses, w => (sc.orderOf w.rt.procs.keys).map fun l =>
    ((w.rt.confirm statuses l).2, { w with rt := (w.rt.confirm statuses l).1 })

def answer : (c : AgentCmd) → Scene → World → Option (c.Answer × World)
  | .api .listPods, sc, w => some (sc.pods, w)
  | .api (.updatePodStatus _), _, w => some (.ok (), w)
  | .containerd c, sc, w => some (sc.containerd c, w)
  | .os c, sc, w => some (sc.os c w)
  | .runtime c, sc, w => sc.runtime c w
  | .send ev, _, w =>
    if w.HasRoom then some ((), { w with queue := w.queue ++ [⟨ev, none⟩] }) else none
  | .order keys, sc, w => (sc.orderOf keys).map fun l => (l, w)
  | .reconcileServices, _, w => some ((), w)
  | .stopNodePorts, _, w => some ((), w)

theorem osAnswers_os (sc : Scene) (c : OsCmd) (w : World) :
    osAnswers c w (sc.os c w).1 (sc.os c w).2 := by
  cases c with
  | startCommand pod args | newWasm => exact sc.numbers_number w
  | _ => rfl

theorem runtimeAnswers_runtime {sc : Scene} {c : RuntimeCmd} {w w' : World} {x : c.Answer}
    (h : sc.runtime c w = some (x, w')) : runtimeAnswers c w x w' := by
  cases c with
  | keys =>
    obtain ⟨l, hl, hx⟩ := Option.map_eq_some_iff.mp h
    cases hx
    exact ⟨orderOf_eq_some hl, rfl⟩
  | confirm statuses =>
    obtain ⟨l, hl, hx⟩ := Option.map_eq_some_iff.mp h
    cases hx
    exact ⟨l, orderOf_eq_some hl, rfl, rfl⟩
  | tracked key | untrack key => cases h; exact ⟨rfl, rfl⟩
  | replace tp => cases h; rfl
  | assign tp => cases h; rfl
  | countRestart key => cases h; rfl

theorem answers_answer (c : AgentCmd) (sc : Scene) (w : World) (x : c.Answer) (w' : World)
    (h : answer c sc w = some (x, w')) : answers c w x w' := by
  cases c with
  | api c =>
    cases c with
    | listPods => cases h; rfl
    | updatePodStatus req => cases h; rfl
  | containerd c => cases h; rfl
  | os c =>
    have hos := sc.osAnswers_os c w
    rw [show sc.os c w = (x, w') from Option.some.inj h] at hos
    exact hos
  | runtime c => exact runtimeAnswers_runtime h
  | send ev =>
    simp only [answer] at h
    split at h
    · next hroom => cases h; exact ⟨hroom, rfl⟩
    · cases h
  | order keys =>
    obtain ⟨l, hl, hx⟩ := Option.map_eq_some_iff.mp h
    cases hx
    exact ⟨orderOf_eq_some hl, rfl⟩
  | reconcileServices => cases h; rfl
  | stopNodePorts => cases h; rfl

end Scene

/-- What happens to the workload at a position. -/
inductive Happens where
  | ends (n : Nat) (e : Ending)
  | sends (n : Nat)

/-- The node after it, if it can happen. -/
def Happens.drift : Happens → World → Option World
  | .ends n e, w =>
    match w.workloads.drop n with
    | x :: l₂ =>
      if x.stage.unended = true ∧ e.isWasm = x.wasm then
        some { w with
          workloads := w.workloads.take n ++ { x with stage := .ended e.exitCode } :: l₂ }
      else none
    | [] => none
  | .sends n, w =>
    match w.workloads.drop n with
    | ⟨id, key, _, .ended code⟩ :: l₂ =>
      if w.HasRoom then
        some { w with
          workloads := w.workloads.take n ++ l₂
          queue := w.queue ++ [⟨⟨key, code⟩, some id⟩] }
      else none
    | _ => none

theorem Happens.drifts (d : Happens) (w w' : World) (h : d.drift w = some w') : Drifts w w' := by
  cases d with
  | ends n e =>
    simp only [Happens.drift] at h
    split at h
    · next x l₂ hd =>
      split at h
      · next hx =>
        cases h
        exact .ends e (by rw [← hd, List.take_append_drop]) hx.1 hx.2
      · cases h
    · cases h
  | sends n =>
    simp only [Happens.drift] at h
    split at h
    · next id key wasm code l₂ hd =>
      split at h
      · next hroom =>
        cases h
        exact .sends (x := ⟨id, key, wasm, .ended code⟩) (by rw [← hd, List.take_append_drop]) rfl
          hroom
      · cases h
    · cases h

/-- The event can be taken. -/
def arrive : AgentEvent → World → Option World
  | .tick, w => some w
  | .exit ev, w =>
    match w.queue with
    | q :: rest => if q.ev = ev then some { w with queue := rest } else none
    | [] => none
  | .done, w => some w

theorem arrives_arrive (e : AgentEvent) (w w' : World) (h : arrive e w = some w') :
    Arrives e w w' := by
  cases e with
  | tick => cases h; rfl
  | done => cases h; rfl
  | exit ev =>
    simp only [arrive] at h
    split at h
    · next q rest hq =>
      split at h
      · next he => cases h; exact ⟨q, rest, hq, he, rfl⟩
      · cases h
    · cases h

/-- The agent among computed answers. -/
def agentResolver (cfg : Config) : Resolver (agentLoop cfg) Scene Happens where
  arrive := arrive
  answer := Scene.answer
  drift := Happens.drift
  arrives := arrives_arrive
  answers := Scene.answers_answer
  drifts := Happens.drifts

end NimbusCore.Agent
