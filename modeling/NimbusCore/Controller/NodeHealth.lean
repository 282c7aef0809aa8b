import NimbusCore.Apiserver.Nodes
import NimbusCore.Support.Interleaving

/-!
# Controller — the node health controller

`internal/controller/node_health.go`.  `checkAll` lists the nodes, reads the clock, and puts back as
not ready every listed node whose last heartbeat is too old.  It puts back what it has listed, so a
heartbeat that is stored in between is undone.

Any number of passes and of heartbeats run interleaved, call by call, over a store that may fail at
any call and a clock that does not go backwards (`HealthOp`).

* `live_node_spared`: when no heartbeat of a node is stored between the listing of a pass and its
  put of the node (`Unbeaten`), no step marks a live node, and no step of a pass takes a heartbeat
  back.
* `live_node_marked`: otherwise a pass does both.
-/

namespace NimbusCore.Controller

open Api Registry Apiserver Prog Int64

/-! ### The controller -/

/-- `NodeHealthReconciler`, with durations in nanoseconds. -/
structure NodeHealthReconciler where
  timeout : Int64
  resync : Int64
  timeout_pos : 0 < timeout
  resync_pos : 0 < resync

/-- A duration, or the default when it is not positive. -/
def durationOr (default d : Int64) : Int64 := if d ≤ 0 then default else d

theorem durationOr_pos {default : Int64} (h : 0 < default) (d : Int64) :
    0 < durationOr default d := by
  rw [durationOr]
  split
  · exact h
  · next hd => exact Int64.not_le.mp hd

/-- `NewNodeHealthReconciler`: fifteen and five seconds by default. -/
def newNodeHealthReconciler (timeout resync : Int64) : NodeHealthReconciler where
  timeout := durationOr 15000000000 timeout
  resync := durationOr 5000000000 resync
  timeout_pos := durationOr_pos (by decide) timeout
  resync_pos := durationOr_pos (by decide) resync

/-- `n.Status.Ready = false`, of a node that has a status. -/
def notReady (n : Node) : Node :=
  { n with status := n.status.map fun status => { status with ready := false } }

/-- The loop of `checkAll`.  An error is only logged. -/
def markLoop (cutoff : Int64) : List Node → Clocked Unit
  | [] => return ()
  | n :: nodes => do
    if n.getStatus.ready = false then markLoop cutoff nodes
    else if cutoff ≤ n.getStatus.lastHeartbeatUnix then markLoop cutoff nodes
    else
      let _ ← call (.put .nodes "" n.getMetadata.name (notReady n))
      markLoop cutoff nodes

namespace NodeHealthReconciler

/-- `time.Now().Add(-r.timeout).Unix()`. -/
def cutoff (r : NodeHealthReconciler) (now : Time) : Int64 := Time.unix (Time.add now (-r.timeout))

/-- `checkAll`. -/
def checkAll (r : NodeHealthReconciler) : Clocked Unit := do
  match ← call (.list .nodes "") with
  | .error _ => return ()
  | .ok nodes =>
    let t ← now
    markLoop (r.cutoff t) nodes

theorem toInt_neg_timeout (r : NodeHealthReconciler) : (-r.timeout).toInt = -r.timeout.toInt := by
  have hpos := lt_iff_toInt_lt.mp r.timeout_pos
  have hlt := r.timeout.toInt_lt
  rw [toInt_zero] at hpos
  rw [toInt_neg]
  exact Int.bmod_eq_of_le (by omega) (by omega)

/-- **The later, the later the cutoff.** -/
theorem cutoff_mono (r : NodeHealthReconciler) {s t : Timed} (h : s.now ≤ t.now) :
    r.cutoff s.now ≤ r.cutoff t.now := by
  have hpos := lt_iff_toInt_lt.mp r.timeout_pos
  have hlt := r.timeout.toInt_lt
  have hs := s.since
  have ht := t.fits
  rw [toInt_zero] at hpos
  simp only [cutoff, Time.add, toInt_neg_timeout]
  exact Time.unix_mono (by omega) (by omega) (by omega)

end NodeHealthReconciler

@[simp] theorem notReady_lastHeartbeatUnix (n : Node) :
    (notReady n).getStatus.lastHeartbeatUnix = n.getStatus.lastHeartbeatUnix := by
  rcases n with ⟨md, spec, _ | status⟩ <;> rfl

/-! ### Passes and heartbeats -/

/-- A pass, or a heartbeat. -/
inductive HealthOp where
  | check
  | heartbeat (req : HeartbeatRequest)

namespace HealthOp

/-- What it runs. -/
def prog (r : NodeHealthReconciler) : HealthOp → Clocked Unit
  | .check => r.checkAll
  | .heartbeat req => do
    let _ ← Apiserver.heartbeat req
    return ()

/-- It is a pass. -/
def Checks : HealthOp → Bool
  | .check => true
  | .heartbeat _ => false

end HealthOp

/-- The node stored under a name. -/
def nodeAt (name : String) (t : Timed) : Option Node := (t.store .nodes).lookup name

/-- The node that a call has stored, and where. -/
def storesNode : (c : ClockCmd) → c.Answer → Option (String × Node)
  | .reg (.put .nodes ns name n), .ok () => some (path ns name, n)
  | _, _ => none

/-- The nodes that a call has listed. -/
def listedNodes : (c : ClockCmd) → c.Answer → Option (List Node)
  | .reg (.list .nodes _), .ok nodes => some nodes
  | _, _ => none

/-- The time that a call has told. -/
def toldTime : (c : ClockCmd) → c.Answer → Option Time
  | .now, t => some t
  | .reg _, _ => none

/-- A step of the passes and heartbeats. -/
abbrev HealthStep (ι : Type) := Prog.Event ι ClockCmd ClockCmd.Answer Timed

section

variable {ι : Type} (ops : ι → HealthOp)

/-- The step stores a heartbeat of the node. -/
def Beats (name : String) (e : HealthStep ι) : Prop :=
  (ops e.who).Checks = false ∧ ∃ w ∈ storesNode e.cmd e.answer, w.1 = name

instance (name : String) : DecidablePred (Beats ops name) :=
  fun _ => inferInstanceAs (Decidable (_ ∧ _))

/-- **No heartbeat of a node is stored between the listing of a pass and its put of the node.** -/
def Unbeaten [DecidableEq ι] :
    Prog.Guard ι ClockCmd ClockCmd.Answer Stop Unit Timed := fun tr _ e =>
  (ops e.who).Checks = true → ∀ w ∈ storesNode e.cmd e.answer,
    Prog.Undisturbed (Prog.Shows listedNodes e.who) (Beats ops w.1) tr

instance [DecidableEq ι] (tr : List (HealthStep ι)) (Q : ι → Clocked Unit) (e : HealthStep ι) :
    Decidable (Unbeaten ops tr Q e) :=
  inferInstanceAs (Decidable (_ → _))

/-- The step does not replace a live node by one that is not ready. -/
def SparesLive (r : NodeHealthReconciler) (e : HealthStep ι) : Prop :=
  ∀ name n n', nodeAt name e.pre = some n →
    r.cutoff e.post.now ≤ n.getStatus.lastHeartbeatUnix →
      storesNode e.cmd e.answer = some (name, n') → n'.getStatus.ready = true

/-- The step takes no heartbeat back. -/
def KeepsHeartbeats (e : HealthStep ι) : Prop :=
  ∀ name n, nodeAt name e.pre = some n →
    ∃ n', nodeAt name e.post = some n' ∧
      n.getStatus.lastHeartbeatUnix ≤ n'.getStatus.lastHeartbeatUnix

end

/-! ### What each of them issues -/

/-- What is fetched is named so. -/
def NodeNamed : (c : ClockCmd) → c.Answer → Prop
  | .reg (.get .nodes ns name), .ok n => n.getMetadata.name = path ns name
  | _, _ => True

/-- Nodes are put under their own names, by a heartbeat as ready, and none is deleted. -/
def HealthOp.Issues (op : HealthOp) : ClockCmd → Prop
  | .reg (.put .nodes ns name n) =>
    path ns name = n.getMetadata.name ∧ (op.Checks = false → n.getStatus.ready = true)
  | .reg (.delete .nodes _ _) => False
  | _ => True

theorem issues_markLoop (cutoff : Int64) :
    ∀ nodes, (markLoop cutoff nodes).Ensures NodeNamed (HealthOp.Issues .check) fun _ => True
  | [] => trivial
  | n :: nodes => by
    rw [markLoop]
    split
    · exact issues_markLoop cutoff nodes
    · split
      · exact issues_markLoop cutoff nodes
      · refine ensures_ask_bind.mpr ⟨⟨rfl, fun h => by cases h⟩, fun _ _ => ?_⟩
        exact issues_markLoop cutoff nodes

theorem issues_prog (r : NodeHealthReconciler) (op : HealthOp) :
    (op.prog r).Ensures NodeNamed op.Issues fun _ => True := by
  cases op with
  | check =>
    refine Ensures.bind_ok (ensures_asked trivial) fun nodes _ => ?_
    refine ensures_ask_bind.mpr ⟨trivial, fun t _ => ?_⟩
    exact issues_markLoop _ nodes
  | heartbeat req =>
    refine Ensures.bind (Φ := fun _ => True) ?_ fun _ _ => trivial
    refine Ensures.bind_ok (ensures_asked trivial) fun n hx => ?_
    refine ensures_ask_bind.mpr ⟨trivial, fun t _ => ?_⟩
    refine ensures_ask_bind.mpr ⟨⟨hx.symm, fun _ => rfl⟩, fun y _ => ?_⟩
    cases y <;> trivial

/-- A pass puts back, as not ready, a node of its listing that is older than the cutoff of the time
it was told. -/
def MarksListed (r : NodeHealthReconciler) (h : List (Prog.Done ClockCmd ClockCmd.Answer)) :
    ClockCmd → Prop
  | .reg (.put .nodes ns name n') => ∃ nodes t n,
      Prog.lastSeen listedNodes h = some nodes ∧ Prog.lastSeen toldTime h = some t ∧ n ∈ nodes ∧
        path ns name = n.getMetadata.name ∧ n' = notReady n ∧
          n.getStatus.lastHeartbeatUnix < r.cutoff t
  | _ => True

/-- The loop puts nodes of the listing; a put shows neither a listing nor the time. -/
theorem along_markLoop (r : NodeHealthReconciler) {all : List Node} {t : Time} :
    ∀ {nodes h}, (∀ n ∈ nodes, n ∈ all) → Prog.lastSeen listedNodes h = some all →
      Prog.lastSeen toldTime h = some t →
        (markLoop (r.cutoff t) nodes).Along (MarksListed r) h
  | [], _, _, _, _ => trivial
  | n :: nodes, h, hall, hl, ht => by
    obtain ⟨hn, hnodes⟩ := List.forall_mem_cons.mp hall
    rw [markLoop]
    split
    · exact along_markLoop r hnodes hl ht
    · split
      · exact along_markLoop r hnodes hl ht
      · next hold =>
        refine along_ask_bind.mpr ⟨?_, fun x => along_markLoop r hnodes hl ht⟩
        exact ⟨all, t, n, hl, ht, hn, rfl, rfl, Int64.not_le.mp hold⟩

theorem along_checkAll (r : NodeHealthReconciler) : r.checkAll.Along (MarksListed r) [] := by
  refine along_ask_bind.mpr ⟨trivial, fun x => ?_⟩
  rcases x with e | nodes
  · trivial
  refine along_ask_bind.mpr ⟨trivial, fun t => ?_⟩
  exact along_markLoop r (fun _ hn => hn) rfl rfl

theorem along_healthOp (r : NodeHealthReconciler) (op : HealthOp) :
    (op.prog r).Along (fun h c => op.Checks = true → MarksListed r h c) [] := by
  cases op with
  | check => exact Along.mono (fun _ _ h _ => h) (along_checkAll r)
  | heartbeat req => exact along_of_forall (fun _ _ h => by cases h) _ _

/-! ### One call -/

section

variable {c : ClockCmd} {x : c.Answer} {t t' : Timed}

theorem put_of_storesNode {name : String} {n : Node} (h : storesNode c x = some (name, n)) :
    ∃ ns name', path ns name' = name ∧ c = .reg (.put .nodes ns name' n) := by
  rcases c with (_ | ⟨k, ns, name', obj⟩ | _ | _) | _ <;> try cases h
  cases k <;> cases x <;> try cases h
  exact ⟨ns, name', rfl, rfl⟩

theorem nodeNamed_of_clocked (ht : NodesNamed t.store) (h : clocked c t x t') : NodeNamed c x := by
  rcases c with (⟨k, ns, name⟩ | _ | _ | _) | _ <;> try trivial
  cases k <;> cases x <;> try trivial
  exact ht _ _ (lookup_of_get h.2)

theorem NodesNamed.clocked {op : HealthOp} (hc : op.Issues c) (ht : NodesNamed t.store)
    (h : clocked c t x t') : NodesNamed t'.store := by
  cases c with
  | now => rw [h.2.1]; exact ht
  | reg c =>
    refine NodesNamed.step ht ?_ h.2
    rcases c with _ | ⟨k, ns, name, obj⟩ | _ | _ <;> try trivial
    cases k <;> try trivial
    exact hc.1

/-- **What a call leaves under a name** is the node it stores there, or what there was. -/
theorem nodeAt_clocked {op : HealthOp} (hc : op.Issues c) (h : clocked c t x t') (name : String) :
    (∃ n, storesNode c x = some (name, n) ∧ nodeAt name t' = some n) ∨
      (∀ n, storesNode c x ≠ some (name, n)) ∧ nodeAt name t' = nodeAt name t := by
  cases c with
  | now =>
    refine .inr ⟨fun n hn => ?_, ?_⟩
    · cases hn
    · rw [nodeAt, h.2.1, nodeAt]
  | reg c =>
    rw [nodeAt, serveOrFail_post h.2, lookup_effect, nodeAt]
    rcases hw : c.writesAt .nodes name x with _ | _ | n
    · refine .inr ⟨fun n hn => ?_, rfl⟩
      obtain ⟨ns, name', rfl, hc'⟩ := put_of_storesNode hn
      cases hc'
      cases x with
      | error e => cases hn
      | ok _ => simp [Cmd.writesAt] at hw
    · obtain ⟨ns, name', -, rfl⟩ := delete_of_writesAt hw
      exact absurd hc id
    · obtain ⟨ns, name', rfl, rfl⟩ := put_of_writesAt hw
      refine .inl ⟨n, ?_, rfl⟩
      cases x with
      | error e => cases hw
      | ok _ => rfl

/-- What is listed is stored under its name. -/
theorem nodeAt_of_listed (ht : NodesNamed t.store) (h : clocked c t x t') {nodes : List Node}
    (hl : listedNodes c x = some nodes) {n : Node} (hn : n ∈ nodes) :
    nodeAt n.getMetadata.name t' = some n := by
  rcases c with (_ | _ | _ | ⟨k, ns⟩) | _ <;> try cases hl
  cases k <;> cases x <;> try cases hl
  obtain ⟨p, -, hp⟩ := (mem_of_list h.2).mp hn
  have hpost := serveOrFail_post h.2
  simp only [Cmd.effect] at hpost
  rw [nodeAt, hpost, ht p n hp]
  exact hp

end

/-! ### The interleavings -/

section

variable {ι : Type} [DecidableEq ι] {ops : ι → HealthOp} {r : NodeHealthReconciler}

/-- The listing still has the last heartbeat of the node. -/
def UpToDate (name : String) (nodes : List Node) (t : Timed) : Prop :=
  ∀ n ∈ nodes, n.getMetadata.name = name → ∃ cur, nodeAt name t = some cur ∧
    cur.getStatus.lastHeartbeatUnix = n.getStatus.lastHeartbeatUnix

/-- What holds along the run: a pass knows the heartbeats it has listed and a time that has been,
and every step so far was as it should be. -/
structure Spared (r : NodeHealthReconciler) (ops : ι → HealthOp) (tr : List (HealthStep ι))
    (t : Timed) : Prop where
  knows : ∀ i name, Prog.Knows (UpToDate name) listedNodes (Beats ops name) i tr t
  told : ∀ i, Prog.Knows (fun t₀ t => ∃ s : Timed, s.now = t₀ ∧ s.now ≤ t.now) toldTime
    (fun _ => False) i tr t
  spared : ∀ e ∈ tr, SparesLive r e ∧ ((ops e.who).Checks = true → KeepsHeartbeats e)

/-- **What a pass puts back** has the heartbeat that is stored, and that one is too old. -/
theorem Spared.marked {tr : List (HealthStep ι)} {e : HealthStep ι} (hs : Spared r ops tr e.pre)
    (he : clocked e.cmd e.pre e.answer e.post) (hm : MarksListed r (Prog.history e.who tr) e.cmd)
    {name : String} {n' : Node} (hst : storesNode e.cmd e.answer = some (name, n'))
    (hu : Prog.Undisturbed (Prog.Shows listedNodes e.who) (Beats ops name) tr) :
    ∃ n, nodeAt name e.pre = some n ∧
      n.getStatus.lastHeartbeatUnix = n'.getStatus.lastHeartbeatUnix ∧
      n.getStatus.lastHeartbeatUnix < r.cutoff e.post.now := by
  rcases e with ⟨i, c, x, t, t'⟩
  obtain ⟨ns, name', rfl, rfl⟩ := put_of_storesNode hst
  obtain ⟨nodes, t₀, n, hl, ht₀, hn, hname, rfl, hold⟩ := hm
  obtain ⟨cur, hcur, hbeat⟩ := hs.knows i _ hu nodes hl n hn hname.symm
  obtain ⟨s, rfl, hle⟩ := hs.told i (Prog.undisturbed_of_forall (fun _ h => h) tr) t₀ ht₀
  refine ⟨cur, hcur, by simpa using hbeat, ?_⟩
  rw [hbeat]
  exact Int64.lt_of_lt_of_le hold (r.cutoff_mono (hle.trans (now_le_of_clocked he)))

/-- **One step.** -/
theorem Spared.step {tr : List (HealthStep ι)} {e : HealthStep ι} (hs : Spared r ops tr e.pre)
    (hn : NodesNamed e.pre.store) (he : clocked e.cmd e.pre e.answer e.post)
    (hc : (ops e.who).Issues e.cmd)
    (hm : (ops e.who).Checks = true → MarksListed r (Prog.history e.who tr) e.cmd)
    (hg : (ops e.who).Checks = true → ∀ w ∈ storesNode e.cmd e.answer,
      Prog.Undisturbed (Prog.Shows listedNodes e.who) (Beats ops w.1) tr) :
    Spared r ops (e :: tr) e.post := by
  have hmarked : (ops e.who).Checks = true → ∀ name n',
      storesNode e.cmd e.answer = some (name, n') → ∃ n, nodeAt name e.pre = some n ∧
        n.getStatus.lastHeartbeatUnix = n'.getStatus.lastHeartbeatUnix ∧
        n.getStatus.lastHeartbeatUnix < r.cutoff e.post.now :=
    fun hi name n' hst => hs.marked he (hm hi) hst (hg hi _ hst)
  -- a step that is no heartbeat of a node keeps its last one
  have hkeep : ∀ name n, ¬ Beats ops name e → nodeAt name e.pre = some n →
      ∃ n', nodeAt name e.post = some n' ∧
        n'.getStatus.lastHeartbeatUnix = n.getStatus.lastHeartbeatUnix := by
    intro name n hb hpre
    rcases nodeAt_clocked hc he name with ⟨n', hst, hpost⟩ | ⟨-, hpost⟩
    · have hi : (ops e.who).Checks = true := by
        by_contra hi
        exact hb ⟨by simpa using hi, _, hst, rfl⟩
      obtain ⟨n₀, hn₀, hbeat, -⟩ := hmarked hi name n' hst
      rw [hpre] at hn₀
      cases hn₀
      exact ⟨n', hpost, hbeat.symm⟩
    · exact ⟨n, hpost.trans hpre, rfl⟩
  refine ⟨fun i name => (hs.knows i name).step ?_ ?_, fun i => (hs.told i).step ?_ ?_, ?_⟩
  · rintro nodes hl n hmem rfl
    exact ⟨n, nodeAt_of_listed hn he hl hmem, rfl⟩
  · intro hb nodes hup n hmem hname
    obtain ⟨cur, hcur, hbeat⟩ := hup n hmem hname
    obtain ⟨n', hn', hbeat'⟩ := hkeep name cur hb hcur
    exact ⟨n', hn', hbeat'.trans hbeat⟩
  · intro t₀ ht₀
    rcases e with ⟨i, c | _, x, t, t'⟩
    · cases ht₀
    · cases ht₀
      exact ⟨t', he.2.2.symm, le_refl _⟩
  · rintro - t₀ ⟨s, hs₀, hle⟩
    exact ⟨s, hs₀, hle.trans (now_le_of_clocked he)⟩
  · intro e' he'
    rcases List.mem_cons.mp he' with rfl | he'
    · refine ⟨?_, fun hi name n hpre => ?_⟩
      · intro name n n' hpre hlive hst
        by_cases hi : (ops e'.who).Checks = true
        · obtain ⟨n₀, hn₀, -, hold⟩ := hmarked hi name n' hst
          rw [hpre] at hn₀
          cases hn₀
          exact absurd hlive (Int64.not_le.mpr hold)
        · rcases e' with ⟨i, c, x, t, t'⟩
          obtain ⟨ns, name', -, rfl⟩ := put_of_storesNode hst
          exact hc.2 (by simpa using hi)
      · obtain ⟨n', hn', hbeat⟩ := hkeep name n (fun hb => by rw [hb.1] at hi; cases hi) hpre
        exact ⟨n', hn', by rw [hbeat]; exact Int64.le_refl _⟩
    · exact hs.spared e' he'

/-- **A live node is never marked**, and no pass takes a heartbeat back, when no heartbeat of a node
is stored between the listing of a pass and its put of the node.  Nodes are stored under their own
names, as `CreateNode` stores them. -/
theorem live_node_spared {s : Timed} (hs : NodesNamed s.store) {tr : List (HealthStep ι)}
    {Q : ι → Clocked Unit} {t : Timed}
    (h : Prog.Interleaves (Unbeaten ops) clocked (fun i => (ops i).prog r) s tr Q t) :
    ∀ e ∈ tr, SparesLive r e ∧ ((ops e.who).Checks = true → KeepsHeartbeats e) := by
  have hspared : Spared r ops tr t := by
    refine h.invariant (I := fun tr _ t => Spared r ops tr t)
      ⟨fun _ _ => Prog.knows_nil, fun _ => Prog.knows_nil, fun e he => by cases he⟩ ?_
    intro tr Q t i c k x t' h hsp hQ hH hG
    obtain ⟨hn, hens⟩ := h.ensures (I := fun t => NodesNamed t.store)
      (fun c t x t' ht hH => nodeNamed_of_clocked ht hH)
      (fun i c hc t x t' ht hH => NodesNamed.clocked hc ht hH) (fun i => issues_prog r (ops i)) hs
    have hc := hens i
    rw [hQ] at hc
    exact hsp.step hn hH hc.1 (h.along_next (fun i => along_healthOp r (ops i)) hQ) hG
  exact hspared.spared

end

/-! ### A heartbeat in the gap -/

/-- One pass and one heartbeat. -/
inductive Party where
  | controller
  | agent
  deriving DecidableEq

/-- The agent of node `n1` sends a heartbeat. -/
def passAndBeat : Party → HealthOp
  | .controller => .check
  | .agent => .heartbeat { name := "n1" }

/-- A node that is ready, and was last heard of in 1970. -/
def silentNode : Node :=
  { metadata := some { name := "n1" }
    status := some { ready := true } }

/-- The node, at a hundred seconds. -/
def silentFor : Timed where
  store := State.empty.set .nodes (Finmap.singleton "n1" silentNode)
  now := 100000000000
  since := by decide
  fits := by decide

theorem nodesNamed_silentFor : NodesNamed silentFor.store := by
  intro name n hn
  simp only [silentFor, State.set_self, Finmap.lookup_singleton_iff] at hn
  rw [hn.1, hn.2]
  rfl

/-- The node and a second one, of which nothing is heard. -/
def twoSilent : Timed where
  store := State.empty.set .nodes ((Finmap.singleton "n1" silentNode).insert "n2"
    { silentNode with metadata := some { name := "n2" } })
  now := 100000000000
  since := by decide
  fits := by decide

/-- The heartbeat first, and then the pass. -/
def beatThenCheck : List (Party × List String) :=
  [(.agent, []), (.agent, []), (.agent, []), (.controller, ["n1", "n2"]), (.controller, []),
    (.controller, [])]

/-- The second node is marked, and the one that was heard of is not. -/
theorem live_node_spared_sample :
    ∃ tr Q t, Prog.Interleaves (Unbeaten passAndBeat) clocked
        (fun i => (passAndBeat i).prog (newNodeHealthReconciler 0 0)) twoSilent tr Q t ∧
      (((Q .controller).result = some () ∧ (Q .agent).result = some ()) ∧
        ((t.store .nodes).lookup "n1").map (·.getStatus.ready) = some true ∧
        ((t.store .nodes).lookup "n2").map (·.getStatus.ready) = some false) ∧
      ∀ e ∈ tr, SparesLive (newNodeHealthReconciler 0 0) e ∧
        ((passAndBeat e.who).Checks = true → KeepsHeartbeats e) := by
  have hnamed : NodesNamed twoSilent.store := by
    unfold NodesNamed
    decide
  obtain ⟨tr, Q, t, h, hQ⟩ := exists_of_play (G := Unbeaten passAndBeat)
    (P := fun i => (passAndBeat i).prog (newNodeHealthReconciler 0 0)) (s := twoSilent)
    (T := fun r => ((r.progs .controller).result = some () ∧ (r.progs .agent).result = some ()) ∧
      ((r.state.store .nodes).lookup "n1").map (·.getStatus.ready) = some true ∧
      ((r.state.store .nodes).lookup "n2").map (·.getStatus.ready) = some false)
    clocked_of_resolveStill beatThenCheck (by decide)
  exact ⟨tr, Q, t, h, hQ, live_node_spared hnamed h⟩

/-- The heartbeat between the listing of the pass and its put. -/
def beatInTheGap : List (Party × List String) :=
  [(.controller, ["n1"]), (.controller, []), (.agent, []), (.agent, []), (.agent, []),
    (.controller, [])]

/-- **A live node is marked.**  The heartbeat is stored at a hundred seconds; the pass then replaces
the node by one that is not ready, and takes the heartbeat back. -/
theorem live_node_marked :
    NodesNamed silentFor.store ∧
    ∃ tr Q t, Prog.Interleaves Prog.unguarded clocked
        (fun i => (passAndBeat i).prog (newNodeHealthReconciler 0 0)) silentFor tr Q t ∧
      ((Q .controller).result = some () ∧ (Q .agent).result = some ()) ∧
      ∃ e ∈ tr, ¬ SparesLive (newNodeHealthReconciler 0 0) e ∧
        (passAndBeat e.who).Checks = true ∧ ¬ KeepsHeartbeats e := by
  refine ⟨nodesNamed_silentFor, ?_⟩
  obtain ⟨tr, Q, t, h, hQ, e, he, hi, n, hpre, hlive, n', hpost, hst, hdead, hlower⟩ :=
    exists_of_play (G := Prog.unguarded)
      (P := fun i => (passAndBeat i).prog (newNodeHealthReconciler 0 0)) (s := silentFor)
      (T := fun r => ((r.progs .controller).result = some () ∧ (r.progs .agent).result = some ()) ∧
        ∃ e ∈ r.trace, (passAndBeat e.who).Checks = true ∧ ∃ n ∈ nodeAt "n1" e.pre,
          (newNodeHealthReconciler 0 0).cutoff e.post.now ≤ n.getStatus.lastHeartbeatUnix ∧
          ∃ n' ∈ nodeAt "n1" e.post, storesNode e.cmd e.answer = some ("n1", n') ∧
            n'.getStatus.ready = false ∧
            n'.getStatus.lastHeartbeatUnix < n.getStatus.lastHeartbeatUnix)
      clocked_of_resolveStill beatInTheGap (by decide)
  refine ⟨tr, Q, t, h, hQ, e, he, fun hs => ?_, hi, fun hk => ?_⟩
  · have := hs "n1" n n' hpre hlive hst
    rw [hdead] at this
    cases this
  · obtain ⟨n₁, hn₁, hle⟩ := hk "n1" n hpre
    rw [Option.mem_def.mp hpost] at hn₁
    cases hn₁
    exact Int64.not_le.mpr hlower hle

end NimbusCore.Controller
