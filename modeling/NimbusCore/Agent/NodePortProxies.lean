import NimbusCore.Api.Messages

/-!
# Agent — the proxies of the node ports

`internal/agent/nodeport.go`.  An agent keeps a listener for each node port of a service that has an
endpoint on its node, and forwards what comes in to the target on the node.  `reconcile` computes
the ports that should be there, starts what is missing, replaces what goes to another target, and
stops what is left over.

A listener is a number, given out in turn; what has been closed is remembered.  A proxy's `cancel`
is called with its listener's `Close` and goes with it.  Whether `net.Listen` succeeds is given port
by port: a port is asked for once in a call at most.  The two loops go over maps, in any order.

* `Proxies.Sound`: the listeners that are open are those of the active proxies, each at one port.  A
  `NodePortManager` carries it, and every operation keeps it: nothing closed is active, and nothing
  is dropped without being closed.
* `Proxies.Evolves`: what steps of both loops have in common; what leaves the active proxies is
  closed.
* `settles_reconcile`: what becomes of one port (`Settles`).
* `reconcile_correct`: the proxies after a call, that the order of the services does not matter, and
  that a second call changes nothing.
-/

namespace NimbusCore.Agent

open Api List Finmap Option

/-- `portProxy`. -/
structure PortProxy where
  listener : Nat
  target : String
  deriving DecidableEq

/-- The fields of `nodePortManager`, with the listeners: how many were opened, and which of them are
closed. -/
structure Proxies where
  active : Dict Int32 PortProxy := ∅
  opened : Nat := 0
  closed : Finset Nat := ∅
  deriving DecidableEq

/-! ### What should be there -/

/-- `target_port`, or else `port`. -/
def targetPortOf (s : Service) : Int32 :=
  if s.getSpec.targetPort = 0 then s.getSpec.port else s.getSpec.targetPort

/-- The service has a node port, a target and an endpoint on the node. -/
def Wanted (selfIP : String) (s : Service) : Prop :=
  s.getSpec.nodePort ≠ 0 ∧ targetPortOf s ≠ 0 ∧ ∃ ep ∈ s.getStatus.endpoints, ep.nodeIp = selfIP

instance (selfIP : String) (s : Service) : Decidable (Wanted selfIP s) :=
  inferInstanceAs (Decidable (_ ∧ _ ∧ _))

/-- `fmt.Sprintf("127.0.0.1:%d", targetPort)`. -/
def targetOf (s : Service) : String := "127.0.0.1:" ++ toString (targetPortOf s)

/-- The loop over the services. -/
def desiredLoop (selfIP : String) : List Service → Dict Int32 String → Dict Int32 String
  | [], desired => desired
  | s :: services, desired =>
    if Wanted selfIP s then
      desiredLoop selfIP services (desired.insert s.getSpec.nodePort (targetOf s))
    else desiredLoop selfIP services desired

/-- The map `desired`. -/
def desiredPorts (selfIP : String) (services : List Service) : Dict Int32 String :=
  desiredLoop selfIP services ∅

/-- What a service asks for. -/
def entryOf (selfIP : String) (s : Service) : Option (Int32 × String) :=
  if Wanted selfIP s then some (s.getSpec.nodePort, targetOf s) else none

variable {services : List Service}

theorem mem_filterMap_entryOf {selfIP : String} {port : Int32} {target : String} :
    (port, target) ∈ services.filterMap (entryOf selfIP) ↔
      ∃ s ∈ services, Wanted selfIP s ∧ s.getSpec.nodePort = port ∧ targetOf s = target := by
  simp only [mem_filterMap, entryOf]
  refine exists_congr fun s => and_congr_right fun _ => ?_
  by_cases hw : Wanted selfIP s
  · simp [hw]
  · simp [hw]

theorem desiredLoop_eq (selfIP : String) :
    ∀ (services : List Service) (desired : Dict Int32 String),
    desiredLoop selfIP services desired = desired.insertAll (services.filterMap (entryOf selfIP))
  | [], _ => rfl
  | s :: services, desired => by
    rw [desiredLoop]
    split
    · next hw =>
      have he : entryOf selfIP s = some (s.getSpec.nodePort, targetOf s) := if_pos hw
      rw [filterMap_cons_some he, Finmap.insertAll_cons, desiredLoop_eq]
    · next hw =>
      have he : entryOf selfIP s = none := if_neg hw
      rw [filterMap_cons_none he, desiredLoop_eq]

/-- No two services have one node port. -/
def DistinctPorts (services : List Service) : Prop :=
  services.Pairwise fun s s' => s.getSpec.nodePort ≠ 0 → s.getSpec.nodePort ≠ s'.getSpec.nodePort

theorem DistinctPorts.nodup (h : DistinctPorts services) (selfIP : String) :
    ((services.filterMap (entryOf selfIP)).map Prod.fst).Nodup := by
  rw [List.Nodup, pairwise_map]
  refine List.Pairwise.filterMap _ (fun s s' hne e he e' he' => ?_) h
  have hentry : ∀ {s : Service} {e : Int32 × String}, entryOf selfIP s = some e →
      Wanted selfIP s ∧ e.1 = s.getSpec.nodePort := fun {s e} h => by
    rw [entryOf] at h
    split at h
    · next hw => exact ⟨hw, by cases h; rfl⟩
    · cases h
  obtain ⟨hw, he⟩ := hentry he
  obtain ⟨-, he'⟩ := hentry he'
  rw [he, he']
  exact hne hw.1

/-- **What is desired.** -/
theorem lookup_desiredPorts (h : DistinctPorts services) {selfIP : String}
    {port : Int32} {target : String} :
    (desiredPorts selfIP services).lookup port = some target ↔
      ∃ s ∈ services, Wanted selfIP s ∧ s.getSpec.nodePort = port ∧ targetOf s = target := by
  rw [desiredPorts, desiredLoop_eq, ← mem_filterMap_entryOf]
  constructor
  · intro hl
    exact (Finmap.mem_of_lookup_insertAll hl).resolve_right (by simp)
  · exact Finmap.lookup_insertAll_of_mem _ (h.nodup selfIP)

theorem desiredPorts_perm {services services' : List Service} (h : DistinctPorts services)
    (hp : services.Perm services') (selfIP : String) :
    desiredPorts selfIP services' = desiredPorts selfIP services := by
  have h' : DistinctPorts services' := by
    refine List.Pairwise.perm h hp fun {s s'} hne => ?_
    exact fun h0 he => hne (he ▸ h0) he.symm
  refine ext_lookup fun port => Option.ext fun target => ?_
  rw [lookup_desiredPorts h, lookup_desiredPorts h']
  simp only [hp.mem_iff]

/-! ### The loops -/

namespace Proxies

/-- `p.cancel()`, `p.listener.Close()` and `delete(m.active, port)`. -/
def stop (st : Proxies) (port : Int32) (p : PortProxy) : Proxies :=
  { st with active := st.active.erase port, closed := insert p.listener st.closed }

/-- `startPortProxy`, and its result in `m.active`. -/
def start (listens : Int32 → Bool) (st : Proxies) (port : Int32) (target : String) : Proxies :=
  if listens port then
    { st with active := st.active.insert port ⟨st.opened, target⟩, opened := st.opened + 1 }
  else st

/-- The body of the loop over `desired`. -/
def startStep (listens : Int32 → Bool) (st : Proxies) (e : Int32 × String) : Proxies :=
  match st.active.lookup e.1 with
  | some existing =>
    if existing.target = e.2 then st else (st.stop e.1 existing).start listens e.1 e.2
  | none => st.start listens e.1 e.2

/-- The body of the loop over `m.active`. -/
def stopStep (desired : Dict Int32 String) (st : Proxies) (e : Int32 × PortProxy) : Proxies :=
  if e.1 ∈ desired then st else st.stop e.1 e.2

/-- `reconcile` up to the loop over `m.active`; the other loop goes in the given order. -/
def started (listens : Int32 → Bool) (desired : Dict Int32 String) (order : List Int32)
    (st : Proxies) : Proxies :=
  (desired.range order).foldl (startStep listens) st

/-- The loop over `m.active`, in the given order. -/
def pruned (desired : Dict Int32 String) (order : List Int32) (st : Proxies) : Proxies :=
  (st.active.range order).foldl (stopStep desired) st

/-- The loop of `stopAll`, in the given order. -/
def stopAll (order : List Int32) (st : Proxies) : Proxies :=
  (st.active.range order).foldl (fun st e => st.stop e.1 e.2) st

/-! ### The invariant -/

/-- The open listeners are those of the active proxies, and no two ports share one. -/
structure Sound (st : Proxies) : Prop where
  opened : ∀ port p, st.active.lookup port = some p → p.listener < st.opened
  isOpen : ∀ port p, st.active.lookup port = some p → p.listener ∉ st.closed
  own : ∀ port port' p p', st.active.lookup port = some p → st.active.lookup port' = some p' →
    p.listener = p'.listener → port = port'
  closed : ∀ h ∈ st.closed, h < st.opened
  kept : ∀ h < st.opened, h ∉ st.closed → ∃ port p, st.active.lookup port = some p ∧ p.listener = h

variable {st st' st'' : Proxies} {port : Int32} {p : PortProxy} {listens : Int32 → Bool}
  {target : String} {new : Option String}

theorem sound_empty : Sound {} where
  opened := fun port p h => by simp at h
  isOpen := fun port p h => by simp at h
  own := fun port port' p p' h => by simp at h
  closed := fun h hh => by simp at hh
  kept := fun h hh => by simp at hh

/-- Both loops do this to a port: what is there is closed, and what is new takes its place. -/
def put (st : Proxies) (port : Int32) (new : Option String) : Proxies where
  active := new.elim (st.active.erase port) fun target => st.active.insert port ⟨st.opened, target⟩
  opened := st.opened + new.elim 0 fun _ => 1
  closed := st.closed ∪ (st.active.lookup port).elim ∅ fun p => {p.listener}

theorem lookup_put (port' : Int32) : (st.put port new).active.lookup port' =
    if port' = port then new.map (⟨st.opened, ·⟩) else st.active.lookup port' := by
  cases new with
  | none => exact Finmap.lookup_erase_eq ..
  | some target => exact Finmap.lookup_insert_eq ..

theorem mem_closed_put {l : Nat} : l ∈ (st.put port new).closed ↔
    l ∈ st.closed ∨ ∃ p, st.active.lookup port = some p ∧ p.listener = l := by
  simp only [put, Finset.mem_union]
  cases st.active.lookup port <;> simp [eq_comm]

theorem stop_eq_put (hp : st.active.lookup port = some p) : st.stop port p = st.put port none := by
  simp [stop, put, hp, Finset.union_singleton]

theorem start_eq_put (hn : st.active.lookup port = none) :
    st.start listens port target = st.put port (if listens port then some target else none) := by
  rw [start]
  split
  · simp [put, hn]
  · have herase : st.active.erase port = st.active := ext_lookup fun port' => by
      rw [Finmap.lookup_erase_eq]
      split
      · next he => rw [he, hn]
      · rfl
    simp [put, hn, herase]

theorem restart_eq_put (hp : st.active.lookup port = some p) :
    (st.stop port p).start listens port target =
      st.put port (if listens port then some target else none) := by
  rw [start]
  split
  · have hinsert : ∀ q, (st.active.erase port).insert port q = st.active.insert port q := fun q =>
      ext_lookup fun port' => by
        simp only [Finmap.lookup_insert_eq, Finmap.lookup_erase_eq]
        split <;> rfl
    simp [stop, put, hp, hinsert, Finset.union_singleton]
  · exact stop_eq_put hp

/-- What leaves the active proxies is closed, and nothing is opened again. -/
structure Evolves (st st' : Proxies) : Prop where
  sound : st'.Sound
  opened : st.opened ≤ st'.opened
  closed : st.closed ⊆ st'.closed
  gone : ∀ port p, st.active.lookup port = some p → st'.active.lookup port ≠ some p →
    p.listener ∈ st'.closed

theorem Evolves.refl (h : st.Sound) : Evolves st st :=
  ⟨h, le_refl _, fun _ hl => hl, fun _ _ hp hne => absurd hp hne⟩

theorem Evolves.trans (h : Evolves st st') (h' : Evolves st' st'') : Evolves st st'' := by
  refine ⟨h'.sound, h.opened.trans h'.opened, fun l hl => h'.closed (h.closed hl),
    fun port p hp hne => ?_⟩
  by_cases hmid : st'.active.lookup port = some p
  · exact h'.gone port p hmid hne
  · exact h'.closed (h.gone port p hp hmid)

theorem Sound.put (h : st.Sound) (port : Int32) (new : Option String) :
    (st.put port new).Sound := by
  -- an active proxy is the new one or was active before
  have hcases : ∀ port' q, (st.put port new).active.lookup port' = some q →
      port' = port ∧ q.listener = st.opened ∧ (st.put port new).opened = st.opened + 1 ∨
        port' ≠ port ∧ st.active.lookup port' = some q := by
    intro port' q hq
    rw [lookup_put] at hq
    split at hq
    · next he =>
      obtain ⟨target, rfl, rfl⟩ := map_eq_some_iff.mp hq
      exact .inl ⟨he, rfl, rfl⟩
    · next hne => exact .inr ⟨hne, hq⟩
  have hle : st.opened ≤ (st.put port new).opened := Nat.le_add_right ..
  have hold : ∀ l ∈ (st.put port new).closed, l < st.opened := by
    intro l hl
    rcases mem_closed_put.mp hl with hl | ⟨p, hp, rfl⟩
    · exact h.closed l hl
    · exact h.opened port p hp
  refine ⟨fun port' q hq => ?_, fun port' q hq hc => ?_, fun port₁ port₂ q₁ q₂ h₁ h₂ he => ?_,
    fun l hl => (hold l hl).trans_le hle, fun l hl hopen => ?_⟩
  · rcases hcases port' q hq with ⟨-, hnew, hopened⟩ | ⟨-, hq⟩
    · omega
    · exact (h.opened port' q hq).trans_le hle
  · rcases hcases port' q hq with ⟨-, hnew, -⟩ | ⟨hne, hq⟩
    · exact absurd (hold _ hc) (by omega)
    · rcases mem_closed_put.mp hc with hc | ⟨p, hp, he⟩
      · exact h.isOpen port' q hq hc
      · exact hne (h.own port' port q p hq hp he.symm)
  · rcases hcases port₁ q₁ h₁ with ⟨rfl, hnew₁, -⟩ | ⟨-, hq₁⟩ <;>
      rcases hcases port₂ q₂ h₂ with ⟨rfl, hnew₂, -⟩ | ⟨-, hq₂⟩
    · rfl
    · exact absurd (h.opened port₂ q₂ hq₂) (by omega)
    · exact absurd (h.opened port₁ q₁ hq₁) (by omega)
    · exact h.own port₁ port₂ q₁ q₂ hq₁ hq₂ he
  · rw [mem_closed_put, not_or] at hopen
    by_cases hlt : l < st.opened
    · obtain ⟨port', q, hq, rfl⟩ := h.kept l hlt hopen.1
      refine ⟨port', q, ?_, rfl⟩
      rw [lookup_put, if_neg, hq]
      rintro rfl
      exact hopen.2 ⟨q, hq, rfl⟩
    · -- the listener is the new one
      rcases new with _ | target
      · exact absurd hl hlt
      refine ⟨port, _, by rw [lookup_put, if_pos rfl]; rfl, ?_⟩
      have hl' : l < st.opened + 1 := hl
      exact (Nat.eq_of_lt_succ_of_not_lt hl' hlt).symm

theorem evolves_put (h : st.Sound) (port : Int32) (new : Option String) :
    Evolves st (st.put port new) := by
  refine ⟨h.put port new, Nat.le_add_right .., fun l hl => mem_closed_put.mpr (.inl hl),
    fun port' q hq hne => mem_closed_put.mpr (.inr ?_)⟩
  rw [lookup_put] at hne
  split at hne
  · next he => exact ⟨q, he ▸ hq, rfl⟩
  · exact absurd hq hne

/-! ### Starting -/

/-- What becomes of a port that should go to a target.  The proxy that goes there is kept; without
one, a new one is started, if listening succeeds. -/
def Settles (listens : Bool) (bound : Nat) (target : String) (old new : Option PortProxy) : Prop :=
  if old.map PortProxy.target = some target then new = old
  else new.map PortProxy.target = (if listens then some target else none) ∧
    ∀ p, new = some p → bound ≤ p.listener

section

variable {bound : Nat} {succeeds : Bool} {old q q' : Option PortProxy}

theorem Settles.mono {bound' : Nat} (hb : bound' ≤ bound)
    (h : Settles succeeds bound target old q) : Settles succeeds bound' target old q := by
  rw [Settles] at h ⊢
  split
  · next hold => rwa [if_pos hold] at h
  · next hold =>
    rw [if_neg hold] at h
    exact ⟨h.1, fun p hp => hb.trans (h.2 p hp)⟩

/-- What a port settles to differs in the listener only. -/
theorem Settles.target_eq (h : Settles succeeds bound target old q) :
    q.map PortProxy.target =
      if old.map PortProxy.target = some target ∨ succeeds = true then some target else none := by
  rw [Settles] at h
  split at h
  · next hold => rw [h, hold, if_pos (.inl rfl)]
  · next hold => rw [h.1]; simp [hold]

/-- The proxy that was there stays exactly if it goes to the target. -/
theorem Settles.stays_iff (h : Settles succeeds bound target (some p) q) (hb : p.listener < bound) :
    q = some p ↔ p.target = target := by
  simp only [Settles, map_some, some_inj] at h
  split at h
  · next hold => exact iff_of_true h hold
  · next hold => exact iff_of_false (fun hq => absurd hb (Nat.not_lt.mpr (h.2 p hq))) hold

end

theorem startStep_eq (listens : Int32 → Bool) (st : Proxies) (e : Int32 × String) :
    st.startStep listens e =
      if (st.active.lookup e.1).map PortProxy.target = some e.2 then st
      else st.put e.1 (if listens e.1 then some e.2 else none) := by
  rw [startStep]
  cases hl : st.active.lookup e.1 with
  | none => exact start_eq_put hl
  | some p =>
    simp only [map_some, some_inj]
    rw [restart_eq_put hl]

/-- **One step of the loop that starts** settles its port and leaves the others. -/
theorem startStep_spec (listens : Int32 → Bool) (h : st.Sound) (e : Int32 × String) :
    Evolves st (st.startStep listens e) ∧
      Settles (listens e.1) st.opened e.2 (st.active.lookup e.1)
        ((st.startStep listens e).active.lookup e.1) ∧
      ∀ port ≠ e.1, (st.startStep listens e).active.lookup port = st.active.lookup port := by
  rw [startStep_eq, Settles]
  split
  · exact ⟨.refl h, rfl, fun _ _ => rfl⟩
  · refine ⟨evolves_put h _ _, ⟨?_, fun p hp => ?_⟩, fun port hne => by rw [lookup_put, if_neg hne]⟩
    · rw [lookup_put, if_pos rfl]
      split <;> rfl
    · rw [lookup_put, if_pos rfl] at hp
      obtain ⟨target, -, rfl⟩ := map_eq_some_iff.mp hp
      exact le_refl _

/-- **The loop that starts**, over entries with different ports. -/
theorem foldl_startStep_spec :
    ∀ {es : List (Int32 × String)} {st : Proxies}, st.Sound → (es.map Prod.fst).Nodup →
      Evolves st (es.foldl (startStep listens) st) ∧
      (∀ e ∈ es, Settles (listens e.1) st.opened e.2 (st.active.lookup e.1)
        ((es.foldl (startStep listens) st).active.lookup e.1)) ∧
      ∀ port ∉ es.map Prod.fst,
        (es.foldl (startStep listens) st).active.lookup port = st.active.lookup port
  | [], st, h, _ => ⟨.refl h, by simp, fun _ _ => rfl⟩
  | e :: es, st, h, hn => by
    obtain ⟨hne, hn⟩ := nodup_cons.mp hn
    obtain ⟨hev, hset, hothers⟩ := startStep_spec listens h e
    obtain ⟨hev', hset', hothers'⟩ := foldl_startStep_spec hev.sound hn
    refine ⟨hev.trans hev', fun e' he' => ?_, fun port hport => ?_⟩
    · rcases mem_cons.mp he' with rfl | he'
      · rw [foldl_cons, hothers' _ hne]
        exact hset
      · have hne' : e'.1 ≠ e.1 := fun he => hne (he ▸ mem_map_of_mem he')
        rw [foldl_cons, ← hothers e'.1 hne']
        exact (hset' e' he').mono hev.opened
    · rw [map_cons, mem_cons, not_or] at hport
      rw [foldl_cons, hothers' port hport.2, hothers port hport.1]

section

variable {desired : Dict Int32 String} {order : List Int32} (ho : Finmap.IsOrder order desired)

include ho

theorem evolves_started (h : st.Sound) : Evolves st (st.started listens desired order) :=
  (foldl_startStep_spec h (ho.map_fst_range.symm ▸ ho.1)).1

theorem settles_started (h : st.Sound) (hd : desired.lookup port = some target) :
    Settles (listens port) st.opened target (st.active.lookup port)
      ((st.started listens desired order).active.lookup port) :=
  (foldl_startStep_spec h (ho.map_fst_range.symm ▸ ho.1)).2.1 (port, target) (ho.mem_range.mpr hd)

end

theorem foldl_startStep_eq_self :
    ∀ {es : List (Int32 × String)},
      (∀ e ∈ es, (st.active.lookup e.1).map PortProxy.target = some e.2) →
      es.foldl (startStep listens) st = st
  | [], _ => rfl
  | e :: es, h => by
    obtain ⟨he, hes⟩ := forall_mem_cons.mp h
    rw [foldl_cons, startStep_eq, if_pos he, foldl_startStep_eq_self hes]

/-! ### Stopping -/

variable {desired : Dict Int32 String}

/-- The entries are active, each port once. -/
def Running (st : Proxies) (es : List (Int32 × PortProxy)) : Prop :=
  (es.map Prod.fst).Nodup ∧ ∀ e ∈ es, st.active.lookup e.1 = some e.2

variable {order : List Int32} {es : List (Int32 × PortProxy)}

theorem running_range (ho : Finmap.IsOrder order st.active) :
    st.Running (st.active.range order) :=
  ⟨ho.map_fst_range.symm ▸ ho.1, fun _ he => (Finmap.mem_range.mp he).2⟩

theorem Running.stop {e : Int32 × PortProxy}
    (h : st.Running (e :: es)) : (st.put e.1 none).Running es := by
  obtain ⟨hne, hn⟩ := nodup_cons.mp h.1
  refine ⟨hn, fun e' he' => ?_⟩
  have hne' : e'.1 ≠ e.1 := fun he => hne (he ▸ mem_map_of_mem he')
  rw [lookup_put, if_neg hne']
  exact h.2 e' (mem_cons_of_mem _ he')

theorem Running.tail {e : Int32 × PortProxy} (h : st.Running (e :: es)) : st.Running es :=
  ⟨(nodup_cons.mp h.1).2, fun e' he' => h.2 e' (mem_cons_of_mem _ he')⟩

/-- **The loop that stops**: the ports that are not desired are gone. -/
theorem foldl_stopStep_spec :
    ∀ {es : List (Int32 × PortProxy)} {st : Proxies}, st.Sound → st.Running es →
      Evolves st (es.foldl (stopStep desired) st) ∧
      ∀ port, (es.foldl (stopStep desired) st).active.lookup port =
        if port ∈ es.map Prod.fst ∧ port ∉ desired then none else st.active.lookup port
  | [], st, h, _ => ⟨.refl h, fun port => by simp⟩
  | e :: es, st, h, hrun => by
    rw [foldl_cons, stopStep]
    split
    · next hd =>
      obtain ⟨hev, hlook⟩ := foldl_stopStep_spec h hrun.tail
      refine ⟨hev, fun port => ?_⟩
      rw [hlook, map_cons]
      by_cases he : port = e.1
      · simp only [he, hd, not_true_eq_false, and_false, if_false]
      · simp only [mem_cons, he, false_or]
    · next hd =>
      rw [stop_eq_put (hrun.2 e mem_cons_self)]
      have hput := evolves_put h e.1 none
      obtain ⟨hev, hlook⟩ := foldl_stopStep_spec hput.sound hrun.stop
      refine ⟨hput.trans hev, fun port => ?_⟩
      rw [hlook, lookup_put, map_cons]
      by_cases he : port = e.1
      · simp only [he, if_true, map_none, ite_self, mem_cons, true_or, hd,
          not_false_eq_true, and_self]
      · simp only [mem_cons, he, false_or, if_false]

theorem evolves_pruned (h : st.Sound) (ho : Finmap.IsOrder order st.active) :
    Evolves st (st.pruned desired order) :=
  (foldl_stopStep_spec h (running_range ho)).1

/-- What is left is what was there at the desired ports. -/
theorem lookup_pruned (desired : Dict Int32 String) (h : st.Sound)
    (ho : Finmap.IsOrder order st.active) (port : Int32) :
    (st.pruned desired order).active.lookup port =
      if port ∈ desired then st.active.lookup port else none := by
  rw [pruned, (foldl_stopStep_spec h (running_range ho)).2 port]
  by_cases hd : port ∈ desired
  · rw [if_pos hd, if_neg fun hin => hin.2 hd]
  · rw [if_neg hd]
    split
    · rfl
    · next hin =>
      refine lookup_eq_none.mpr fun hm => hin ⟨?_, hd⟩
      rwa [ho.map_fst_range, ho.mem_iff]

theorem foldl_stopStep_eq_self :
    ∀ {es : List (Int32 × PortProxy)}, (∀ e ∈ es, e.1 ∈ desired) →
      es.foldl (stopStep desired) st = st
  | [], _ => rfl
  | e :: es, h => by
    obtain ⟨he, hes⟩ := forall_mem_cons.mp h
    rw [foldl_cons, stopStep, if_pos he, foldl_stopStep_eq_self hes]

/-- `stopAll` is the loop that stops, with nothing desired. -/
theorem stopAll_eq (order : List Int32) : st.stopAll order = st.pruned ∅ order := by
  have hstep : (fun (st : Proxies) (e : Int32 × PortProxy) => st.stop e.1 e.2) = stopStep ∅ := by
    funext st e
    rw [stopStep, if_neg notMem_empty]
  rw [stopAll, pruned, hstep]

end Proxies

/-! ### The manager -/

/-- `nodePortManager`, with its listeners in order. -/
@[ext] structure NodePortManager where
  proxies : Proxies
  sound : proxies.Sound

namespace NodePortManager

open Proxies

/-- `newNodePortManager`. -/
def new : NodePortManager := ⟨{}, sound_empty⟩

/-- The proxy that is active at a port. -/
def proxyAt (m : NodePortManager) (port : Int32) : Option PortProxy := m.proxies.active.lookup port

/-- `reconcile`, where the loops go in the given orders. -/
def reconcile (m : NodePortManager) (services : List Service) (selfIP : String)
    (listens : Int32 → Bool) (order order' : List Int32)
    (ho : Finmap.IsOrder order (desiredPorts selfIP services))
    (ho' : Finmap.IsOrder order'
      (m.proxies.started listens (desiredPorts selfIP services) order).active) :
    NodePortManager where
  proxies := (m.proxies.started listens (desiredPorts selfIP services) order).pruned
    (desiredPorts selfIP services) order'
  sound := (evolves_pruned (evolves_started ho m.sound).sound ho').sound

/-- `stopAll`, where the loop goes in the given order. -/
def stopAll (m : NodePortManager) (order : List Int32)
    (ho : Finmap.IsOrder order m.proxies.active) : NodePortManager where
  proxies := m.proxies.stopAll order
  sound := by
    rw [stopAll_eq]
    exact (evolves_pruned m.sound ho).sound

/-- After `stopAll` nothing is active, so every listener is closed. -/
theorem closed_of_stopAll (m : NodePortManager) {order : List Int32}
    (ho : Finmap.IsOrder order m.proxies.active) :
    (m.stopAll order ho).proxies.active = ∅ ∧
      ∀ l < (m.stopAll order ho).proxies.opened, l ∈ (m.stopAll order ho).proxies.closed := by
  have hnone : ∀ port, (m.stopAll order ho).proxies.active.lookup port = none := by
    intro port
    change (m.proxies.stopAll order).active.lookup port = none
    rw [stopAll_eq, lookup_pruned ∅ m.sound ho, if_neg notMem_empty]
  refine ⟨ext_lookup fun port => by rw [hnone, lookup_empty], ?_⟩
  intro l hl
  by_contra hopen
  obtain ⟨port, p, hp, -⟩ := (m.stopAll order ho).sound.kept l hl hopen
  rw [hnone] at hp
  cases hp

/-- A call of `reconcile`, in some orders. -/
def Reconciles (m : NodePortManager) (services : List Service) (selfIP : String)
    (listens : Int32 → Bool) (m' : NodePortManager) : Prop :=
  ∃ order order' ho ho', m' = m.reconcile services selfIP listens order order' ho ho'

section

variable {m m' : NodePortManager} {services : List Service} {selfIP : String}
  {listens : Int32 → Bool}

theorem exists_reconciles (m : NodePortManager) (services : List Service) (selfIP : String)
    (listens : Int32 → Bool) : ∃ m', m.Reconciles services selfIP listens m' := by
  obtain ⟨order, ho⟩ := Finmap.exists_isOrder (desiredPorts selfIP services)
  obtain ⟨order', ho'⟩ := Finmap.exists_isOrder
    (m.proxies.started listens (desiredPorts selfIP services) order).active
  exact ⟨_, order, order', ho, ho', rfl⟩

theorem Reconciles.evolves (h : m.Reconciles services selfIP listens m') :
    Evolves m.proxies m'.proxies := by
  obtain ⟨order, order', ho, ho', rfl⟩ := h
  exact (evolves_started ho m.sound).trans (evolves_pruned (evolves_started ho m.sound).sound ho')

/-- **What becomes of a port.** -/
theorem settles_reconcile (h : m.Reconciles services selfIP listens m') (port : Int32) :
    ((desiredPorts selfIP services).lookup port = none → m'.proxyAt port = none) ∧
      ∀ target, (desiredPorts selfIP services).lookup port = some target →
        Settles (listens port) m.proxies.opened target (m.proxyAt port) (m'.proxyAt port) := by
  obtain ⟨order, order', ho, ho', rfl⟩ := h
  have hlook := lookup_pruned (desiredPorts selfIP services) (evolves_started ho m.sound).sound
    ho' port
  refine ⟨fun hnone => ?_, fun target ht => ?_⟩
  · exact hlook.trans (if_neg (lookup_eq_none.mp hnone))
  · have hmem : port ∈ desiredPorts selfIP services := mem_of_lookup_eq_some ht
    have hfinal : (m.reconcile services selfIP listens order order' ho ho').proxyAt port = _ :=
      hlook.trans (if_pos hmem)
    rw [hfinal]
    exact settles_started ho m.sound ht

end

/-- The proxies after a call. -/
structure Reconciled (m : NodePortManager) (services : List Service) (selfIP : String)
    (listens : Int32 → Bool) (m' : NodePortManager) : Prop where
  /-- A port is active only for a service that wants it, and then with its target. -/
  wanted : ∀ port p, m'.proxyAt port = some p →
    ∃ s ∈ services, Wanted selfIP s ∧ s.getSpec.nodePort = port ∧ p.target = targetOf s
  /-- What is wanted is active, if listening succeeded or it was right already. -/
  served : ∀ s ∈ services, Wanted selfIP s →
    (listens s.getSpec.nodePort = true ∨
      ∃ p, m.proxyAt s.getSpec.nodePort = some p ∧ p.target = targetOf s) →
    ∃ p, m'.proxyAt s.getSpec.nodePort = some p ∧ p.target = targetOf s
  /-- What was right already is the same proxy. -/
  kept : ∀ s ∈ services, Wanted selfIP s → ∀ p, m.proxyAt s.getSpec.nodePort = some p →
    p.target = targetOf s → m'.proxyAt s.getSpec.nodePort = some p
  /-- What is removed or replaced is closed. -/
  gone : ∀ port p, m.proxyAt port = some p → m'.proxyAt port ≠ some p →
    p.listener ∈ m'.proxies.closed
  /-- What is closed is not active. -/
  isOpen : ∀ port p, m'.proxyAt port = some p → p.listener ∉ m'.proxies.closed

/-- From one manager, the same ports are active with the same targets, and the same proxies have
stayed. -/
def Agree (m m₁ m₂ : NodePortManager) : Prop :=
  ∀ port, (m₂.proxyAt port).map PortProxy.target = (m₁.proxyAt port).map PortProxy.target ∧
    ∀ p, m.proxyAt port = some p → (m₂.proxyAt port = some p ↔ m₁.proxyAt port = some p)

section

variable {m m' m'' : NodePortManager} {services services' : List Service} {selfIP : String}
  {listens listens' : Int32 → Bool}

theorem reconciled_of_reconciles (hd : DistinctPorts services)
    (h : m.Reconciles services selfIP listens m') : m.Reconciled services selfIP listens m' := by
  have hwants : ∀ s ∈ services, Wanted selfIP s →
      Settles (listens s.getSpec.nodePort) m.proxies.opened (targetOf s)
        (m.proxyAt s.getSpec.nodePort) (m'.proxyAt s.getSpec.nodePort) := fun s hs hw =>
    (settles_reconcile h _).2 _ ((lookup_desiredPorts hd).mpr ⟨s, hs, hw, rfl, rfl⟩)
  refine ⟨fun port p hp => ?_, fun s hs hw hready => ?_, fun s hs hw p hp ht => ?_,
    h.evolves.gone, m'.sound.isOpen⟩
  · cases hdes : (desiredPorts selfIP services).lookup port with
    | none =>
      rw [(settles_reconcile h port).1 hdes] at hp
      cases hp
    | some target =>
      obtain ⟨s, hs, hw, rfl, rfl⟩ := (lookup_desiredPorts hd).mp hdes
      refine ⟨s, hs, hw, rfl, ?_⟩
      have htarget := (hwants s hs hw).target_eq
      rw [hp, map_some] at htarget
      split at htarget
      · exact some_inj.mp htarget
      · cases htarget
  · have htarget := (hwants s hs hw).target_eq
    rw [if_pos] at htarget
    · exact map_eq_some_iff.mp htarget
    · rcases hready with hl | ⟨p, hp, ht⟩
      · exact .inr hl
      · exact .inl (by rw [hp, map_some, ht])
  · have hsettles := hp ▸ hwants s hs hw
    exact (hsettles.stays_iff (m.sound.opened _ p hp)).mpr ht

/-- Whatever the orders are, of the services and of the loops. -/
theorem agree_of_reconciles (hd : DistinctPorts services) (hp : services.Perm services')
    (h : m.Reconciles services selfIP listens m') (h' : m.Reconciles services' selfIP listens m'') :
    Agree m m' m'' := by
  intro port
  have hset := settles_reconcile h port
  have hset' := settles_reconcile h' port
  rw [desiredPorts_perm hd hp] at hset'
  cases hdes : (desiredPorts selfIP services).lookup port with
  | none => rw [hset.1 hdes, hset'.1 hdes]; exact ⟨rfl, fun _ _ => Iff.rfl⟩
  | some target =>
    have hs := hset.2 target hdes
    have hs' := hset'.2 target hdes
    refine ⟨hs'.target_eq.trans hs.target_eq.symm, fun p hp => ?_⟩
    have hb := m.sound.opened port p hp
    rw [hp] at hs hs'
    rw [hs.stays_iff hb, hs'.stays_iff hb]

/-- **What is settled stays as it is.** -/
theorem eq_of_reconciles (hd : DistinctPorts services) (hready : ∀ s ∈ services, Wanted selfIP s →
      ∃ p, m.proxyAt s.getSpec.nodePort = some p ∧ p.target = targetOf s)
    (hwanted : ∀ port p, m.proxyAt port = some p → port ∈ desiredPorts selfIP services)
    (h : m.Reconciles services selfIP listens m') : m' = m := by
  obtain ⟨order, order', ho, ho', rfl⟩ := h
  have hstart : m.proxies.started listens (desiredPorts selfIP services) order = m.proxies := by
    refine foldl_startStep_eq_self fun e he => ?_
    obtain ⟨s, hs, hw, hport, htarget⟩ := (lookup_desiredPorts hd).mp (Finmap.mem_range.mp he).2
    obtain ⟨p, hp, ht⟩ := hready s hs hw
    rw [proxyAt] at hp
    rw [← hport, hp, map_some, ht, htarget]
  refine NodePortManager.ext ?_
  change (m.proxies.started listens (desiredPorts selfIP services) order).pruned
    (desiredPorts selfIP services) order' = m.proxies
  rw [hstart]
  exact foldl_stopStep_eq_self fun e he => hwanted e.1 e.2 (Finmap.mem_range.mp he).2

end

/-- **Reconciling the proxies.**  For services with different node ports, and whatever listening
answers, a call leaves the proxies as `Reconciled` says.  The order of the services makes no
difference, nor do the orders of the loops.  When listening has succeeded wherever it was needed, a
second call with the same services changes nothing at all. -/
theorem reconcile_correct (m : NodePortManager) (services : List Service) (selfIP : String)
    (listens : Int32 → Bool) (hd : DistinctPorts services) :
    (∃ m', m.Reconciles services selfIP listens m') ∧
      ∀ m', m.Reconciles services selfIP listens m' →
        m.Reconciled services selfIP listens m' ∧
        (∀ services' m'', services.Perm services' → m.Reconciles services' selfIP listens m'' →
          Agree m m' m'') ∧
        ((∀ s ∈ services, Wanted selfIP s → listens s.getSpec.nodePort = true ∨
            ∃ p, m.proxyAt s.getSpec.nodePort = some p ∧ p.target = targetOf s) →
          ∀ listens' m'', m'.Reconciles services selfIP listens' m'' → m'' = m') := by
  refine ⟨exists_reconciles m services selfIP listens, fun m' h => ?_⟩
  have hrec := reconciled_of_reconciles hd h
  refine ⟨hrec, fun services' m'' hp h' => agree_of_reconciles hd hp h h',
    fun hl listens' m'' h' => ?_⟩
  refine eq_of_reconciles hd (fun s hs hw => hrec.served s hs hw (hl s hs hw))
    (fun port p hp => ?_) h'
  obtain ⟨s, hs, hw, hport, -⟩ := hrec.wanted port p hp
  exact mem_of_lookup_eq_some ((lookup_desiredPorts hd).mpr ⟨s, hs, hw, hport, rfl⟩)

/-- Services with ports and endpoints of their own. -/
def twoServices : List Service :=
  [{ spec := some { port := 80, targetPort := 8080, nodePort := 30000 }
     status := some { endpoints := [{ nodeIp := "10.0.0.1" }] } },
   { spec := some { port := 90, nodePort := 30001 }
     status := some { endpoints := [{ nodeIp := "10.0.0.2" }] } }]

theorem reconcile_correct_two :
    DistinctPorts twoServices ∧
      ∃ m', new.Reconciles twoServices "10.0.0.1" (fun _ => true) m' ∧
        new.Reconciled twoServices "10.0.0.1" (fun _ => true) m' ∧
        ∀ listens' m'', m'.Reconciles twoServices "10.0.0.1" listens' m'' → m'' = m' := by
  have hd : DistinctPorts twoServices := by
    unfold DistinctPorts
    decide
  obtain ⟨⟨m', h⟩, hall⟩ := reconcile_correct new twoServices "10.0.0.1" (fun _ => true) hd
  obtain ⟨hrec, -, htwice⟩ := hall m' h
  exact ⟨hd, m', h, hrec, htwice fun _ _ _ => .inl rfl⟩

/-- The manager that serves the one of them that has an endpoint on the node. -/
def servesOne : NodePortManager :=
  new.reconcile twoServices "10.0.0.1" (fun _ => true) [30000] [30000] (by decide) (by decide)

/-- The listener that was opened is closed. -/
theorem closed_of_stopAll_two :
    servesOne.proxies.opened = 1 ∧ servesOne.proxies.closed = ∅ ∧
      ∃ ho, (servesOne.stopAll [30000] ho).proxies.active = ∅ ∧
        0 ∈ (servesOne.stopAll [30000] ho).proxies.closed := by
  have ho : Finmap.IsOrder [30000] servesOne.proxies.active := by decide
  obtain ⟨hactive, hclosed⟩ := closed_of_stopAll servesOne ho
  exact ⟨by decide, by decide, ho, hactive, hclosed 0 Nat.one_pos⟩

end NodePortManager

end NimbusCore.Agent
