import NimbusCore.Apiserver.Objects

/-!
# Apiserver — the two registries of a federation

`internal/apiserver/federation_service.go` and `internal/federation/registry.go`.  A remote cluster
is kept twice: in the maps of the service, under its mutex, with the connection that was dialled for
it; and in the registry, under the registry's own, with the connection that pods are listed over.
`RegisterCluster` writes to the service first and then to the registry, `UnregisterCluster` the
other way round, and each critical section is one step (`serveFederation`).  Any number of calls
come in between.

* `Booked`: what the maps hold is what was last written to them, and who wrote it dialled it.
* `registries_agree_iff`: the two agree, after any steps of any calls, if and only if for every name
  the last to write to the service and the last to write to the registry is the same call, or
  neither of them registers.
* `registries_disagree`: a call that unregisters comes between the two steps of one that registers.
-/

namespace NimbusCore.Apiserver

open Finmap Option

/-! ### The maps -/

/-- The maps of `federationService` and of `federation.Registry`.  Connections are numbered as they
are dialled. -/
structure Federation where
  clusters : Dict String RemoteCluster
  conns : Dict String Nat
  registry : Dict String Nat
  closed : List Nat
  dialled : Nat

/-- `NewFederationService` and `NewRegistry`. -/
def newFederation : Federation := ⟨∅, ∅, ∅, [], 0⟩

namespace Federation

/-- What is closed once the connection that is kept under a name is, if there is one. -/
def closing (s : Federation) (name : String) : List Nat := (s.conns.lookup name).toList ++ s.closed

/-- The critical section of `RegisterCluster`. -/
def keep (s : Federation) (cluster : RemoteCluster) (conn : Nat) : Federation :=
  { s with
    closed := s.closing cluster.name
    clusters := s.clusters.insert cluster.name cluster
    conns := s.conns.insert cluster.name conn }

/-- The critical section of `UnregisterCluster`. -/
def drop (s : Federation) (name : String) : Federation :=
  { s with
    closed := s.closing name
    clusters := s.clusters.erase name
    conns := s.conns.erase name }

/-- `Registry.Register`. -/
def register (s : Federation) (name : String) (conn : Nat) : Federation :=
  { s with registry := s.registry.insert name conn }

/-- `Registry.Unregister`. -/
def unregister (s : Federation) (name : String) : Federation :=
  { s with registry := s.registry.erase name }

end Federation

/-- What the calls meet.  Enrolling and dialling may fail; what is not of the federation answers
anything. -/
def serveFederation : Handler ServerCmd ServerCmd.Answer Federation
  | .outside (.newClient _ _ _), s, x, s' =>
    (x = .ok s.dialled ∧ s' = { s with dialled := s.dialled + 1 }) ∨ (∃ err, x = .error err) ∧
      s' = s
  | .outside (.keepCluster cluster conn), s, _, s' => s' = s.keep cluster conn
  | .outside (.dropCluster name), s, _, s' => s' = s.drop name
  | .outside (.register name conn), s, _, s' => s' = s.register name conn
  | .outside (.unregister name), s, _, s' => s' = s.unregister name
  | .outside .clusters, s, x, s' => s' = s ∧
      ∃ order, Finmap.IsOrder order s.clusters ∧ x = (s.clusters.range order).map Prod.snd
  | _, s, _, s' => s' = s

/-- The two maps of connections. -/
inductive Book where
  | service
  | registry
  deriving DecidableEq

def Federation.book (s : Federation) : Book → Dict String Nat
  | .service => s.conns
  | .registry => s.registry

/-- What a command writes to a book under a name: a connection, or none. -/
def touch (b : Book) (name : String) : ServerCmd → Option (Option Nat)
  | .outside (.keepCluster cluster conn) =>
    if b = .service ∧ name = cluster.name then some (some conn) else none
  | .outside (.dropCluster n) => if b = .service ∧ name = n then some none else none
  | .outside (.register n conn) => if b = .registry ∧ name = n then some (some conn) else none
  | .outside (.unregister n) => if b = .registry ∧ name = n then some none else none
  | _ => none

section

variable {s s' : Federation} {c : ServerCmd} {x : c.Answer}

/-- **One step on a book.** -/
theorem lookup_book (h : serveFederation c s x s') (b : Book) (name : String) :
    (s'.book b).lookup name = (touch b name c).getD ((s.book b).lookup name) := by
  rcases c with _ | _ | _ | c
  · cases h; rfl
  · cases h; rfl
  · cases h; rfl
  · cases c with
    | newClient _ _ _ =>
      rcases h with ⟨-, rfl⟩ | ⟨-, rfl⟩ <;> cases b <;> rfl
    | keepCluster cluster conn =>
      cases h
      cases b with
      | service =>
        simp only [Federation.book, Federation.keep, Finmap.lookup_insert_eq, touch, true_and]
        split <;> rfl
      | registry => rfl
    | dropCluster n =>
      cases h
      cases b with
      | service =>
        simp only [Federation.book, Federation.drop, Finmap.lookup_erase_eq, touch, true_and]
        split <;> rfl
      | registry => rfl
    | register n conn =>
      cases h
      cases b with
      | service => rfl
      | registry =>
        simp only [Federation.book, Federation.register, Finmap.lookup_insert_eq, touch, true_and]
        split <;> rfl
    | unregister n =>
      cases h
      cases b with
      | service => rfl
      | registry =>
        simp only [Federation.book, Federation.unregister, Finmap.lookup_erase_eq, touch, true_and]
        split <;> rfl
    | clusters => obtain ⟨rfl, -⟩ := h; rfl
    | _ => cases h; rfl

/-- The connection that was dialled. -/
def dials : Prog.Done ServerCmd ServerCmd.Answer → Option Nat
  | ⟨.outside (.newClient _ _ _), .ok conn⟩ => some conn
  | _ => none

/-- A cluster is kept. -/
def keeps : ServerCmd → Bool
  | .outside (.keepCluster _ _) => true
  | _ => false

/-- What is under the mutex of the service is as it was, and nothing was dialled. -/
structure SameService (s s' : Federation) : Prop where
  clusters : s'.clusters = s.clusters
  conns : s'.conns = s.conns
  closed : s'.closed = s.closed
  dialled : s'.dialled = s.dialled

/-- **What a step does to the service**: it dials, it keeps or drops a cluster, or it does nothing
there. -/
theorem serveFederation_cases (h : serveFederation c s x s') :
    (dials ⟨c, x⟩ = some s.dialled ∧ keeps c = false ∧ s' = { s with dialled := s.dialled + 1 }) ∨
    (∃ cluster conn, c = .outside (.keepCluster cluster conn) ∧ s' = s.keep cluster conn) ∨
    (∃ name, c = .outside (.dropCluster name) ∧ s' = s.drop name) ∨
    dials ⟨c, x⟩ = none ∧ keeps c = false ∧ SameService s s' := by
  have hsame : SameService s s := ⟨rfl, rfl, rfl, rfl⟩
  rcases c with _ | _ | _ | c
  · cases h; exact .inr (.inr (.inr ⟨rfl, rfl, hsame⟩))
  · cases h; exact .inr (.inr (.inr ⟨rfl, rfl, hsame⟩))
  · cases h; exact .inr (.inr (.inr ⟨rfl, rfl, hsame⟩))
  · cases c with
    | newClient a svid id =>
      rcases h with ⟨rfl, rfl⟩ | ⟨⟨err, rfl⟩, rfl⟩
      · exact .inl ⟨rfl, rfl, rfl⟩
      · exact .inr (.inr (.inr ⟨rfl, rfl, hsame⟩))
    | keepCluster cluster conn => exact .inr (.inl ⟨cluster, conn, rfl, h⟩)
    | dropCluster name => exact .inr (.inr (.inl ⟨name, rfl, h⟩))
    | register n conn | unregister n =>
      cases h; exact .inr (.inr (.inr ⟨rfl, rfl, rfl, rfl, rfl, rfl⟩))
    | clusters => cases h.1; exact .inr (.inr (.inr ⟨rfl, rfl, hsame⟩))
    | _ => cases h; exact .inr (.inr (.inr ⟨rfl, rfl, hsame⟩))

/-- **Connections are numbered as they are dialled.** -/
theorem dials_cases (h : serveFederation c s x s') :
    (dials ⟨c, x⟩ = none ∧ s'.dialled = s.dialled) ∨
      dials ⟨c, x⟩ = some s.dialled ∧ s'.dialled = s.dialled + 1 := by
  rcases serveFederation_cases h with
    ⟨hd, -, rfl⟩ | ⟨_, _, rfl, rfl⟩ | ⟨_, rfl, rfl⟩ | ⟨hd, -, hsame⟩
  · exact .inr ⟨hd, rfl⟩
  · exact .inl ⟨rfl, rfl⟩
  · exact .inl ⟨rfl, rfl⟩
  · exact .inl ⟨hd, hsame.dialled⟩

end

/-! ### The calls -/

/-- A call of the service. -/
inductive FederationCall where
  | register (req : RegisterClusterRequest)
  | unregister (name : String)

variable {conn : Nat} {call : FederationCall} {h : List (Prog.Done ServerCmd ServerCmd.Answer)}
  {c : ServerCmd} {b : Book}

namespace FederationCall

def prog (quote : String → String) : FederationCall → Srv Unit
  | .register req => do
    let _ ← registerCluster quote req
    return ()
  | .unregister name => do
    let _ ← unregisterCluster name
    return ()

/-- The cluster it is about. -/
def name : FederationCall → String
  | .register req => req.name
  | .unregister name => name

/-- **What a call does, after what it has done.**  It dials once; it keeps, once, and registers what
it has dialled. -/
def Orderly (call : FederationCall) (h : List (Prog.Done ServerCmd ServerCmd.Answer)) :
    ServerCmd → Prop
  | .outside (.newClient _ _ _) => ∀ d ∈ h, dials d = none
  | .outside (.keepCluster cluster conn) =>
    cluster.name = call.name ∧ (∃ d ∈ h, dials d = some conn) ∧ ∀ d ∈ h, keeps d.1 = false
  | .outside (.register _ conn) => ∃ d ∈ h, dials d = some conn
  | _ => True

theorem along_prog (quote : String → String) (call : FederationCall) :
    (call.prog quote).Along call.Orderly [] := by
  cases call with
  | unregister name => exact ⟨trivial, fun _ => ⟨trivial, fun _ => trivial⟩⟩
  | register req =>
    refine Prog.Along.bind (f := fun _ => pure ()) (fun _ _ => trivial) ?_
    rw [registerCluster]
    split
    · trivial
    · refine ⟨trivial, fun svid => ?_⟩
      rcases svid with err | svid
      · trivial
      refine ⟨trivial, fun id => ?_⟩
      rcases id with err | id
      · trivial
      refine ⟨by simp [Orderly, dials], fun conn => ?_⟩
      rcases conn with err | conn
      · trivial
      refine ⟨⟨rfl, ⟨_, List.mem_cons_self, rfl⟩, by simp [keeps]⟩,
        fun _ => ⟨?_, fun _ => trivial⟩⟩
      exact ⟨_, List.mem_cons_of_mem _ List.mem_cons_self, rfl⟩

/-- What is written to a book was dialled before. -/
theorem Orderly.dialled (ho : call.Orderly h c) {name : String}
    (ht : touch b name c = some (some conn)) : ∃ d ∈ h, dials d = some conn := by
  rcases c with _ | _ | _ | c
  · cases ht
  · cases ht
  · cases ht
  · cases c with
    | keepCluster cluster conn' =>
      obtain ⟨-, hd⟩ := ite_none_right_eq_some.mp ht
      cases hd
      exact ho.2.1
    | register n conn' =>
      obtain ⟨-, hd⟩ := ite_none_right_eq_some.mp ht
      cases hd
      exact ho
    | dropCluster n | unregister n => obtain ⟨-, hd⟩ := ite_none_right_eq_some.mp ht; cases hd
    | _ => cases ht

/-- A call dials once. -/
theorem Orderly.first {x : c.Answer} (ho : call.Orderly h c)
    (hd : dials ⟨c, x⟩ = some conn) : ∀ d ∈ h, dials d = none := by
  rcases c with _ | _ | _ | c
  · cases hd
  · cases hd
  · cases hd
  · cases c with
    | newClient a svid id => exact ho
    | _ => cases hd

end FederationCall

/-! ### Who wrote what -/

/-- A step of the calls. -/
abbrev FederationStep (ι : Type) := Prog.Event ι ServerCmd ServerCmd.Answer Federation

variable {t : Federation}

section

variable {ι : Type}

/-- The call that last wrote to a book under a name, and what it wrote. -/
def lastTouch (b : Book) (name : String) : List (FederationStep ι) → Option (ι × Option Nat)
  | [] => none
  | e :: tr => ((touch b name e.cmd).map fun conn => (e.who, conn)).or (lastTouch b name tr)

/-- The call that last wrote to a book under a name, and whether it registers. -/
def lastCall (b : Book) (name : String) (tr : List (FederationStep ι)) : Option (ι × Bool) :=
  (lastTouch b name tr).map fun x => (x.1, x.2.isSome)

theorem lastTouch_bind_eq_none {name : String} {tr : List (FederationStep ι)} :
    (lastTouch b name tr).bind Prod.snd = none ↔ ∀ x ∈ lastCall b name tr, x.2 = false := by
  rw [lastCall]
  cases lastTouch b name tr with
  | none => simp
  | some x => simp

/-- **The calls did not overtake each other**: for every name, the last to write to the service and
the last to write to the registry is the same call, or neither registers. -/
def Aligned (tr : List (FederationStep ι)) : Prop :=
  ∀ name, lastCall .service name tr = lastCall .registry name tr ∨
    ∀ b, ∀ x ∈ lastCall b name tr, x.2 = false

variable [DecidableEq ι]

/-- The call has dialled the connection. -/
def Dialled (tr : List (FederationStep ι)) (i : ι) (conn : Nat) : Prop :=
  ∃ d ∈ Prog.history i tr, dials d = some conn

/-- The call has kept a cluster. -/
def Kept (tr : List (FederationStep ι)) (i : ι) : Prop :=
  ∃ d ∈ Prog.history i tr, keeps d.1 = true

/-- **What the service holds, and whose it is.**  A connection that is kept was dialled by a call
that has kept it, and was not closed. -/
structure Serviced (calls : ι → FederationCall) (tr : List (FederationStep ι)) (t : Federation) :
    Prop where
  keeper : ∀ name conn, t.conns.lookup name = some conn →
    ∃ i, Dialled tr i conn ∧ Kept tr i ∧ (calls i).name = name
  closer : ∀ conn ∈ t.closed, ∃ i, Dialled tr i conn ∧ Kept tr i
  unclosed : ∀ name conn, t.conns.lookup name = some conn → conn ∉ t.closed
  named : ∀ name cluster, t.clusters.lookup name = some cluster → cluster.name = name
  shown : ∀ name, name ∈ t.clusters ↔ name ∈ t.conns

/-- **What both books hold** is what was last written there, by a call that dialled it and nothing
else. -/
structure Booked (calls : ι → FederationCall) (tr : List (FederationStep ι)) (t : Federation) : Prop
    extends Serviced calls tr t where
  books : ∀ b name, (t.book b).lookup name = (lastTouch b name tr).bind Prod.snd
  wrote : ∀ b name i conn, lastTouch b name tr = some (i, some conn) → Dialled tr i conn
  dialled_lt : ∀ i conn, Dialled tr i conn → conn < t.dialled
  dialled_by : ∀ i j conn, Dialled tr i conn → Dialled tr j conn → i = j
  dialled_once : ∀ i conn conn', Dialled tr i conn → Dialled tr i conn' → conn = conn'

variable {calls : ι → FederationCall} {tr : List (FederationStep ι)} {e : FederationStep ι}

theorem booked_new : Booked calls [] newFederation where
  keeper _ _ h := by simp [newFederation] at h
  closer _ h := by cases h
  unclosed _ _ h := by simp [newFederation] at h
  named _ _ h := by simp [newFederation] at h
  shown _ := iff_of_false notMem_empty notMem_empty
  books b name := by cases b <;> simp [Federation.book, newFederation, lastTouch]
  wrote _ _ _ _ h := by cases h
  dialled_lt _ _ h := by obtain ⟨_, hd, -⟩ := h; cases hd
  dialled_by _ _ _ h := by obtain ⟨_, hd, -⟩ := h; cases hd
  dialled_once _ _ _ h := by obtain ⟨_, hd, -⟩ := h; cases hd

theorem dialled_cons {j : ι} : Dialled (e :: tr) j conn ↔
    (e.who = j ∧ dials ⟨e.cmd, e.answer⟩ = some conn) ∨ Dialled tr j conn := by
  by_cases hj : e.who = j
  · simp [Dialled, Prog.history, hj]
  · simp [Dialled, Prog.history, hj]

theorem kept_cons {j : ι} : Kept (e :: tr) j ↔ (e.who = j ∧ keeps e.cmd = true) ∨ Kept tr j := by
  by_cases hj : e.who = j
  · simp [Kept, Prog.history, hj]
  · simp [Kept, Prog.history, hj]

theorem Dialled.cons {j : ι} (h : Dialled tr j conn) : Dialled (e :: tr) j conn :=
  dialled_cons.mpr (.inr h)

theorem Kept.cons {j : ι} (h : Kept tr j) : Kept (e :: tr) j := kept_cons.mpr (.inr h)

/-- A step that leaves the service alone. -/
theorem Serviced.same (h : Serviced calls tr e.pre) (hs : SameService e.pre t) :
    Serviced calls (e :: tr) t where
  keeper name conn hl := by
    rw [hs.conns] at hl
    obtain ⟨i, hd, hk, hi⟩ := h.keeper name conn hl
    exact ⟨i, hd.cons, hk.cons, hi⟩
  closer conn hc := by
    rw [hs.closed] at hc
    obtain ⟨i, hd, hk⟩ := h.closer conn hc
    exact ⟨i, hd.cons, hk.cons⟩
  unclosed := by rw [hs.conns, hs.closed]; exact h.unclosed
  named := by rw [hs.clusters]; exact h.named
  shown := by rw [hs.clusters, hs.conns]; exact h.shown

/-- What is closed with the connection of a name was dialled and kept. -/
theorem Serviced.closing (h : Serviced calls tr e.pre) (name : String) :
    ∀ conn ∈ e.pre.closing name, ∃ i, Dialled tr i conn ∧ Kept tr i := by
  intro conn hc
  rcases List.mem_append.mp hc with hc | hc
  · obtain ⟨i, hd, hk, -⟩ := h.keeper name conn (by simpa using hc)
    exact ⟨i, hd, hk⟩
  · exact h.closer conn hc

/-- What is kept under another name is not closed with it. -/
theorem Booked.notMem_closing (h : Booked calls tr e.pre) {name other : String} (hne : other ≠ name)
    (hl : e.pre.conns.lookup other = some conn) : conn ∉ e.pre.closing name := by
  intro hc
  rcases List.mem_append.mp hc with hc | hc
  · obtain ⟨i, hd, -, hi⟩ := h.keeper name conn (by simpa using hc)
    obtain ⟨j, hd', -, hj⟩ := h.keeper other conn hl
    rw [h.dialled_by i j conn hd hd'] at hi
    exact hne (hj.symm.trans hi)
  · exact h.unclosed other conn hl hc

/-- **A cluster is dropped.** -/
theorem Booked.serviced_drop (h : Booked calls tr e.pre) (name : String) :
    Serviced calls (e :: tr) (e.pre.drop name) where
  keeper other conn hl := by
    obtain ⟨-, hl⟩ := Finmap.lookup_erase_eq_some.mp hl
    obtain ⟨i, hd, hk, hi⟩ := h.keeper other conn hl
    exact ⟨i, hd.cons, hk.cons, hi⟩
  closer conn hc := by
    obtain ⟨i, hd, hk⟩ := h.closing name conn hc
    exact ⟨i, hd.cons, hk.cons⟩
  unclosed other conn hl := by
    obtain ⟨hne, hl⟩ := Finmap.lookup_erase_eq_some.mp hl
    exact h.notMem_closing hne hl
  named other cluster hl := h.named other cluster (Finmap.lookup_erase_eq_some.mp hl).2
  shown other := by
    rw [Federation.drop, mem_erase, mem_erase, h.shown]

/-- **A cluster is kept**, with a connection that its call has dialled and not yet kept. -/
theorem Booked.serviced_keep (h : Booked calls tr e.pre) {cluster : RemoteCluster}
    (hcmd : e.cmd = .outside (.keepCluster cluster conn))
    (hname : cluster.name = (calls e.who).name) (hdialled : Dialled tr e.who conn)
    (hnot : ¬ Kept tr e.who) : Serviced calls (e :: tr) (e.pre.keep cluster conn) where
  keeper name conn' hl := by
    rw [Federation.keep, Finmap.lookup_insert_eq] at hl
    split at hl
    · next hn =>
      cases hl
      exact ⟨e.who, hdialled.cons, kept_cons.mpr (.inl ⟨rfl, by rw [hcmd]; rfl⟩), by rw [hn, hname]⟩
    · obtain ⟨i, hd, hk, hi⟩ := h.keeper name conn' hl
      exact ⟨i, hd.cons, hk.cons, hi⟩
  closer conn' hc := by
    obtain ⟨i, hd, hk⟩ := h.closing cluster.name conn' hc
    exact ⟨i, hd.cons, hk.cons⟩
  unclosed name conn' hl := by
    rw [Federation.keep, Finmap.lookup_insert_eq] at hl
    split at hl
    · cases hl
      intro hc
      obtain ⟨i, hd, hk⟩ := h.closing cluster.name conn hc
      exact hnot (h.dialled_by i e.who conn hd hdialled ▸ hk)
    · next hn => exact h.notMem_closing hn hl
  named name cluster' hl := by
    rw [Federation.keep, Finmap.lookup_insert_eq] at hl
    split at hl
    · next hn => cases hl; exact hn.symm
    · exact h.named name cluster' hl
  shown name := by
    rw [Federation.keep, mem_insert, mem_insert, h.shown]

/-- **One step of the service.** -/
theorem Booked.serviced_step (h : Booked calls tr e.pre)
    (ho : (calls e.who).Orderly (Prog.history e.who tr) e.cmd)
    (hs : serveFederation e.cmd e.pre e.answer e.post) : Serviced calls (e :: tr) e.post := by
  rcases serveFederation_cases hs with
    ⟨-, -, hpost⟩ | ⟨cluster, conn, hcmd, hpost⟩ | ⟨name, hcmd, hpost⟩ | ⟨-, -, hsame⟩
  · have hdial := h.toServiced.same (e := e) ⟨rfl, rfl, rfl, rfl⟩
    rw [hpost]
    exact ⟨hdial.keeper, hdial.closer, hdial.unclosed, hdial.named, hdial.shown⟩
  · rw [hcmd] at ho
    rw [hpost]
    refine h.serviced_keep hcmd ho.1 ho.2.1 ?_
    rintro ⟨d, hmem, hd⟩
    rw [ho.2.2 d hmem] at hd
    cases hd
  · rw [hpost]
    exact h.serviced_drop name
  · exact h.toServiced.same hsame

/-- What a step dials has a number of its own, and is the first that its call dials. -/
theorem Booked.dials (h : Booked calls tr e.pre)
    (ho : (calls e.who).Orderly (Prog.history e.who tr) e.cmd)
    (hs : serveFederation e.cmd e.pre e.answer e.post)
    (hd : Apiserver.dials ⟨e.cmd, e.answer⟩ = some conn) :
    conn = e.pre.dialled ∧ e.post.dialled = conn + 1 ∧ (∀ i, ¬ Dialled tr i conn) ∧
      ∀ conn', ¬ Dialled tr e.who conn' := by
  rcases dials_cases hs with ⟨hd', -⟩ | ⟨hd', hn⟩
  · rw [hd] at hd'; cases hd'
  · rw [hd] at hd'
    cases hd'
    refine ⟨rfl, hn, fun i hi => lt_irrefl _ (h.dialled_lt i _ hi), fun conn' hi => ?_⟩
    obtain ⟨d, hmem, hd'⟩ := hi
    rw [ho.first hd d hmem] at hd'
    cases hd'

/-- **One step.** -/
theorem Booked.step (h : Booked calls tr e.pre)
    (ho : (calls e.who).Orderly (Prog.history e.who tr) e.cmd)
    (hs : serveFederation e.cmd e.pre e.answer e.post) : Booked calls (e :: tr) e.post := by
  refine ⟨h.serviced_step ho hs, fun b name => ?_, fun b name i conn hl => ?_, fun i conn hd => ?_,
    fun i j conn hi hj => ?_, fun i conn conn' hc hc' => ?_⟩
  · rw [lookup_book hs, h.books, lastTouch]
    cases touch b name e.cmd <;> rfl
  · rw [lastTouch] at hl
    cases ht : touch b name e.cmd with
    | none =>
      rw [ht] at hl
      exact (h.wrote b name i conn hl).cons
    | some z =>
      rw [ht] at hl
      cases hl
      obtain ⟨d, hmem, hd⟩ := ho.dialled ht
      exact Dialled.cons ⟨d, hmem, hd⟩
  · rcases dialled_cons.mp hd with ⟨-, hd⟩ | hd
    · rw [(h.dials ho hs hd).2.1]
      exact Nat.lt_succ_self conn
    · have hlt := h.dialled_lt i conn hd
      rcases dials_cases hs with ⟨-, hn⟩ | ⟨-, hn⟩ <;> omega
  · rcases dialled_cons.mp hi with ⟨hi, hd⟩ | hi <;> rcases dialled_cons.mp hj with ⟨hj, hd'⟩ | hj
    · exact hi.symm.trans hj
    · exact absurd hj ((h.dials ho hs hd).2.2.1 j)
    · exact absurd hi ((h.dials ho hs hd').2.2.1 i)
    · exact h.dialled_by i j conn hi hj
  · rcases dialled_cons.mp hc with ⟨rfl, hd⟩ | hc <;>
      rcases dialled_cons.mp hc' with ⟨hi, hd'⟩ | hc'
    · exact Option.some.inj (hd.symm.trans hd')
    · exact absurd hc' ((h.dials ho hs hd).2.2.2 conn')
    · subst hi
      exact absurd hc ((h.dials ho hs hd').2.2.2 conn)
    · exact h.dialled_once i conn conn' hc hc'

/-! ### Agreement -/

/-- **The two registries agree.**  `ListClusters` shows the names that are in the registry; and for
each of them the connection there is the one that the service has, and has not been closed. -/
structure Agreed (s : Federation) : Prop where
  shown : ∀ items s', serveFederation (.outside .clusters) s items s' →
    ∀ name, name ∈ items.map RemoteCluster.name ↔ name ∈ s.registry
  conns : ∀ name conn, s.registry.lookup name = some conn →
    s.conns.lookup name = some conn ∧ conn ∉ s.closed

/-- The names that `ListClusters` shows. -/
theorem Serviced.mem_items (h : Serviced calls tr t) {order : List String}
    (ho : Finmap.IsOrder order t.clusters) (name : String) :
    name ∈ ((t.clusters.range order).map Prod.snd).map RemoteCluster.name ↔ name ∈ t.conns := by
  rw [← h.shown, List.map_map, List.mem_map]
  constructor
  · rintro ⟨x, hx, rfl⟩
    have hl := ho.mem_range.mp hx
    have hname : x.2.name = x.1 := h.named x.1 x.2 hl
    exact (congrArg (· ∈ t.clusters) hname).mpr (mem_of_lookup_eq_some hl)
  · intro hmem
    obtain ⟨cluster, hl⟩ := Finmap.mem_iff.mp hmem
    exact ⟨(name, cluster), ho.mem_range.mpr hl, h.named name cluster hl⟩

/-- They agree if the same connections are in both. -/
theorem Booked.agreed_iff (h : Booked calls tr t) :
    Agreed t ↔ ∀ name, t.registry.lookup name = t.conns.lookup name := by
  constructor
  · intro ha name
    cases hr : t.registry.lookup name with
    | some conn => exact (ha.conns name conn hr).1.symm
    | none =>
      obtain ⟨order, ho⟩ := Finmap.exists_isOrder t.clusters
      have hnames := ha.shown _ t ⟨rfl, order, ho, rfl⟩ name
      rw [h.mem_items ho] at hnames
      have hconn : name ∉ t.conns := fun hmem => lookup_eq_none.mp hr (hnames.mp hmem)
      exact (lookup_eq_none.mpr hconn).symm
  · intro heq
    refine ⟨fun items s' hs name => ?_, fun name conn hl => ?_⟩
    · obtain ⟨-, order, ho, rfl⟩ := hs
      rw [h.mem_items ho, Finmap.mem_iff, Finmap.mem_iff, heq]
    · rw [heq] at hl
      exact ⟨hl, h.unclosed name conn hl⟩

/-- One call that was last to write to both has written the same connection to them. -/
theorem Booked.conn_eq_of_lastCall_eq (h : Booked calls tr t) {name : String}
    (heq : lastCall .service name tr = lastCall .registry name tr) :
    (lastTouch .registry name tr).bind Prod.snd = (lastTouch .service name tr).bind Prod.snd := by
  rw [lastCall, lastCall] at heq
  cases hi : lastTouch .service name tr with
  | none =>
    rw [hi] at heq
    rw [map_eq_none_iff.mp heq.symm]
  | some x =>
    rw [hi] at heq
    obtain ⟨y, hj, hy⟩ := map_eq_some_iff.mp heq.symm
    rw [hj]
    obtain ⟨i, xc⟩ := x
    obtain ⟨j, yc⟩ := y
    obtain ⟨rfl, hsome⟩ := Prod.mk.inj hy
    rcases xc with _ | conn
    · exact not_isSome_iff_eq_none.mp (ne_true_of_eq_false hsome)
    obtain ⟨conn', rfl⟩ := isSome_iff_exists.mp hsome
    exact congrArg some (h.dialled_once j conn' conn (h.wrote .registry name j conn' hj)
      (h.wrote .service name j conn hi))

/-- **The same connection is in both** if the last to write to them is the same call, or neither
registers: no two calls dial the same, and a call dials once. -/
theorem Booked.lookup_eq_iff (h : Booked calls tr t) (name : String) :
    t.registry.lookup name = t.conns.lookup name ↔
      lastCall .service name tr = lastCall .registry name tr ∨
        ∀ b, ∀ x ∈ lastCall b name tr, x.2 = false := by
  have hservice : t.conns.lookup name = (lastTouch .service name tr).bind Prod.snd :=
    h.books .service name
  have hregistry : t.registry.lookup name = (lastTouch .registry name tr).bind Prod.snd :=
    h.books .registry name
  rw [hservice, hregistry]
  constructor
  · intro heq
    cases hconn : (lastTouch .service name tr).bind Prod.snd with
    | none =>
      rw [hconn] at heq
      refine .inr fun b => ?_
      cases b with
      | service => exact lastTouch_bind_eq_none.mp hconn
      | registry => exact lastTouch_bind_eq_none.mp heq
    | some conn =>
      rw [hconn] at heq
      obtain ⟨⟨i, _⟩, hi, rfl⟩ := bind_eq_some_iff.mp hconn
      obtain ⟨⟨j, _⟩, hj, rfl⟩ := bind_eq_some_iff.mp heq
      have hij : i = j :=
        h.dialled_by i j conn (h.wrote .service name i conn hi) (h.wrote .registry name j conn hj)
      rw [lastCall, lastCall, hi, hj, hij]
      exact .inl rfl
  · rintro (heq | hnone)
    · exact h.conn_eq_of_lastCall_eq heq
    · rw [lastTouch_bind_eq_none.mpr (hnone .service), lastTouch_bind_eq_none.mpr (hnone .registry)]

variable {quote : String → String} {Q : ι → Srv Unit} {t : Federation}

/-- **The invariant of every run.** -/
theorem booked_of_interleaves
    (h : Prog.Interleaves Prog.unguarded serveFederation (fun i => (calls i).prog quote)
      newFederation tr Q t) : Booked calls tr t := by
  refine h.invariant (I := fun tr _ t => Booked calls tr t) booked_new ?_
  intro tr Q t i c k x t' hrun hb hQ hc _
  have ho : (calls i).Orderly (Prog.history i tr) c :=
    hrun.along_next (Φ := fun i => (calls i).Orderly) (fun i => (calls i).along_prog quote) hQ
  exact hb.step (e := ⟨i, c, x, t, t'⟩) ho hc

/-- **The registries agree exactly if no call overtook another** between its two steps, or none that
mattered. -/
theorem registries_agree_iff
    (h : Prog.Interleaves Prog.unguarded serveFederation (fun i => (calls i).prog quote)
      newFederation tr Q t) : Agreed t ↔ Aligned tr := by
  have hb := booked_of_interleaves h
  rw [hb.agreed_iff]
  exact forall_congr' hb.lookup_eq_iff

end

/-! ### Two calls -/

/-- What a step does if enrolling and dialling succeed. -/
def resolveFederation : (c : ServerCmd) → Unit → Federation → Option (c.Answer × Federation)
  | .outside (.enroll _ _ _), _, s => some (.ok 0, s)
  | .outside (.svidID _), _, s => some (.ok ⟨"nimbus.local", "/control-plane/b"⟩, s)
  | .outside (.newClient _ _ _), _, s => some (.ok s.dialled, { s with dialled := s.dialled + 1 })
  | .outside (.keepCluster cluster conn), _, s => some ((), s.keep cluster conn)
  | .outside (.dropCluster name), _, s => some ((), s.drop name)
  | .outside (.register name conn), _, s => some ((), s.register name conn)
  | .outside (.unregister name), _, s => some ((), s.unregister name)
  | _, _, _ => none

theorem serveFederation_of_resolve (c : ServerCmd) (u : Unit) (s : Federation) (x : c.Answer)
    (s' : Federation) (h : resolveFederation c u s = some (x, s')) : serveFederation c s x s' := by
  rcases c with _ | _ | _ | c
  · cases h
  · cases h
  · cases h
  · cases c with
    | newClient _ _ _ => cases h; exact .inl ⟨rfl, rfl⟩
    | _ => cases h <;> rfl

/-- One call registers the cluster `b`, the other unregisters it. -/
def registerAndUnregister : Bool → FederationCall
  | true => .register ⟨"b", "b:7443", "token"⟩
  | false => .unregister "b"

/-- One after the other. -/
theorem registries_agree_iff_sample :
    ∃ tr Q t, Prog.Interleaves Prog.unguarded serveFederation
        (fun i => (registerAndUnregister i).prog id) newFederation tr Q t ∧
      ((∀ i, (Q i).busy = false) ∧ t.registry.lookup "b" = some 0) ∧ (Agreed t ↔ Aligned tr) := by
  obtain ⟨tr, Q, t, h, hT⟩ := Prog.exists_of_play (G := Prog.unguarded)
    (P := fun i => (registerAndUnregister i).prog id) (s := newFederation)
    (T := fun r => (∀ i, (r.progs i).busy = false) ∧ r.state.registry.lookup "b" = some 0)
    serveFederation_of_resolve
    [(false, ()), (false, ()), (true, ()), (true, ()), (true, ()), (true, ()), (true, ())]
    (by decide +kernel)
  exact ⟨tr, Q, t, h, hT, registries_agree_iff h⟩

/-- **A cluster that is not shown stays in the registry**, with a connection that was closed: it is
unregistered between the two steps of the call that registers it. -/
theorem registries_disagree :
    ∃ tr Q t, Prog.Interleaves Prog.unguarded serveFederation
        (fun i => (registerAndUnregister i).prog id) newFederation tr Q t ∧
      (∀ i, (Q i).busy = false) ∧ t.registry.lookup "b" = some 0 ∧ "b" ∉ t.clusters ∧ 0 ∈ t.closed ∧
        ¬ Agreed t := by
  obtain ⟨tr, Q, t, h, hbusy, hr, hc, hclosed⟩ := Prog.exists_of_play (G := Prog.unguarded)
    (P := fun i => (registerAndUnregister i).prog id) (s := newFederation)
    (T := fun r => (∀ i, (r.progs i).busy = false) ∧ r.state.registry.lookup "b" = some 0 ∧
      "b" ∉ r.state.clusters ∧ 0 ∈ r.state.closed)
    serveFederation_of_resolve
    [(true, ()), (true, ()), (true, ()), (true, ()), (false, ()), (false, ()), (true, ())]
    (by decide +kernel)
  exact ⟨tr, Q, t, h, hbusy, hr, hc, hclosed, fun ha => (ha.conns "b" 0 hr).2 hclosed⟩

end NimbusCore.Apiserver
