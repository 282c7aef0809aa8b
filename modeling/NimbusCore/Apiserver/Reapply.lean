import NimbusCore.Apiserver.Services

/-!
# Apiserver — creating a service again

`CreateService` is an upsert: `nimbusctl apply` and every edit in the dashboard call it again for a
service that is there.  Asked for no port in particular, it takes the first one that no stored
service has, and the service it is about to replace is one of these.  So the port the service has is
never chosen: each call moves the service.

* `createService_outcome`: what a call does, by the port that is chosen among the services stored
  (`chosenPort`).
* `moved_of_zero`: what is chosen for a request without a port is not the port of the stored
  service.
* `reapply_iff`: a call leaves the service with its port exactly if the request asks for this port
  and no other service has it; calling twice is calling once exactly if the request asks for a port,
  or no call succeeds.
-/

namespace NimbusCore.Apiserver

open Api Registry Prog

/-! ### One call -/

/-- The port that `choosePort` chooses among some services. -/
def chosenPort (r : Service) (all : List Service) : Except Status Int32 :=
  if r.getSpec.nodePort = 0 then
    (firstFreePort all).mapError fun e => ⟨.internal, "allocate node_port: " ++ e.1, e.2⟩
  else if all.any fun t => HoldsPort r.getSpec.nodePort r.getMetadata.ns r.getMetadata.name t then
    .error ⟨.alreadyExists, "node_port " ++ toString r.getSpec.nodePort ++
      " is already allocated to another service", none⟩
  else .ok r.getSpec.nodePort

/-- The state with the request stored, at a port. -/
def withStored (s : State) (r : Service) (port : Int32) : State :=
  s.set .services ((s .services).insert (path r.getMetadata.ns r.getMetadata.name)
    (withNodePort r port))

variable {x : Except Stop (Except Status Service)} {port : Int32}

section Calls

variable {s s' : State} {r : Service}

theorem runs_choosePort {f : Except Status Int32 → Reg (Except Status Service)} :
    (choosePort r >>= f).Runs serve s x s' ↔
      ∃ order, Finmap.IsOrder order (s.listing .services "") ∧
        (f (chosenPort r (s.listed .services "" order))).Runs serve s x s' := by
  -- both branches ask for the same listing, and go on with what is chosen from it
  have hask : ∀ g : Except RegistryError (List Service) → Reg (Except Status Service),
      (∀ all, (g (.ok all)).Runs serve s x s' ↔ (f (chosenPort r all)).Runs serve s x s') →
      ((Registry.list .services "" >>= g).Runs serve s x s' ↔
        ∃ order, Finmap.IsOrder order (s.listing .services "") ∧
          (f (chosenPort r (s.listed .services "" order))).Runs serve s x s') := by
    intro g hg
    constructor
    · rintro ⟨y, s₁, ⟨rfl, order, ho, rfl⟩, h⟩
      exact ⟨order, ho, (hg _).mp h⟩
    · rintro ⟨order, ho, h⟩
      exact ⟨_, s, ⟨rfl, order, ho, rfl⟩, (hg _).mpr h⟩
  rw [choosePort]
  split
  · next h0 =>
    refine hask _ fun all => ?_
    change (Prog.bind (Prog.bind (.ret (firstFreePort all)) _) f).Runs serve s x s' ↔ _
    rw [chosenPort, if_pos h0]
    cases firstFreePort all with
    | error err | ok port => exact Iff.rfl
  · next h0 =>
    refine hask _ fun all => ?_
    change (Prog.bind (Prog.bind (.ret (Except.ok (all.any fun t =>
      HoldsPort r.getSpec.nodePort r.getMetadata.ns r.getMetadata.name t))) _) f).Runs
      serve s x s' ↔ _
    rw [chosenPort, if_neg h0]
    cases all.any fun t => HoldsPort r.getSpec.nodePort r.getMetadata.ns r.getMetadata.name t with
    | true | false => exact Iff.rfl

/-- A program that returns where it started does so with its result put to use. -/
theorem runs_pureAfter {α β : Type} {p : Reg α} {g : α → β}
    (hp : ∀ x, p.Runs serve s x s' → s' = s ∧ ∃ a, x = .ok a) {x : Except Stop β}
    (h : (p >>= fun a => pure (g a)).Runs serve s x s') : s' = s ∧ ∃ a, x = .ok (g a) := by
  rcases runs_bind.mp h with ⟨a, s₁, ha, rfl, rfl⟩ | ⟨e, -, he⟩
  · exact ⟨(hp _ ha).1, a, rfl⟩
  · obtain ⟨-, a, ha⟩ := hp _ he
    cases ha

theorem runs_endpointLoop (t : Service) {x : Except Stop (List ServiceEndpoint)} :
    ∀ {pods : List Pod}, (endpointLoop t pods).Runs serve s x s' → s' = s ∧ ∃ es, x = .ok es
  | [], h => ⟨h.2, _, h.1⟩
  | p :: pods, h => by
    rw [endpointLoop] at h
    split at h
    · rw [Yields.runs_bind yields_get] at h
      cases hf : s.find .nodes "" p.getSpec.nodeName with
      | error err => rw [hf] at h; exact runs_endpointLoop t h
      | ok node =>
        rw [hf] at h
        obtain ⟨hs, es, rfl⟩ := runs_pureAfter (fun _ hl => runs_endpointLoop t hl) h
        exact ⟨hs, _, rfl⟩
    · exact runs_endpointLoop t h

/-- Over a store that never fails, the endpoints are always found. -/
theorem runs_resolve (t : Service) (h : (resolve t).Runs serve s x s') :
    s' = s ∧ ∃ t', x = .ok (.ok t') := by
  rw [resolve] at h
  split at h
  · exact ⟨h.2, _, h.1⟩
  · obtain ⟨y, s₁, ⟨rfl, order, ho, rfl⟩, h⟩ := h
    obtain ⟨hs, y, rfl⟩ := runs_pureAfter (fun _ hl => runs_endpointLoop t hl) h
    exact ⟨hs, _, rfl⟩

/-- **A call** answers with an error and changes nothing, or stores the request at the port that is
chosen among the services stored. -/
theorem createService_outcome (hname : r.getMetadata.name ≠ "")
    (h : (createService r).Runs serve s x s') :
    ∃ order, Finmap.IsOrder order (s.listing .services "") ∧
      ((∃ err, chosenPort r (s.listed .services "" order) = .error err ∧ x = .ok (.error err) ∧
          s' = s) ∨
        ∃ port t, chosenPort r (s.listed .services "" order) = .ok port ∧ x = .ok (.ok t) ∧
          s' = withStored s r port) := by
  rw [createService, if_neg hname] at h
  obtain ⟨order, ho, h⟩ := runs_choosePort.mp h
  refine ⟨order, ho, ?_⟩
  cases hp : chosenPort r (s.listed .services "" order) with
  | error err =>
    rw [hp] at h
    exact .inl ⟨err, rfl, h.1, h.2⟩
  | ok port =>
    rw [hp] at h
    obtain ⟨y, s₁, ⟨rfl, rfl⟩, h⟩ := h
    obtain ⟨rfl, t, rfl⟩ := runs_resolve _ h
    exact .inr ⟨port, t, rfl, rfl, rfl⟩

/-- And a port that may be chosen is stored in some run. -/
theorem runs_createService (hname : r.getMetadata.name ≠ "") {order : List String}
    (ho : Finmap.IsOrder order (s.listing .services ""))
    (hp : chosenPort r (s.listed .services "" order) = .ok port) :
    ∃ t, (createService r).Runs serve s (.ok (.ok t)) (withStored s r port) := by
  obtain ⟨x, s', h⟩ := exists_runs serve_total (resolve (withNodePort r port))
    (withStored s r port)
  obtain ⟨rfl, t, rfl⟩ := runs_resolve _ h
  refine ⟨t, ?_⟩
  rw [createService, if_neg hname, runs_choosePort]
  refine ⟨order, ho, ?_⟩
  rw [hp]
  exact ⟨.ok (), _, ⟨rfl, rfl⟩, h⟩

/-- A request without a name is refused. -/
theorem runs_nameless (hname : r.getMetadata.name = "") (h : (createService r).Runs serve s x s') :
    (∃ err, x = .ok (.error err)) ∧ s' = s := by
  rw [createService, if_pos hname] at h
  exact ⟨⟨_, h.1⟩, h.2⟩

end Calls

/-! ### What is chosen -/

section Chosen

variable {s : State} {r : Service} {order : List String}

theorem mem_listed_services (ho : Finmap.IsOrder order (s.listing .services "")) {t : Service} :
    t ∈ s.listed .services "" order ↔ ∃ k, (s .services).lookup k = some t := by
  rw [State.mem_listed ho]
  simp [Listed]

/-- No stored service of another name has the port. -/
def Unclaimed (s : State) (r : Service) : Prop :=
  ∀ k t, (s .services).lookup k = some t →
    ¬ HoldsPort r.getSpec.nodePort r.getMetadata.ns r.getMetadata.name t

instance (s : State) (r : Service) : Decidable (Unclaimed s r) :=
  inferInstanceAs (Decidable (∀ k t, (s .services).lookup k = some t → _))

/-- Every port of the range is some stored service's. -/
def RangeFull (s : State) : Prop :=
  ∀ i < nodePortRounds, ∃ k t, (s .services).lookup k = some t ∧
    t.getSpec.nodePort = nodePortRangeMin + Int32.ofNat i

theorem chosenPort_of_ne_zero (ho : Finmap.IsOrder order (s.listing .services ""))
    (h0 : r.getSpec.nodePort ≠ 0) :
    chosenPort r (s.listed .services "" order) = .ok port ↔
      port = r.getSpec.nodePort ∧ Unclaimed s r := by
  rw [chosenPort, if_neg h0]
  split
  · next hany =>
    obtain ⟨t, ht, hheld⟩ := List.any_eq_true.mp hany
    obtain ⟨k, hk⟩ := (mem_listed_services ho).mp ht
    simp only [reduceCtorEq, false_iff]
    exact fun h => h.2 k t hk (of_decide_eq_true hheld)
  · next hany =>
    have hfree : Unclaimed s r := fun k t hk hheld => hany (List.any_eq_true.mpr
      ⟨t, (mem_listed_services ho).mpr ⟨k, hk⟩, decide_eq_true hheld⟩)
    simp [hfree, eq_comm]

theorem freePort_eq_none_iff {used : List Int32} :
    ∀ {rounds : Nat} {start : Int32},
      freePort used rounds start = none ↔ ∀ i < rounds, start + Int32.ofNat i ∈ used
  | 0, _ => by simp [freePort]
  | rounds + 1, start => by
    have hshift : ∀ i : Nat, start + 1 + Int32.ofNat i = start + Int32.ofNat (i + 1) := fun i => by
      rw [Int32.ofNat_add, Int32.add_assoc, Int32.add_comm 1]
      rfl
    rw [freePort, Nat.forall_lt_succ_left]
    simp only [← hshift, ← freePort_eq_none_iff]
    by_cases hm : start ∈ used
    · simp [hm]
    · simp [hm]

section

variable (ho : Finmap.IsOrder order (s.listing .services ""))

include ho

theorem mem_usedPorts : port ∈ usedPorts (s.listed .services "" order) ↔
      port ≠ 0 ∧ ∃ k t, (s .services).lookup k = some t ∧ t.getSpec.nodePort = port := by
  simp only [usedPorts, List.mem_filter, List.mem_map, mem_listed_services ho, decide_eq_true_eq]
  constructor
  · rintro ⟨⟨t, ⟨k, hk⟩, rfl⟩, h0⟩
    exact ⟨h0, k, t, hk, rfl⟩
  · rintro ⟨h0, k, t, hk, rfl⟩
    exact ⟨⟨t, ⟨k, hk⟩, rfl⟩, h0⟩

omit ho in
theorem port_ne_zero {i : Nat} (hi : i < nodePortRounds) :
    nodePortRangeMin + Int32.ofNat i ≠ 0 := by
  intro h
  have hi : i < 2768 := hi
  have hmod : (Int32.ofNat i).toInt = i := Int32.toInt_ofNat_of_lt (by omega)
  have hsum : (nodePortRangeMin + Int32.ofNat i).toInt = 30000 + i := by
    rw [Int32.toInt_add, hmod, show nodePortRangeMin.toInt = 30000 from rfl,
      Int.bmod_eq_of_le (by omega) (by omega)]
  rw [h] at hsum
  exact absurd hsum (by simp; omega)

/-- Without a port asked for, none is found exactly if the range is full. -/
theorem firstFreePort_error_iff :
    (∃ err, firstFreePort (s.listed .services "" order) = .error err) ↔ RangeFull s := by
  have hnone : (∃ err, firstFreePort (s.listed .services "" order) = .error err) ↔
      freePort (usedPorts (s.listed .services "" order)) nodePortRounds nodePortRangeMin =
        none := by
    rw [firstFreePort]
    split
    · next hp => simp [hp]
    · next hp => simp [hp]
  rw [hnone, freePort_eq_none_iff]
  refine forall₂_congr fun i hi => ?_
  rw [mem_usedPorts ho, and_iff_right (port_ne_zero hi)]

/-- **A request without a port gets one that no stored service has.** -/
theorem moved_of_zero (h0 : r.getSpec.nodePort = 0)
    (h : chosenPort r (s.listed .services "" order) = .ok port) {k : String} {t : Service}
    (hk : (s .services).lookup k = some t) : port ≠ t.getSpec.nodePort := by
  rw [chosenPort, if_pos h0] at h
  cases hp : firstFreePort (s.listed .services "" order) with
  | error err => rw [hp] at h; cases h
  | ok port' =>
    rw [hp] at h
    cases h
    rw [firstFreePort] at hp
    split at hp
    · next hfree =>
      cases hp
      intro he
      have hne : port ≠ 0 := freePort_ne_zero (by decide) (by decide) hfree
      exact freePort_notMem hfree ((mem_usedPorts ho).mpr ⟨hne, k, t, hk, he.symm⟩)
    · cases hp

theorem chosenPort_error_of_zero (h0 : r.getSpec.nodePort = 0) :
    (∃ err, chosenPort r (s.listed .services "" order) = .error err) ↔ RangeFull s := by
  rw [← firstFreePort_error_iff ho, chosenPort, if_pos h0]
  cases firstFreePort (s.listed .services "" order) with
  | error err => exact iff_of_true ⟨_, rfl⟩ ⟨_, rfl⟩
  | ok port => exact iff_of_false (by rintro ⟨err, h⟩; cases h) (by rintro ⟨err, h⟩; cases h)

end

end Chosen

/-! ### Calling again -/

/-- The call has answered with the service. -/
def Succeeded (x : Except Stop (Except Status Service)) : Prop := ∃ t, x = .ok (.ok t)

/-- Every call succeeds and leaves the service stored with the port. -/
def KeepsPort (s : State) (r : Service) (port : Int32) : Prop :=
  ∀ x s', (createService r).Runs serve s x s' → Succeeded x ∧
    ∃ t, (s' .services).lookup (path r.getMetadata.ns r.getMetadata.name) = some t ∧
      t.getSpec.nodePort = port

/-- A second call succeeds if the first has, and changes nothing any more. -/
def TwiceIsOnce (s : State) (r : Service) : Prop :=
  ∀ x s₁ x' s₂, (createService r).Runs serve s x s₁ → (createService r).Runs serve s₁ x' s₂ →
    s₂ = s₁ ∧ (Succeeded x' ↔ Succeeded x)

section Again

variable {s : State} {r : Service}

theorem succeeded_ok (t : Service) : Succeeded (.ok (.ok t)) := ⟨t, rfl⟩

theorem not_succeeded_error (err : Status) : ¬ Succeeded (.ok (.error err)) := by
  rintro ⟨t, h⟩
  cases h

theorem lookup_withStored (port : Int32) :
    (withStored s r port .services).lookup (path r.getMetadata.ns r.getMetadata.name) =
      some (withNodePort r port) := by
  rw [withStored, State.set_self, Finmap.lookup_insert]

theorem keepsPort_iff {old : Service}
    (hold : (s .services).lookup (path r.getMetadata.ns r.getMetadata.name) = some old) :
    KeepsPort s r old.getSpec.nodePort ↔ r.getMetadata.name ≠ "" ∧ r.getSpec.nodePort ≠ 0 ∧
      r.getSpec.nodePort = old.getSpec.nodePort ∧ Unclaimed s r := by
  constructor
  · intro h
    obtain ⟨x, s', hrun⟩ := exists_runs serve_total (createService r) s
    obtain ⟨hok, t, ht, hport⟩ := h x s' hrun
    by_cases hname : r.getMetadata.name = ""
    · obtain ⟨⟨err, rfl⟩, -⟩ := runs_nameless hname hrun
      exact absurd hok (not_succeeded_error err)
    obtain ⟨order, ho, ⟨err, -, rfl, -⟩ | ⟨port, t', hp, -, rfl⟩⟩ :=
      createService_outcome hname hrun
    · exact absurd hok (not_succeeded_error err)
    rw [lookup_withStored] at ht
    obtain rfl := Option.some.inj ht
    have hport : port = old.getSpec.nodePort := hport
    by_cases h0 : r.getSpec.nodePort = 0
    · exact absurd hport (moved_of_zero ho h0 hp hold)
    · obtain ⟨rfl, hfree⟩ := (chosenPort_of_ne_zero ho h0).mp hp
      exact ⟨hname, h0, hport, hfree⟩
  · rintro ⟨hname, h0, hport, hfree⟩ x s' hrun
    obtain ⟨order, ho, ⟨err, hp, -, -⟩ | ⟨port, t, hp, rfl, rfl⟩⟩ :=
      createService_outcome hname hrun
    · rw [(chosenPort_of_ne_zero ho h0).mpr ⟨rfl, hfree⟩] at hp
      cases hp
    · obtain ⟨rfl, -⟩ := (chosenPort_of_ne_zero ho h0).mp hp
      exact ⟨succeeded_ok t, _, lookup_withStored _, hport⟩

/-- What is stored claims nothing of itself. -/
theorem unclaimed_withStored (h : Unclaimed s r) :
    Unclaimed (withStored s r r.getSpec.nodePort) r := by
  intro k t hk hheld
  rw [withStored, State.set_self, Finmap.lookup_insert_eq] at hk
  split at hk
  · obtain rfl := Option.some.inj hk
    exact hheld.2 ⟨rfl, rfl⟩
  · exact h k t hk hheld

/-- A request that asks for a port can be repeated. -/
theorem twiceIsOnce_of_ne_zero (hname : r.getMetadata.name ≠ "") (h0 : r.getSpec.nodePort ≠ 0) :
    TwiceIsOnce s r := by
  intro x s₁ x' s₂ hrun hrun'
  obtain ⟨order, ho, ⟨err, hp, rfl, rfl⟩ | ⟨port, t, hp, rfl, rfl⟩⟩ :=
    createService_outcome hname hrun
  · obtain ⟨order', ho', ⟨err', -, rfl, rfl⟩ | ⟨port, t, hp', -, -⟩⟩ :=
      createService_outcome hname hrun'
    · exact ⟨rfl, iff_of_false (not_succeeded_error _) (not_succeeded_error _)⟩
    · rw [(chosenPort_of_ne_zero ho h0).mpr ((chosenPort_of_ne_zero ho' h0).mp hp')] at hp
      cases hp
  · obtain ⟨rfl, hfree⟩ := (chosenPort_of_ne_zero ho h0).mp hp
    obtain ⟨order', ho', ⟨err', hp', -, -⟩ | ⟨port, t', hp', rfl, rfl⟩⟩ :=
      createService_outcome hname hrun'
    · rw [(chosenPort_of_ne_zero ho' h0).mpr ⟨rfl, unclaimed_withStored hfree⟩] at hp'
      cases hp'
    · obtain ⟨rfl, -⟩ := (chosenPort_of_ne_zero ho' h0).mp hp'
      exact ⟨by rw [withStored, Finmap.insert_of_lookup (lookup_withStored _), State.set_eq],
        iff_of_true (succeeded_ok _) (succeeded_ok _)⟩

/-- One that does not goes through once at most without moving the service. -/
theorem rangeFull_of_twiceIsOnce (hname : r.getMetadata.name ≠ "") (h0 : r.getSpec.nodePort = 0)
    (h : TwiceIsOnce s r) : RangeFull s := by
  obtain ⟨x, s₁, hrun⟩ := exists_runs serve_total (createService r) s
  obtain ⟨x', s₂, hrun'⟩ := exists_runs serve_total (createService r) s₁
  obtain ⟨hsame, hsucc⟩ := h x s₁ x' s₂ hrun hrun'
  obtain ⟨order, ho, ⟨err, hp, -, -⟩ | ⟨port, t, -, rfl, rfl⟩⟩ := createService_outcome hname hrun
  · exact (chosenPort_error_of_zero ho h0).mp ⟨err, hp⟩
  obtain ⟨order', ho', ⟨err, -, rfl, -⟩ | ⟨port', t', hp', -, rfl⟩⟩ :=
    createService_outcome hname hrun'
  · exact absurd (hsucc.mpr (succeeded_ok t)) (not_succeeded_error err)
  · have hmoved := moved_of_zero ho' h0 hp' (lookup_withStored port)
    have hport := lookup_withStored (s := withStored s r port) (r := r) port'
    rw [hsame, lookup_withStored] at hport
    exact absurd (congrArg (fun t : Service => t.getSpec.nodePort) (Option.some.inj hport)).symm
      hmoved

theorem twiceIsOnce_iff : TwiceIsOnce s r ↔
    r.getSpec.nodePort ≠ 0 ∨ r.getMetadata.name = "" ∨ RangeFull s := by
  by_cases hname : r.getMetadata.name = ""
  · refine iff_of_true (fun x s₁ x' s₂ hrun hrun' => ?_) (.inr (.inl hname))
    obtain ⟨⟨err, rfl⟩, rfl⟩ := runs_nameless hname hrun
    obtain ⟨⟨err', rfl⟩, rfl⟩ := runs_nameless hname hrun'
    exact ⟨rfl, iff_of_false (not_succeeded_error _) (not_succeeded_error _)⟩
  by_cases h0 : r.getSpec.nodePort = 0
  · constructor
    · exact fun h => .inr (.inr (rangeFull_of_twiceIsOnce hname h0 h))
    · rintro (h | h | hfull)
      · exact absurd h0 h
      · exact absurd h hname
      -- with the range full neither call finds a port
      have hfail : ∀ x s', (createService r).Runs serve s x s' → ¬ Succeeded x ∧ s' = s := by
        intro x s' hrun
        obtain ⟨order, ho, ⟨err, -, rfl, rfl⟩ | ⟨port, t, hp, -, -⟩⟩ :=
          createService_outcome hname hrun
        · exact ⟨not_succeeded_error err, rfl⟩
        · obtain ⟨err, he⟩ := (chosenPort_error_of_zero ho h0).mpr hfull
          rw [hp] at he
          cases he
      intro x s₁ x' s₂ hrun hrun'
      obtain ⟨hx, rfl⟩ := hfail x s₁ hrun
      obtain ⟨hx', rfl⟩ := hfail x' s₂ hrun'
      exact ⟨rfl, iff_of_false hx' hx⟩
  · exact iff_of_true (twiceIsOnce_of_ne_zero hname h0) (.inl h0)

end Again

/-- **When a service keeps its port.**  Creating a stored service again leaves it with its port
exactly if the request has a name, asks for the port the service has, which is not 0, and no service
of another name has it; never if the request asks for no port.  Creating it twice is creating it
once exactly if the request asks for a port, or neither call can succeed. -/
theorem reapply_iff (s : State) (r old : Service)
    (hold : (s .services).lookup (path r.getMetadata.ns r.getMetadata.name) = some old) :
    (KeepsPort s r old.getSpec.nodePort ↔ r.getMetadata.name ≠ "" ∧ r.getSpec.nodePort ≠ 0 ∧
        r.getSpec.nodePort = old.getSpec.nodePort ∧ Unclaimed s r) ∧
      (TwiceIsOnce s r ↔
        r.getSpec.nodePort ≠ 0 ∨ r.getMetadata.name = "" ∨ RangeFull s) :=
  ⟨keepsPort_iff hold, twiceIsOnce_iff⟩

/-- A service that asks for a port. -/
def webAt (port : Int32) : Service :=
  { metadata := some { name := "web", ns := "default" }, spec := some { nodePort := port } }

/-- The service stored, at the first port of the range. -/
def webStored : State := withStored State.empty (webAt 0) 30000

/-- The service keeps its port if it is asked for, and not if none is. -/
theorem reapply_iff_web :
    (webStored .services).lookup "default/web" = some (webAt 30000) ∧
      KeepsPort webStored (webAt 30000) 30000 ∧ TwiceIsOnce webStored (webAt 30000) ∧
      ¬ KeepsPort webStored (webAt 0) 30000 := by
  have hstored :
      (webStored .services).lookup "default/web" = some (webAt 30000) := by decide +kernel
  obtain ⟨hkeeps, htwice⟩ := reapply_iff webStored (webAt 30000) (webAt 30000) hstored
  refine ⟨hstored, hkeeps.mpr ⟨by decide, by decide, rfl, by decide +kernel⟩,
    htwice.mpr (.inl (by decide)), fun h => ?_⟩
  exact ((reapply_iff webStored (webAt 0) (webAt 30000) hstored).1.mp h).2.1 rfl

/-- The manifest of a service at port 30000 is applied again, and the service is at 30001. -/
theorem service_moved :
    (webStored .services).lookup "default/web" = some (webAt 30000) ∧
      ∃ x s', (createService (webAt 0)).Runs serve webStored x s' ∧ Succeeded x ∧
        (s' .services).lookup "default/web" = some (webAt 30001) := by
  refine ⟨by decide +kernel, ?_⟩
  have ho : Finmap.IsOrder ["default/web"] (webStored.listing .services "") := by decide +kernel
  have hp : chosenPort (webAt 0) (webStored.listed .services "" ["default/web"]) = .ok 30001 := by
    decide +kernel
  obtain ⟨t, ht⟩ := runs_createService (by decide) ho hp
  exact ⟨_, _, ht, succeeded_ok t, by decide +kernel⟩

end NimbusCore.Apiserver
