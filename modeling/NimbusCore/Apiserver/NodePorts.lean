import NimbusCore.Apiserver.Services

/-!
# Apiserver — node ports among concurrent calls

Any number of `CreateService` and `DeleteService` calls, interleaved command by command, over a
store that may fail at any command.  A call lists the services, chooses a port and then puts the
service.

* `node_ports_unique`: when no service is put between the listing of a call and its put (`Unraced`),
  no two services that are stored have the same port.
* `two_services_one_port`: otherwise two calls choose the same one.
-/

namespace NimbusCore.Apiserver

open Api Registry

/-! ### The calls -/

/-- A call of the service service that writes. -/
inductive ServiceOp where
  | create (s : Service)
  | delete (ns name : String)

/-- What it runs. -/
def ServiceOp.prog : ServiceOp → Reg Unit
  | .create s => do
    let _ ← createService s
    return ()
  | .delete ns name => do
    let _ ← deleteService ns name
    return ()

theorem along_serviceOp (op : ServiceOp) : op.prog.Along PutsFreePort [] := by
  cases op with
  | create s =>
    refine Prog.Along.bind ?_ (along_createService s)
    exact fun _ _ => trivial
  | delete ns name =>
    refine ⟨trivial, fun x => ?_⟩
    cases x <;> trivial

/-! ### Ports that are stored -/

/-- **No two services have the same port**, none apart. -/
def DistinctPorts (t : State) : Prop :=
  ∀ p q s s', (t .services).lookup p = some s → (t .services).lookup q = some s' →
    s.getSpec.nodePort ≠ 0 → s.getSpec.nodePort = s'.getSpec.nodePort → p = q

/-- Services are stored under their own names. -/
def OwnNames (t : State) : Prop :=
  ∀ p s, (t .services).lookup p = some s → path s.getMetadata.ns s.getMetadata.name = p

/-- Every service that is stored was listed. -/
def ListedIn (all : List Service) (t : State) : Prop :=
  ∀ p s, (t .services).lookup p = some s → s ∈ all

/-- A step of the calls. -/
abbrev ServiceStep (ι : Type) := Prog.Event ι Cmd Cmd.Answer State

/-- A call has put a service. -/
def servicePut : (c : Cmd) → c.Answer → Bool
  | .put .services _ _ _, .ok () => true
  | _, _ => false

/-- The step puts a service. -/
def PutsService {ι : Type} (e : ServiceStep ι) : Prop := servicePut e.cmd e.answer = true

instance {ι : Type} : DecidablePred (PutsService (ι := ι)) :=
  fun _ => inferInstanceAs (Decidable (_ = true))

/-- **No service is put between the listing of a call and its put.** -/
def Unraced (ι : Type) [DecidableEq ι] :
    Prog.Guard ι Cmd Cmd.Answer Stop Unit State := fun tr _ e =>
  PutsService e → Prog.Undisturbed (Prog.Shows listedServices e.who) PutsService tr

instance {ι : Type} [DecidableEq ι] (tr : List (ServiceStep ι)) (Q : ι → Reg Unit)
    (e : ServiceStep ι) : Decidable (Unraced ι tr Q e) :=
  inferInstanceAs (Decidable (_ → _))

/-! ### One step -/

variable {c : Cmd} {p : String} {s : Service}

theorem servicePut_of_writesAt {x : c.Answer} (h : c.writesAt .services p x = some (some s)) :
    servicePut c x = true := by
  obtain ⟨ns, name, -, rfl⟩ := put_of_writesAt h
  cases x with
  | error err => cases h
  | ok _ => rfl

variable {all : List Service}

/-- What is listed is what is stored. -/
theorem listedIn_of_listed {x : c.Answer} {t t' : State} (h : serveOrFail c t x t')
    (hall : listedServices c x = some all) : ListedIn all t' := by
  rcases c with _ | _ | _ | ⟨k, ns⟩ <;> try cases hall
  cases k <;> cases x <;> try cases hall
  simp only [listedServices] at hall
  split at hall
  · next hns =>
    cases hall
    subst hns
    intro p s hs
    have ht := serveOrFail_post h
    rw [ht] at hs
    exact (mem_of_list h).mpr ⟨p, .inl rfl, hs⟩
  · cases hall

section

variable {ι : Type} [DecidableEq ι] {e : ServiceStep ι}

omit [DecidableEq ι] in
/-- What is stored after a step was put by it, or was stored before. -/
theorem lookup_step (he : serveOrFail e.cmd e.pre e.answer e.post)
    (hs : (e.post .services).lookup p = some s) :
    (e.pre .services).lookup p = some s ∨
      PutsService e ∧ ∃ ns name, path ns name = p ∧ e.cmd = .put .services ns name s := by
  rw [serveOrFail_post he, lookup_effect] at hs
  rcases hw : e.cmd.writesAt .services p e.answer with _ | _ | s'
  · rw [hw] at hs
    exact .inl hs
  · rw [hw] at hs
    cases hs
  · rw [hw] at hs
    cases hs
    exact .inr ⟨servicePut_of_writesAt hw, put_of_writesAt hw⟩

omit [DecidableEq ι] in
/-- A step that puts no service leaves no other service than there was. -/
theorem ListedIn.step (he : serveOrFail e.cmd e.pre e.answer e.post)
    (hq : ¬ PutsService e) (h : ListedIn all e.pre) : ListedIn all e.post :=
  fun p s hs => h p s ((lookup_step he hs).resolve_right fun hput => hq hput.1)

/-- What holds along the run: a call knows what it has listed, and the ports are distinct. -/
structure PortsKept (tr : List (ServiceStep ι)) (t : State) : Prop where
  knows : ∀ i, Prog.Knows ListedIn listedServices PutsService i tr t
  names : OwnNames t
  distinct : DistinctPorts t

/-- **A service is put with a port of its own.** -/
theorem PortsKept.fresh {tr : List (ServiceStep ι)} (h : PortsKept tr e.pre)
    {ns name : String} (hcmd : e.cmd = .put .services ns name s)
    (hf : PutsFreePort (Prog.history e.who tr) e.cmd)
    (hg : Prog.Undisturbed (Prog.Shows listedServices e.who) PutsService tr) {q : String}
    {s' : Service} (hs' : (e.pre .services).lookup q = some s')
    (hport : s.getSpec.nodePort = s'.getSpec.nodePort) : path ns name = q := by
  rw [hcmd] at hf
  obtain ⟨-, -, all, hseen, hfree⟩ := hf
  have hmem := h.knows e.who hg all hseen q s' hs'
  have hsame : s'.getMetadata.ns = ns ∧ s'.getMetadata.name = name := by
    by_contra hne
    exact hfree s' hmem ⟨hport.symm, hne⟩
  rw [← hsame.1, ← hsame.2]
  exact h.names q s' hs'

/-- **One step.** -/
theorem PortsKept.step {tr : List (ServiceStep ι)} (h : PortsKept tr e.pre)
    (he : serveOrFail e.cmd e.pre e.answer e.post) (hf : PutsFreePort (Prog.history e.who tr) e.cmd)
    (hg : PutsService e → Prog.Undisturbed (Prog.Shows listedServices e.who) PutsService tr) :
    PortsKept (e :: tr) e.post where
  knows i := (h.knows i).step (fun _ hv => listedIn_of_listed he hv) fun hq _ hv => hv.step he hq
  names p s hs := by
    rcases lookup_step he hs with hs | ⟨-, ns, name, rfl, hcmd⟩
    · exact h.names p s hs
    · rw [hcmd] at hf
      rw [← hf.1.1, ← hf.1.2]
  distinct p q s s' hs hs' hne hport := by
    rcases lookup_step he hs with hs | ⟨hput, ns, name, rfl, hcmd⟩
    · rcases lookup_step he hs' with hs' | ⟨hput, ns, name, rfl, hcmd⟩
      · exact h.distinct p q s s' hs hs' hne hport
      · exact (h.fresh hcmd hf (hg hput) hs hport.symm).symm
    · rcases lookup_step he hs' with hs' | ⟨-, ns', name', rfl, hcmd'⟩
      · exact h.fresh hcmd hf (hg hput) hs' hport
      · cases hcmd.symm.trans hcmd'
        rfl

/-! ### Every run -/

/-- **Node ports are unique**, when no service is put between the listing of a call and its put. -/
theorem node_ports_unique {ops : ι → ServiceOp} {tr : List (ServiceStep ι)} {Q : ι → Reg Unit}
    {t : State} (h : Prog.Interleaves (Unraced ι) serveOrFail (fun i => (ops i).prog) State.empty
      tr Q t) : DistinctPorts t := by
  have hkept : PortsKept tr t := by
    refine h.invariant (I := fun tr _ t => PortsKept tr t)
      ⟨fun _ => Prog.knows_nil, fun _ _ hs => ?_, fun _ _ _ _ hs => ?_⟩ ?_
    · cases hs
    · cases hs
    · intro tr Q t i c k x t' h hk hQ hH hG
      exact hk.step hH (h.along_next (fun i => along_serviceOp (ops i)) hQ) hG
  exact hkept.distinct

end

/-! ### Two calls at once -/

/-- Two users. -/
inductive Caller where
  | first
  | second
  deriving DecidableEq

/-- Each creates a service, and leaves the port to the server. -/
def twoServices : Caller → ServiceOp
  | .first => .create { metadata := some { name := "a", ns := "default" } }
  | .second => .create { metadata := some { name := "b", ns := "default" } }

/-- The port of a service that is stored. -/
def portAt (t : State) (p : String) : Option Int32 :=
  ((t .services).lookup p).map fun s => s.getSpec.nodePort

/-- One after the other. -/
def inTurn : List (Caller × List String) :=
  [(.first, []), (.first, []), (.second, ["default/a"]), (.second, [])]

theorem node_ports_unique_sample :
    ∃ tr Q t, Prog.Interleaves (Unraced Caller) serveOrFail (fun i => (twoServices i).prog)
        State.empty tr Q t ∧
      (portAt t "default/a" = some 30000 ∧ portAt t "default/b" = some 30001) ∧
      DistinctPorts t := by
  obtain ⟨tr, Q, t, h, ht⟩ := Prog.exists_of_play (G := Unraced Caller)
    (P := fun i => (twoServices i).prog) (s := State.empty)
    (T := fun r => portAt r.state "default/a" = some 30000 ∧
      portAt r.state "default/b" = some 30001)
    serveOrFail_of_resolve inTurn (by decide +kernel)
  exact ⟨tr, Q, t, h, ht, node_ports_unique h⟩

/-- Both list the services before either is put. -/
def atOnce : List (Caller × List String) :=
  [(.first, []), (.second, []), (.first, []), (.second, [])]

/-- **Two services with one port.** -/
theorem two_services_one_port :
    ∃ tr Q t, Prog.Interleaves Prog.unguarded serveOrFail (fun i => (twoServices i).prog)
        State.empty tr Q t ∧
      portAt t "default/a" = some 30000 ∧ portAt t "default/b" = some 30000 :=
  Prog.exists_of_play (T := fun r => portAt r.state "default/a" = some 30000 ∧
      portAt r.state "default/b" = some 30000)
    serveOrFail_of_resolve atOnce (by decide +kernel)

end NimbusCore.Apiserver
