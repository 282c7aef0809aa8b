import NimbusCore.Api.Messages
import NimbusCore.Support.Programs
import NimbusCore.Support.Text

/-!
# Registry — typed objects over the store

`internal/registry/registry.go`.  An object of a kind is stored under
`/registry/<kind>/<ns>/<name>`, or `/registry/<kind>/<name>` when the namespace is empty.  No kind
has a slash in its name, so the part of the store under `/registry/<kind>/` belongs to one kind;
`State` is that part for each kind, by what follows the kind in the key (`path`).

The code above the registry is a program over its four operations (`Cmd`).  `serve` answers as a
store does that never fails: a listing returns the objects in some order.  `serveOrFail` may instead
fail at any operation, which then changes nothing; a stored text that does not unmarshal is such a
failure.
-/

namespace NimbusCore.Registry

open Api Prog String

/-- The kinds that are stored.  The controllers use the first four. -/
inductive Kind where
  | deployments
  | pods
  | nodes
  | volumes
  | services
  | policies
  | secrets
  | networkpolicies
  | namespaces
  | images
  deriving DecidableEq

/-- `Registry.kind`. -/
def Kind.name : Kind → String
  | .deployments => "deployments"
  | .pods => "pods"
  | .nodes => "nodes"
  | .volumes => "volumes"
  | .services => "services"
  | .policies => "policies"
  | .secrets => "secrets"
  | .networkpolicies => "networkpolicies"
  | .namespaces => "namespaces"
  | .images => "images"

/-- The message type of a kind. -/
abbrev Kind.Obj : Kind → Type
  | .deployments => Deployment
  | .pods => Pod
  | .nodes => Node
  | .volumes => Volume
  | .services => Service
  | .policies => Policy
  | .secrets => Secret
  | .networkpolicies => NetworkPolicy
  | .namespaces => Namespace
  | .images => ImageRecord

/-! ### Keys -/

/-- What follows the kind in a key. -/
def path (ns name : String) : String := if ns = "" then name else ns ++ "/" ++ name

/-- A path that the listing of `ns` returns. -/
def Listed (ns path : String) : Prop := ns = "" ∨ (ns ++ "/").toList <+: path.toList

instance (ns path : String) : Decidable (Listed ns path) :=
  inferInstanceAs (Decidable (_ ∨ _))

@[simp] theorem path_empty (name : String) : path "" name = name := rfl

variable {ns : String}

theorem path_of_ne (h : ns ≠ "") (name : String) :
    path ns name = ns ++ "/" ++ name := if_neg h

theorem path_right_inj {a b : String} (h : path ns a = path ns b) : a = b := by
  simp only [path] at h
  split at h
  · exact h
  · exact append_right_inj _ |>.mp h

/-- What is stored in a namespace is listed for it. -/
theorem listed_path (h : ns ≠ "") (name : String) : Listed ns (path ns name) := by
  have hp : (ns ++ "/" ++ name).toList = (ns ++ "/").toList ++ name.toList := toList_append
  refine .inr ?_
  rw [path_of_ne h, hp]
  exact List.prefix_append _ _

/-- No slash in a namespace or a name. -/
def NoSlash (t : String) : Prop := '/' ∉ t.toList

instance (t : String) : Decidable (NoSlash t) := inferInstanceAs (Decidable (¬ _))

variable {name : String}

/-- **What is listed for a namespace is in it**, if its own namespace and name have no slash. -/
theorem ns_eq_of_listed {ns' : String} (h : ns ≠ "") (hns' : NoSlash ns')
    (hname : NoSlash name) (hl : Listed ns (path ns' name)) : ns' = ns := by
  have hl := hl.resolve_left h
  by_cases he : ns' = ""
  · subst he
    exact absurd (hl.subset (by simp)) hname
  · rw [path_of_ne he] at hl
    simp only [toList_append, List.append_assoc] at hl
    exact (toList_injective (eq_of_isPrefix_append_sep hns' hname hl)).symm

/-! ### The state -/

/-- The stored objects of each kind, by path. -/
abbrev State := (k : Kind) → Dict String k.Obj

variable {k k' : Kind}

namespace State

/-- The state with other objects of one kind. -/
def set (s : State) (k : Kind) (objs : Dict String k.Obj) : State := Function.update s k objs

@[simp] theorem set_self (s : State) (k : Kind) (objs : Dict String k.Obj) :
    s.set k objs k = objs :=
  Function.update_self ..

@[simp] theorem set_of_ne (s : State) (h : k' ≠ k) (objs : Dict String k.Obj) :
    s.set k objs k' = s k' :=
  Function.update_of_ne h ..

@[simp] theorem set_set (s : State) (k : Kind) (objs objs' : Dict String k.Obj) :
    (s.set k objs).set k objs' = s.set k objs' :=
  Function.update_idem ..

@[simp] theorem set_eq (s : State) (k : Kind) : s.set k (s k) = s := Function.update_eq_self ..

/-- Nothing is stored. -/
def empty : State := fun _ => ∅

/-- The objects a listing of `ns` returns, by path. -/
def listing (s : State) (k : Kind) (ns : String) : Dict String k.Obj :=
  (s k).filter fun p _ => Listed ns p

theorem lookup_listing (s : State) (k : Kind) (ns p : String) :
    (s.listing k ns).lookup p = if Listed ns p then (s k).lookup p else none := by
  rw [listing, Finmap.lookup_filter]
  cases (s k).lookup p <;> by_cases h : Listed ns p <;> simp [h]

/-- The listing of all namespaces is everything. -/
theorem listing_all (s : State) (k : Kind) : s.listing k "" = s k := by
  refine Finmap.ext_lookup fun p => ?_
  rw [lookup_listing, if_pos (.inl rfl)]

end State

/-! ### Commands -/

/-- The errors of the registry: the object is not there, or anything else. -/
inductive RegistryError where
  /-- `store.ErrNotFound`. -/
  | notFound
  | failed
  deriving DecidableEq

/-- A call of a registry. -/
inductive Cmd where
  | get (k : Kind) (ns name : String)
  | put (k : Kind) (ns name : String) (obj : k.Obj)
  | delete (k : Kind) (ns name : String)
  | list (k : Kind) (ns : String)

/-- What a call returns. -/
abbrev Cmd.Answer : Cmd → Type
  | .get k _ _ => Except RegistryError k.Obj
  | .put _ _ _ _ | .delete _ _ _ => Except RegistryError Unit
  | .list k _ => Except RegistryError (List k.Obj)

/-- What `Registry.Get` returns of a store that never fails. -/
def State.find (s : State) (k : Kind) (ns name : String) : Except RegistryError k.Obj :=
  match (s k).lookup (path ns name) with
  | some obj => .ok obj
  | none => .error .notFound

theorem State.find_cases (s : State) (k : Kind) (ns name : String) :
    (∃ obj, (s k).lookup (path ns name) = some obj ∧ s.find k ns name = .ok obj) ∨
      (s k).lookup (path ns name) = none ∧ s.find k ns name = .error .notFound := by
  rw [State.find]
  cases (s k).lookup (path ns name) with
  | none => exact .inr ⟨rfl, rfl⟩
  | some obj => exact .inl ⟨obj, rfl, rfl⟩

/-- The listing of `ns` in the order `order`. -/
def State.listed (s : State) (k : Kind) (ns : String) (order : List String) : List k.Obj :=
  ((s.listing k ns).range order).map Prod.snd

/-- A store that never fails.  A listing may come in any order. -/
def serve : Handler Cmd Cmd.Answer State
  | .get k ns name, s, r, s' => s' = s ∧ r = s.find k ns name
  | .put k ns name obj, s, r, s' => s' = s.set k ((s k).insert (path ns name) obj) ∧ r = .ok ()
  | .delete k ns name, s, r, s' => s' = s.set k ((s k).erase (path ns name)) ∧ r = .ok ()
  | .list k ns, s, r, s' => s' = s ∧
      ∃ order, Finmap.IsOrder order (s.listing k ns) ∧ r = .ok (s.listed k ns order)

/-- The answer of a call that fails. -/
def Cmd.failure : (c : Cmd) → c.Answer
  | .get _ _ _ | .put _ _ _ _ | .delete _ _ _ | .list _ _ => .error .failed

/-- A store that may fail at any call, which then changes nothing. -/
def serveOrFail : Handler Cmd Cmd.Answer State :=
  fun c s r s' => serve c s r s' ∨ s' = s ∧ r = c.failure

/-- Every call has an answer. -/
theorem serve_total (c : Cmd) (s : State) : ∃ r s', serve c s r s' := by
  cases c with
  | get k ns name => exact ⟨_, s, rfl, rfl⟩
  | put k ns name obj | delete k ns name => exact ⟨_, _, rfl, rfl⟩
  | list k ns =>
    obtain ⟨order, ho⟩ := Finmap.exists_isOrder (s.listing k ns)
    exact ⟨_, s, rfl, order, ho, rfl⟩

/-- What a store that never fails answers, if a listing is to come in the order `order`. -/
def resolve : (c : Cmd) → (order : List String) → State → Option (c.Answer × State)
  | .get k ns name, _, s => some (s.find k ns name, s)
  | .put k ns name obj, _, s => some (.ok (), s.set k ((s k).insert (path ns name) obj))
  | .delete k ns name, _, s => some (.ok (), s.set k ((s k).erase (path ns name)))
  | .list k ns, order, s =>
    if Finmap.IsOrder order (s.listing k ns) then some (.ok (s.listed k ns order), s) else none

theorem serve_of_resolve (c : Cmd) (order : List String) (s : State) (x : c.Answer)
    (s' : State) (h : resolve c order s = some (x, s')) : serve c s x s' := by
  cases c with
  | get k ns name | put k ns name obj | delete k ns name => cases h; exact ⟨rfl, rfl⟩
  | list k ns =>
    rw [resolve] at h
    split at h
    · next ho => cases h; exact ⟨rfl, order, ho, rfl⟩
    · cases h

theorem serveOrFail_of_resolve (c : Cmd) (order : List String) (s : State) (x : c.Answer)
    (s' : State) (h : resolve c order s = some (x, s')) : serveOrFail c s x s' :=
  .inl (serve_of_resolve c order s x s' h)

/-- What a call does to the state, given its answer. -/
def Cmd.effect : (c : Cmd) → c.Answer → State → State
  | .put k ns name obj, .ok (), s => s.set k ((s k).insert (path ns name) obj)
  | .delete k ns name, .ok (), s => s.set k ((s k).erase (path ns name))
  | .put _ _ _ _, .error _, s | .delete _ _ _, .error _, s | .get _ _ _, _, s | .list _ _, _, s => s

variable {c : Cmd} {s s' : State} {x : c.Answer}

/-- **The answer tells what was done.** -/
theorem serveOrFail_post (h : serveOrFail c s x s') : s' = c.effect x s := by
  rcases h with h | ⟨rfl, rfl⟩
  · cases c with
    | get k ns name => exact h.1
    | list k ns => exact h.1
    | put k ns name obj | delete k ns name => obtain ⟨rfl, rfl⟩ := h; rfl
  · cases c <;> rfl

/-- What a call writes at a path, given its answer: an object, or none when it deletes. -/
def Cmd.writesAt (k : Kind) (p : String) : (c : Cmd) → c.Answer → Option (Option k.Obj)
  | .put k' ns name obj, .ok () =>
    if h : k' = k ∧ path ns name = p then some (some (h.1 ▸ obj)) else none
  | .delete k' ns name, .ok () => if k' = k ∧ path ns name = p then some none else none
  | .put _ _ _ _, .error _ | .delete _ _ _, .error _ | .get _ _ _, _ | .list _ _, _ => none

/-- **What a call leaves at a path** is what it writes there, or what there was. -/
theorem lookup_effect (k : Kind) (p : String) (c : Cmd) (x : c.Answer) (s : State) :
    ((c.effect x s) k).lookup p = (c.writesAt k p x).getD ((s k).lookup p) := by
  rcases c with _ | ⟨k', ns, name, obj⟩ | ⟨k', ns, name⟩ | _
  · rfl
  · rcases x with e | _
    · rfl
    by_cases hk : k' = k
    · subst hk
      by_cases hp : path ns name = p
      · simp [Cmd.effect, Cmd.writesAt, hp]
      · simp [Cmd.effect, Cmd.writesAt, hp, Finmap.lookup_insert_of_ne _ (Ne.symm hp)]
    · simp [Cmd.effect, Cmd.writesAt, hk, State.set_of_ne s (Ne.symm hk)]
  · rcases x with e | _
    · rfl
    by_cases hk : k' = k
    · subst hk
      by_cases hp : path ns name = p
      · simp [Cmd.effect, Cmd.writesAt, hp]
      · simp [Cmd.effect, Cmd.writesAt, hp, Finmap.lookup_erase_ne (Ne.symm hp)]
    · simp [Cmd.effect, Cmd.writesAt, hk, State.set_of_ne s (Ne.symm hk)]
  · rfl

/-- A call that leaves an object at a path has put it there. -/
theorem put_of_writesAt {p : String} {obj : k.Obj} (h : c.writesAt k p x = some (some obj)) :
    ∃ ns name, path ns name = p ∧ c = .put k ns name obj := by
  rcases c with _ | ⟨k', ns, name, obj'⟩ | _ | _
  · cases h
  · rcases x with e | _
    · cases h
    simp only [Cmd.writesAt] at h
    split at h
    · next hk => obtain ⟨rfl, rfl⟩ := hk; cases h; exact ⟨ns, name, rfl, rfl⟩
    · cases h
  · cases x with
    | error e => cases h
    | ok _ => simp only [Cmd.writesAt] at h; split at h <;> cases h
  · cases h

/-- A call that leaves nothing at a path has deleted there. -/
theorem delete_of_writesAt {p : String} (h : c.writesAt k p x = some none) :
    ∃ ns name, path ns name = p ∧ c = .delete k ns name := by
  rcases c with _ | _ | ⟨k', ns, name⟩ | _
  · cases h
  · cases x with
    | error e => cases h
    | ok _ => simp only [Cmd.writesAt] at h; split at h <;> cases h
  · rcases x with e | _
    · cases h
    simp only [Cmd.writesAt] at h
    split at h
    · next hk => obtain ⟨rfl, rfl⟩ := hk; exact ⟨ns, name, rfl, rfl⟩
    · cases h
  · cases h

/-- What is read is stored. -/
theorem lookup_of_get {obj : k.Obj} (h : serveOrFail (.get k ns name) s (.ok obj) s') :
    (s k).lookup (path ns name) = some obj := by
  rcases h with ⟨-, h⟩ | ⟨-, h⟩
  · rcases s.find_cases k ns name with ⟨obj', hl, hf⟩ | ⟨-, hf⟩
    · cases h.trans hf; exact hl
    · cases h.trans hf
  · cases h

/-- What is not found is not stored. -/
theorem lookup_eq_none_of_get (h : serveOrFail (.get k ns name) s (.error .notFound) s') :
    (s k).lookup (path ns name) = none := by
  rcases h with ⟨-, h⟩ | ⟨-, h⟩
  · rcases s.find_cases k ns name with ⟨obj, -, hf⟩ | ⟨hl, -⟩
    · cases h.trans hf
    · exact hl
  · cases h

/-- What a listing in some order returns. -/
theorem State.mem_listed {order : List String} (ho : Finmap.IsOrder order (s.listing k ns))
    {obj : k.Obj} : obj ∈ s.listed k ns order ↔ ∃ p, Listed ns p ∧ (s k).lookup p = some obj := by
  have hk : ∀ p, (p, obj) ∈ (s.listing k ns).range order ↔
      Listed ns p ∧ (s k).lookup p = some obj := by
    intro p
    rw [ho.mem_range, State.lookup_listing]
    by_cases h : Listed ns p <;> simp [h]
  constructor
  · intro h
    obtain ⟨⟨p, obj⟩, hm, rfl⟩ := List.mem_map.mp h
    exact ⟨p, (hk p).mp hm⟩
  · rintro ⟨p, h⟩
    exact List.mem_map.mpr ⟨(p, obj), (hk p).mpr h, rfl⟩

/-- **A listing returns what is stored under its prefix.** -/
theorem mem_of_list {objs : List k.Obj} (h : serveOrFail (.list k ns) s (.ok objs) s')
    {obj : k.Obj} :
    obj ∈ objs ↔ ∃ p, Listed ns p ∧ (s k).lookup p = some obj := by
  rcases h with ⟨-, order, ho, h⟩ | ⟨-, h⟩
  · cases h; exact State.mem_listed ho
  · cases h

/-- The kind a call writes to, if any. -/
def Cmd.writes : Cmd → Option Kind
  | .put k _ _ _ | .delete k _ _ => some k
  | .get _ _ _ | .list _ _ => none

/-- A call that writes at most to one kind. -/
def Cmd.OnlyWrites (k : Kind) (c : Cmd) : Prop := ∀ k' ∈ c.writes, k' = k

theorem onlyWrites_put (k : Kind) (ns name : String) (obj : k.Obj) :
    (Cmd.put k ns name obj).OnlyWrites k :=
  fun _ hk => (Option.some.inj hk).symm

theorem onlyWrites_delete (k : Kind) (ns name : String) : (Cmd.delete k ns name).OnlyWrites k :=
  fun _ hk => (Option.some.inj hk).symm

/-- The other kinds stay as they are. -/
theorem serve_frame (h : c.OnlyWrites k) {r : c.Answer} (hs : serve c s r s') (hk : k' ≠ k) :
    s' k' = s k' := by
  cases c with
  | get _ _ _ => rw [hs.1]
  | list _ _ => rw [hs.1]
  | put k₁ _ _ _ | delete k₁ _ _ =>
    rw [hs.1]
    exact State.set_of_ne _ (fun e => hk (e.trans (h k₁ rfl))) _

theorem serveOrFail_frame (h : c.OnlyWrites k) {r : c.Answer} (hs : serveOrFail c s r s')
    (hk : k' ≠ k) : s' k' = s k' := by
  rcases hs with hs | ⟨rfl, -⟩
  · exact serve_frame h hs hk
  · rfl

/-! ### What is stored -/

/-- Every object that is stored is in `Q`. -/
def State.All (Q : (k : Kind) → k.Obj → Prop) (s : State) : Prop :=
  ∀ k p obj, (s k).lookup p = some obj → Q k obj

/-- What is put is in `Q`. -/
def Cmd.Puts (Q : (k : Kind) → k.Obj → Prop) : Cmd → Prop
  | .put k _ _ obj => Q k obj
  | .get _ _ _ | .delete _ _ _ | .list _ _ => True

/-- What is answered is in `Q`. -/
def Cmd.Tells (Q : (k : Kind) → k.Obj → Prop) : (c : Cmd) → c.Answer → Prop
  | .get k _ _, .ok obj => Q k obj
  | .list k _, .ok objs => ∀ obj ∈ objs, Q k obj
  | _, _ => True

section

variable {Q : (k : Kind) → k.Obj → Prop}

theorem State.all_empty : State.empty.All Q := fun _ _ _ h => by cases h

/-- **What is put in `Q` keeps the store in `Q`.** -/
theorem State.All.step (h : s.All Q) (hc : c.Puts Q) (hs : serveOrFail c s x s') : s'.All Q := by
  intro k p obj hobj
  rw [serveOrFail_post hs, lookup_effect] at hobj
  rcases hw : c.writesAt k p x with _ | _ | obj'
  · rw [hw] at hobj
    exact h k p obj hobj
  · rw [hw] at hobj
    cases hobj
  · rw [hw] at hobj
    cases hobj
    obtain ⟨ns, name, -, rfl⟩ := put_of_writesAt hw
    exact hc

/-- A store in `Q` answers in `Q`. -/
theorem State.All.tells (h : s.All Q) (hs : serveOrFail c s x s') : c.Tells Q x := by
  cases c with
  | get k ns name =>
    cases x with
    | error err => trivial
    | ok obj => exact h k _ obj (lookup_of_get hs)
  | list k ns =>
    rcases x with err | objs
    · trivial
    intro obj hobj
    obtain ⟨p, -, hp⟩ := (mem_of_list hs).mp hobj
    exact h k p obj hp
  | put k ns name obj => trivial
  | delete k ns name => trivial

end

/-! ### Programs over the registry -/

/-- An error a program returns, with the text it has been wrapped in. -/
structure Failure where
  text : String
  cause : RegistryError

/-- Why a program does not go on. -/
inductive Panic where
  | indexOutOfRange
  | nilDereference
  /-- Not a panic of the source: a loop of the model that is cut short. -/
  | outOfFuel
  deriving DecidableEq

/-- How a program ends without a value: it returns an error, or it panics. -/
inductive Stop where
  | err (e : Failure)
  | panic (p : Panic)

/-- A program over the registry. -/
abbrev Reg := Prog Cmd Cmd.Answer Stop

/-- `Registry.Get`. -/
def get (k : Kind) (ns name : String) : Reg (Except RegistryError k.Obj) :=
  Prog.ask (Cmd.get k ns name)

/-- `Registry.Put`. -/
def put (k : Kind) (ns name : String) (obj : k.Obj) : Reg (Except RegistryError Unit) :=
  Prog.ask (Cmd.put k ns name obj)

/-- `Registry.Delete`. -/
def delete (k : Kind) (ns name : String) : Reg (Except RegistryError Unit) :=
  Prog.ask (Cmd.delete k ns name)

/-- `Registry.List`. -/
def list (k : Kind) (ns : String) : Reg (Except RegistryError (List k.Obj)) :=
  Prog.ask (Cmd.list k ns)

/-- `if err != nil { return err }`, wrapped in `text`. -/
def orReturn {α : Type} (text : String) : Except RegistryError α → Reg α
  | .ok a => .ret a
  | .error e => .stop (.err ⟨text, e⟩)

/-- `fmt.Errorf("<text>: %w", err)` around whatever error the program returns. -/
def wrap {α : Type} (text : String) (p : Reg α) : Reg α :=
  p.mapStop fun
    | .err e => .err ⟨text ++ ": " ++ e.text, e.cause⟩
    | .panic p => .panic p

/-- A stop that is not a panic. -/
def Stop.IsErr : Stop → Prop
  | .err _ => True
  | .panic _ => False

/-- The error of a program as a value; a panic goes through. -/
def catchErr {α : Type} (p : Reg α) : Reg (Except Failure α) :=
  p.attempt fun
    | .err e => some e
    | .panic _ => none

/-! ### Their runs -/

variable {text : String}

section Runs

variable {α β : Type} {s s' : State} {r : Except Stop β} {f : α → Reg β}
  {H : Handler Cmd Cmd.Answer State}

/-- A command, and what follows it. -/
theorem runs_ask_bind {f : c.Answer → Reg β} :
    (Prog.ask c >>= f).Runs H s r s' ↔ ∃ x s₁, H c s x s₁ ∧ (f x).Runs H s₁ r s' := Iff.rfl

theorem yields_get : (get k ns name).Yields serve s (s.find k ns name) s :=
  yields_ask fun _ _ => and_comm

theorem yields_put {obj : k.Obj} :
    (put k ns name obj).Yields serve s (.ok ())
      (s.set k ((s k).insert (path ns name) obj)) :=
  yields_ask fun _ _ => and_comm

theorem yields_delete :
    (delete k ns name).Yields serve s (.ok ()) (s.set k ((s k).erase (path ns name))) :=
  yields_ask fun _ _ => and_comm

theorem returns_list :
    (list k ns).Returns serve s fun x s' =>
      ∃ order, Finmap.IsOrder order (s.listing k ns) ∧ x = .ok (s.listed k ns order) ∧ s' = s := by
  intro r s'
  rw [list, runs_ask]
  constructor
  · rintro ⟨x, rfl, rfl, order, ho, rfl⟩; exact ⟨_, rfl, order, ho, rfl, rfl⟩
  · rintro ⟨_, rfl, order, ho, rfl, rfl⟩; exact ⟨_, rfl, rfl, order, ho, rfl⟩

/-- What follows a listing and has one run. -/
theorem returns_list_bind {f : Except RegistryError (List k.Obj) → Reg β} {b : List String → β}
    {t : List String → State}
    (hf : ∀ order, (f (.ok (s.listed k ns order))).Yields serve s (b order) (t order)) :
    (list k ns >>= f).Returns serve s fun x s' =>
      ∃ order, Finmap.IsOrder order (s.listing k ns) ∧ x = b order ∧ s' = t order := by
  intro r s'
  rw [Returns.runs_bind returns_list]
  constructor
  · rintro ⟨_, _, ⟨order, ho, rfl, rfl⟩, hr⟩
    obtain ⟨_, rfl, rfl, rfl⟩ := (hf order _ _).mp hr
    exact ⟨_, rfl, order, ho, rfl, rfl⟩
  · rintro ⟨_, rfl, order, ho, rfl, rfl⟩
    exact ⟨_, _, ⟨order, ho, rfl, rfl⟩, (hf order _ _).mpr ⟨_, rfl, rfl, rfl⟩⟩

theorem yields_orReturn_ok {a : α} :
    (orReturn text (.ok a)).Yields H s a s := yields_pure

/-- Under a store that may fail, the rest goes on from the answer or from the failure. -/
theorem runs_get_orFail {f : Except RegistryError k.Obj → Reg β}
    (h : (get k ns name >>= f).Runs serveOrFail s r s') :
    (f (s.find k ns name)).Runs serveOrFail s r s' ∨
      (f (.error .failed)).Runs serveOrFail s r s' := by
  obtain ⟨x, s₁, ⟨rfl, rfl⟩ | ⟨rfl, rfl⟩, h⟩ := runs_ask_bind.mp h
  · exact .inl h
  · exact .inr h

theorem runs_put_orFail {obj : k.Obj} {f : Except RegistryError Unit → Reg β}
    (h : (put k ns name obj >>= f).Runs serveOrFail s r s') :
    (f (.ok ())).Runs serveOrFail (s.set k ((s k).insert (path ns name) obj)) r s' ∨
      (f (.error .failed)).Runs serveOrFail s r s' := by
  obtain ⟨x, s₁, ⟨rfl, rfl⟩ | ⟨rfl, rfl⟩, h⟩ := runs_ask_bind.mp h
  · exact .inl h
  · exact .inr h

@[simp] theorem orReturn_ok_bind {a : α} :
    (orReturn text (.ok a) >>= f) = f a := rfl

@[simp] theorem orReturn_error_bind {e : RegistryError} :
    ((orReturn text (.error e) : Reg α) >>= f) = .stop (.err ⟨text, e⟩) := rfl

@[simp] theorem pure_bind_reg {a : α} : ((pure a : Reg α) >>= f) = f a := rfl

variable {H : Handler Cmd Cmd.Answer State}

/-- An error is caught, and the state it leaves stays; a panic is not. -/
theorem runs_catchErr {p : Reg α} {r : Except Stop (Except Failure α)} :
    (catchErr p).Runs H s r s' ↔
      (∃ a, r = .ok (.ok a) ∧ p.Runs H s (.ok a) s') ∨
      (∃ e, r = .ok (.error e) ∧ p.Runs H s (.error (.err e)) s') ∨
      ∃ q, r = .error (.panic q) ∧ p.Runs H s (.error (.panic q)) s' := by
  rw [catchErr, runs_attempt]
  constructor
  · rintro (h | ⟨e, e', he, hr, h⟩ | ⟨e, he, hr, h⟩)
    · exact .inl h
    · cases e with
      | err f => cases he; exact .inr (.inl ⟨_, hr, h⟩)
      | panic q => cases he
    · cases e with
      | err f => cases he
      | panic q => exact .inr (.inr ⟨q, hr, h⟩)
  · rintro (h | ⟨e, hr, h⟩ | ⟨q, hr, h⟩)
    · exact .inl h
    · exact .inr (.inl ⟨.err e, e, rfl, hr, h⟩)
    · exact .inr (.inr ⟨.panic q, rfl, hr, h⟩)

end Runs

/-! ### Programs that only read -/

/-- A call that changes nothing. -/
def Cmd.Reads (c : Cmd) : Prop := c.writes = none

theorem Cmd.Reads.puts {Q : (k : Kind) → k.Obj → Prop} (h : c.Reads) : c.Puts Q := by
  cases c with
  | put k ns name obj => cases h
  | get _ _ _ | delete _ _ _ | list _ _ => trivial

theorem Cmd.Reads.onlyWrites (h : c.Reads) (k : Kind) : c.OnlyWrites k :=
  fun k' hk' => by rw [h] at hk'; cases hk'

theorem eq_of_reads (hc : c.Reads) (h : serveOrFail c s x s') : s' = s := by
  have hpost := serveOrFail_post h
  cases c with
  | get k ns name => exact hpost
  | list k ns => exact hpost
  | put k ns name obj => cases hc
  | delete k ns name => cases hc

/-- The program only reads, and does not panic. -/
abbrev ReadsOnly {α : Type} (p : Reg α) : Prop := p.Within Cmd.Reads Stop.IsErr

section ReadsOnly

variable {α : Type}

@[simp] theorem readsOnly_get : ReadsOnly (get k ns name) :=
  within_ask.mpr rfl

@[simp] theorem readsOnly_list : ReadsOnly (list k ns) :=
  within_ask.mpr rfl

@[simp] theorem readsOnly_orReturn {r : Except RegistryError α} : ReadsOnly (orReturn text r) := by
  cases r with
  | ok a => trivial
  | error e => trivial

end ReadsOnly

/-! ### Programs that write to one kind -/

/-- The program writes at most to `k`, and does not panic. -/
abbrev Quiet {α : Type} (k : Kind) (p : Reg α) : Prop := p.Within (Cmd.OnlyWrites k) Stop.IsErr

section Quiet

variable {α : Type} {k : Kind} {p : Reg α}

theorem ReadsOnly.quiet (h : ReadsOnly p) : Quiet k p :=
  Within.weaken (fun _ hc => hc.onlyWrites k) (fun _ he => he) h

@[simp] theorem quiet_get : Quiet k (get k' ns name) :=
  within_ask.mpr fun _ h => by cases h

@[simp] theorem quiet_list : Quiet k (list k' ns) :=
  within_ask.mpr fun _ h => by cases h

@[simp] theorem quiet_put {obj : k.Obj} : Quiet k (put k ns name obj) :=
  within_ask.mpr (onlyWrites_put k ns name obj)

@[simp] theorem quiet_delete : Quiet k (delete k ns name) :=
  within_ask.mpr (onlyWrites_delete k ns name)

@[simp] theorem quiet_orReturn {r : Except RegistryError α} : Quiet k (orReturn text r) := by
  cases r with
  | ok a => trivial
  | error e => trivial

theorem Quiet.wrap (h : Quiet k p) : Quiet k (Registry.wrap text p) :=
  Within.mapStop (fun e he => by cases e with
    | err f => trivial
    | panic q => exact he) h

/-- What a program that writes to one kind leaves alone. -/
theorem frame_of_within {Q : Stop → Prop} (h : p.Within (Cmd.OnlyWrites k) Q)
    {r : Except Stop α} (hr : p.Runs serveOrFail s r s') (hk : k' ≠ k) : s' k' = s k' :=
  Within.keeps (I := fun t => t k' = s k')
    (fun _ hc _ _ _ hs ht => (serveOrFail_frame hc hs hk).trans ht) h hr rfl

/-- A sequence that panics does so after a quiet first part. -/
theorem Quiet.panic_after {β : Type} (hp : Quiet k p) {f : α → Reg β}
    {q : Panic} (h : (p >>= f).Runs serveOrFail s (.error (.panic q)) s') :
    ∃ a s₁, (f a).Runs serveOrFail s₁ (.error (.panic q)) s' ∧ ∀ k' ≠ k, s₁ k' = s k' := by
  rcases runs_bind.mp h with ⟨a, s₁, h₁, h₂⟩ | ⟨e, he, h₁⟩
  · exact ⟨a, s₁, h₂, fun k' hk => frame_of_within hp h₁ hk⟩
  · cases he
    exact absurd (Within.stops hp h₁) id

end Quiet

end NimbusCore.Registry
