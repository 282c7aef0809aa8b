import NimbusCore.Apiserver.Server

/-!
# Apiserver — what a client can change

The interceptor decides by the method, and the handlers of all methods write to one store.  A client
is granted verbs that change objects (`Mutates`) on every kind but the nodes (`mutates_client_iff`),
so it should leave everything under `/registry/nodes/` as it is.

* `nodes_notMem_kinds`: no request of a client that is let through is one on nodes.
* `client_changes_granted_kinds`: **the bound.**  A client changes objects of those kinds only on
  which its role grants a verb that changes them, if it restores no node.
* `client_restores_node`: `RestoreBackup` puts any key, and the client role grants it.
-/

namespace NimbusCore.Apiserver

open Api Registry Rbac

/-! ### The client role -/

/-- The verbs that change objects of a kind. -/
def mutatingVerbs : List String := ["create", "update", "delete"]

/-- The role grants a verb that changes objects of the kind. -/
def Mutates (role : Role) (k : Kind) : Prop :=
  ∃ verb ∈ mutatingVerbs, role.allows k.name verb = true

instance (role : Role) (k : Kind) : Decidable (Mutates role k) :=
  inferInstanceAs (Decidable (∃ verb ∈ _, _))

/-- A client may change everything but nodes. -/
theorem mutates_client_iff (k : Kind) : Mutates clientRole k ↔ k ≠ .nodes := by
  cases k <;> decide

variable {expectTrustDomain : SpiffeId → Option String} {id : SpiffeId} {req : ApiRequest}

/-- **No request of a client that is let through is one on nodes.** -/
theorem nodes_notMem_kinds (hid : HasPath "/client/" id.path)
    (h : authenticate expectTrustDomain defaultAuthorizer (.ok id) req.method = .ok ()) :
    .nodes ∉ req.kinds := by
  obtain ⟨resource, verb, hrv, hallow⟩ :=
    allow_of_authenticate req.authenticated h
  rw [allow_default_client hid] at hallow
  intro hmem
  have hdenied : ∀ {verb' : String}, clientRole.allows "nodes" verb' = false →
      methodResourceVerb req.method ≠ some ("nodes", verb') := by
    rintro verb' hno he
    cases hrv.symm.trans he
    rw [hno] at hallow
    cases hallow
  cases req with
  | createNode node | deleteNode name | heartbeat req => exact hdenied (by decide) rfl
  | _ => simp [ApiRequest.kinds] at hmem

/-! ### Every run -/

/-- No entry that is restored is a node. -/
def ApiRequest.RestoresNoNode (req : ApiRequest) : Prop :=
  ∀ key ∈ req.keys, ¬ Kind.nodes.root <+: Store.goString key

/-- A request of a client writes under no key of a node. -/
theorem serving_client {deps : Deps}
    (hid : HasPath "/client/" id.path) (hreq : req.RestoresNoNode) :
    (serverCall deps expectTrustDomain defaultAuthorizer (.ok id) req).Ensures (fun _ _ => True)
      (fun c => ∀ key ∈ c.writesKey, ¬ Kind.nodes.root <+: key) fun _ => True := by
  have hserving : Serving (req.kinds.filter (· ≠ .nodes)) req.keys
      (serverCall deps expectTrustDomain defaultAuthorizer (.ok id) req) := by
    refine serving_serverCall fun h => ⟨fun k hk => ?_, fun _ hkey => hkey⟩
    have hne : k ≠ .nodes := fun he => nodes_notMem_kinds hid h (he ▸ hk)
    exact List.mem_filter.mpr ⟨hk, decide_eq_true hne⟩
  refine hserving.mono (fun _ _ h => h) (fun c hc key hkey hroot => ?_) fun _ h => h
  have hkind : ∀ {k : Kind} {p : String}, k ∈ req.kinds.filter (· ≠ .nodes) →
      k.storeKey p = key → False := by
    rintro k p hk rfl
    have hne := of_decide_eq_true (List.mem_filter.mp hk).2
    exact hne (kind_eq_of_root (root_isPrefix k p) hroot)
  rcases c with (c | _) | _ | ⟨key', value⟩ | _
  · rcases c with _ | ⟨k, ns, name, obj⟩ | ⟨k, ns, name⟩ | _
    · cases hkey
    · exact hkind (hc k rfl) (Option.some.inj hkey)
    · exact hkind (hc k rfl) (Option.some.inj hkey)
    · cases hkey
  · cases hkey
  · cases hkey
  · cases hkey
    exact hreq key' hc hroot
  · cases hkey

/-- **The bound.**  Whatever a client asks for, in any order and at any time, nothing under
`/registry/nodes/` is created, changed or deleted, and what is changed is of a kind on which the
role grants a verb that changes it, if no node is restored from a backup. -/
theorem client_changes_granted_kinds {ε : Type} {C : (k : Kind) → Codec k.Obj ε} {deps : Deps}
    {expectTrustDomain : SpiffeId → Option String} {id : SpiffeId}
    (hid : HasPath "/client/" id.path) {ι : Type} [DecidableEq ι] {reqs : ι → ApiRequest}
    (hreqs : ∀ i, (reqs i).RestoresNoNode) {t t' : Store.MemStore}
    {tr : List (Prog.Event ι ServerCmd ServerCmd.Answer Store.MemStore)}
    {Q : ι → Srv (Except Status Unit)} (h : Prog.Interleaves Prog.unguarded (serveServer C)
      (fun i => serverCall deps expectTrustDomain defaultAuthorizer (.ok id) (reqs i)) t tr Q t') :
    (∀ key, Kind.nodes.root <+: key → t'.data.lookup key = t.data.lookup key) ∧
      ∀ k key, k.root <+: key → t'.data.lookup key ≠ t.data.lookup key → Mutates clientRole k := by
  have hnodes : ∀ key, Kind.nodes.root <+: key → t'.data.lookup key = t.data.lookup key := by
    refine (h.ensures (I := fun u => ∀ key, Kind.nodes.root <+: key →
        u.data.lookup key = t.data.lookup key) (fun _ _ _ _ _ _ => trivial) ?_
      (fun i => serving_client hid (hreqs i)) fun _ _ => rfl).1
    intro i c hc u x u' hu hH key hkey
    rw [lookup_serveServer hH fun he => hc key he hkey]
    exact hu key hkey
  refine ⟨hnodes, fun k key hk hne => (mutates_client_iff k).mpr ?_⟩
  rintro rfl
  exact hne (hnodes key hk)

/-! ### A restored node -/

def sampleClient : SpiffeId := ⟨"nimbus", "/client/alice"⟩

/-- A node that says it is ready. -/
def sampleNode : Node :=
  { metadata := some { name := "n1" }, status := some { ready := true } }

def sampleCodecs : (k : Kind) → Codec k.Obj Unit := fewCodecs sampleNode {}

/-- The client restores one entry. -/
def restoreOne (e : BackupEntry) : Srv (Except Status Unit) :=
  serverCall sampleDeps (fun _ => none) defaultAuthorizer (.ok sampleClient) (.restoreBackup [e])

/-- The client may restore any entry. -/
theorem restores_one (e : BackupEntry) (t : Store.MemStore) :
    ∃ tr Q, Prog.Interleaves Prog.unguarded (serveServer sampleCodecs)
      (fun _ : Unit => restoreOne e) t tr Q (t.put (Store.goString e.key) e.value) := by
  have hauth : authenticate (fun _ => none) defaultAuthorizer (.ok sampleClient)
      (ApiRequest.restoreBackup [e]).method = .ok () := by
    simp only [authenticate, ApiRequest.method]
    rfl
  have hcall : restoreOne e = handle sampleDeps (.ok sampleClient) (.restoreBackup [e]) := by
    rw [restoreOne, serverCall, hauth]
  exact ⟨_, _, .cons () .nil hcall (.inl ⟨rfl, rfl⟩) trivial⟩

theorem client_changes_granted_kinds_secret :
    ∃ tr Q t', Prog.Interleaves Prog.unguarded (serveServer sampleCodecs)
        (fun _ : Unit => restoreOne ⟨"/registry/secrets/default/key", [1]⟩)
        (Store.newMemStore.put (Kind.nodes.storeKey "n1") [1]) tr Q t' ∧
      t'.data.lookup (Kind.nodes.storeKey "n1") = some [1] := by
  obtain ⟨tr, Q, h⟩ := restores_one ⟨"/registry/secrets/default/key", [1]⟩
    (Store.newMemStore.put (Kind.nodes.storeKey "n1") [1])
  refine ⟨tr, Q, _, h, ?_⟩
  have hnone : (ApiRequest.restoreBackup [⟨"/registry/secrets/default/key", [1]⟩]).RestoresNoNode :=
    show ∀ key ∈ ["/registry/secrets/default/key"], _ by decide
  have hbound := client_changes_granted_kinds (by decide) (fun _ => hnone) h
  rw [hbound.1 _ (root_isPrefix _ _)]
  decide

/-- **A client restores a node**: it was not there, and then it is, and ready. -/
theorem client_restores_node :
    ∃ tr Q t', Prog.Interleaves Prog.unguarded (serveServer sampleCodecs)
        (fun _ : Unit => restoreOne ⟨"/registry/nodes/n1", [1]⟩) Store.newMemStore tr Q t' ∧
      Store.newMemStore.data.lookup (Kind.nodes.storeKey "n1") = none ∧
      (typed sampleCodecs .nodes).get t' (Store.goString "") (Store.goString "n1") =
        .ok sampleNode := by
  obtain ⟨tr, Q, h⟩ := restores_one ⟨"/registry/nodes/n1", [1]⟩ Store.newMemStore
  exact ⟨tr, Q, _, h, by decide, by decide⟩

end NimbusCore.Apiserver
