import Mathlib.Logic.Relation
import NimbusCore.Apiserver.Server

/-!
# Apiserver — what a node can change

A node `n` is known by the path `/node/n`.  What it has of its own in the store is its node object
and the pods that are assigned to it; `elsewhere` is the rest.

* `node_requests`: the five methods that the node role lets through.
* `elsewhere_call`: **one call** of a node that speaks for itself (`SpeaksForItself`) leaves the
  rest as it is.
* `node_changes_its_own`: **every sequence of calls** does, and stores that differ in what is the
  node's own only go on to differ in that only.
* `node_speaks_for_others`: `CreateNode` and `Heartbeat` take any name, and `UpdatePodStatus` lets
  any node report on a pod that has none.
-/

namespace NimbusCore.Apiserver

open Api Registry Rbac

/-! ### The node role -/

variable {expectTrustDomain : SpiffeId → Option String} {req : ApiRequest} {id : SpiffeId}

/-- **The requests that a node gets through.** -/
theorem node_requests (hid : HasPath "/node/" id.path)
    (h : authenticate expectTrustDomain defaultAuthorizer (.ok id) req.method = .ok ()) :
    (∃ node, req = .createNode node) ∨ (∃ r, req = .heartbeat r) ∨ (∃ r, req = .updatePodStatus r) ∨
      req.kinds = [] ∧ req.keys = [] := by
  obtain ⟨resource, verb, hrv, hallow⟩ :=
    allow_of_authenticate req.authenticated h
  rw [allow_default_node hid] at hallow
  have hgranted : ∀ {resource' verb' : String},
      methodResourceVerb req.method = some (resource', verb') →
        nodeRole.allows resource' verb' = true := by
    rintro resource' verb' he
    cases hrv.symm.trans he
    exact hallow
  cases req with
  | createNode node => exact .inl ⟨node, rfl⟩
  | heartbeat r => exact .inr (.inl ⟨r, rfl⟩)
  | updatePodStatus r => exact .inr (.inr (.inl ⟨r, rfl⟩))
  | listPods ns | listServices ns => exact .inr (.inr (.inr ⟨rfl, rfl⟩))
  | _ => exact absurd (hgranted rfl) (by decide)

theorem callerNode_node (n : String) : callerNode (some ("/node/" ++ n)) = some n := by
  have hprefix : "/node/".toList <+: ("/node/" ++ n).toList := by
    rw [String.toList_append]
    exact List.prefix_append _ _
  rw [callerNode, Option.bind_some, if_pos hprefix, trimPrefix_append]

/-! ### What is not the node's own -/

variable {r : Except Stop (Except Status Unit)}

section

variable {ε : Type} (C : (k : Kind) → Codec k.Obj ε) (n : String)

/-- The bytes are those of a pod that is assigned to the node. -/
def OwnPod (b : Store.Bytes) : Prop := ∃ pod, (C .pods).unmarshal b = .ok pod ∧
  pod.getSpec.nodeName = n

instance (b : Store.Bytes) : Decidable (OwnPod C n b) :=
  match h : (C .pods).unmarshal b with
  | .error _ => .isFalse fun ⟨_, hp, _⟩ => by cases h.symm.trans hp
  | .ok pod => decidable_of_iff (pod.getSpec.nodeName = n)
      ⟨fun he => ⟨pod, h, he⟩, fun ⟨_, hp, he⟩ => by cases h.symm.trans hp; exact he⟩

/-- What is stored at a key, if it is not the node's own. -/
def elsewhere (t : Store.MemStore) (key : Store.GoString) : Option Store.Bytes :=
  if key = Kind.nodes.storeKey n then none
  else (t.data.lookup key).filter fun b => ¬ (Kind.pods.root <+: key ∧ OwnPod C n b)

variable {C n} {t t' : Store.MemStore}

/-- What is written is the node's own. -/
theorem elsewhere_congr (h : ∀ key, key ≠ Kind.nodes.storeKey n →
    t'.data.lookup key = t.data.lookup key) : elsewhere C n t' = elsewhere C n t := by
  funext key
  rw [elsewhere, elsewhere]
  split
  · rfl
  · next hne => rw [h key hne]

/-- A pod of the node in the place of a pod of the node. -/
theorem elsewhere_put {p : String} {b b' : Store.Bytes}
    (hb : t.data.lookup (Kind.pods.storeKey p) = some b) (hown : OwnPod C n b)
    (hown' : OwnPod C n b') :
    elsewhere C n (t.put (Kind.pods.storeKey p) b') = elsewhere C n t := by
  funext key
  rw [elsewhere, elsewhere]
  split
  · rfl
  · by_cases hkey : key = Kind.pods.storeKey p
    · subst hkey
      have hroot := root_isPrefix .pods p
      rw [hb, show (t.put (Kind.pods.storeKey p) b').data.lookup (Kind.pods.storeKey p) =
        some b' from
        Finmap.lookup_insert _]
      simp [Option.filter_some, hroot, hown, hown']
    · rw [show (t.put (Kind.pods.storeKey p) b').data.lookup key = t.data.lookup key from
        Finmap.lookup_insert_of_ne _ hkey]

/-- Another node is elsewhere. -/
theorem lookup_node_of_elsewhere (h : elsewhere C n t' = elsewhere C n t) {name : String}
    (hne : name ≠ n) : t'.data.lookup (Kind.nodes.storeKey name) =
      t.data.lookup (Kind.nodes.storeKey name) := by
  have hkey : Kind.nodes.storeKey name ≠ Kind.nodes.storeKey n := fun he =>
    hne (storeKey_injective _ he)
  have hroot : ¬ Kind.pods.root <+: Kind.nodes.storeKey name := fun hp => by
    cases kind_eq_of_root hp (root_isPrefix .nodes name)
  have hall : ∀ u, elsewhere C n u (Kind.nodes.storeKey name) =
      u.data.lookup (Kind.nodes.storeKey name) := by
    intro u
    rw [elsewhere, if_neg hkey]
    cases u.data.lookup (Kind.nodes.storeKey name) with
    | none => rfl
    | some b => simp [Option.filter_some, hroot]
  rw [← hall, h, hall]

/-- A pod that is not the node's is elsewhere. -/
theorem lookup_pod_of_elsewhere (h : elsewhere C n t' = elsewhere C n t) {p : String}
    {b : Store.Bytes} (hb : t.data.lookup (Kind.pods.storeKey p) = some b) (hown : ¬ OwnPod C n b) :
    t'.data.lookup (Kind.pods.storeKey p) = some b := by
  have hkey : Kind.pods.storeKey p ≠ Kind.nodes.storeKey n := fun he => by
    cases kind_eq_of_root (root_isPrefix .pods p) (he ▸ root_isPrefix .nodes n)
  have := congrFun h (Kind.pods.storeKey p)
  rw [elsewhere, elsewhere, if_neg hkey, if_neg hkey, hb] at this
  simp only [hown, Option.filter_some, and_false, not_false_eq_true, decide_true, if_true] at this
  exact (Option.filter_eq_some_iff.mp this).1

/-! ### One call -/

/-- The request is about the node itself: its own object, or a pod that has a node. -/
def SpeaksForItself (C : (k : Kind) → Codec k.Obj ε) (n : String) (t : Store.MemStore) :
    ApiRequest → Prop
  | .createNode node => node.getMetadata.name = n
  | .heartbeat req => req.name = n
  | .updatePodStatus req => ∀ b pod,
      t.data.lookup (Kind.pods.storeKey (path req.ns req.name)) = some b →
      (C .pods).unmarshal b = .ok pod → pod.getSpec.nodeName ≠ ""
  | _ => True

/-- **The frame of a call.**  What it does not write stays. -/
theorem frame_of_writesKey {α : Type} {K : Store.GoString → Prop} {p : Srv α}
    (hp : p.Ensures (fun _ _ => True) (fun c => ∀ key ∈ c.writesKey, K key) fun _ => True)
    {r : Except Stop α} (h : p.Runs (serveServer C) t r t') {key : Store.GoString}
    (hkey : ¬ K key) :
    t'.data.lookup key = t.data.lookup key := by
  refine (hp.keeps (I := fun u => u.data.lookup key = t.data.lookup key)
    (fun _ _ _ _ _ _ => trivial)
    ?_ h rfl).1
  intro c hc u x u' hu hH
  rw [lookup_serveServer hH fun he => hkey (hc key he)]
  exact hu

theorem writesKey_createNode {node : Node} (hname : node.getMetadata.name = n) :
    (discard (overRegistry (createNode node))).Ensures (fun _ _ => True)
      (fun c => ∀ key ∈ c.writesKey, key = Kind.nodes.storeKey n) fun _ => True := by
  rw [createNode]
  split
  · trivial
  · refine ⟨?_, fun x _ => ?_⟩
    · rintro key ⟨⟩
      rw [hname, path_empty]
    · cases x <;> trivial

theorem writesKey_heartbeat {req : HeartbeatRequest} (hname : req.name = n) :
    (discard (overClock (heartbeat req))).Ensures (fun _ _ => True)
      (fun c => ∀ key ∈ c.writesKey, key = Kind.nodes.storeKey n) fun _ => True := by
  refine ⟨fun _ h => (by cases h), fun x _ => ?_⟩
  rcases x with err | node
  · trivial
  refine ⟨fun _ h => (by cases h), fun now _ => ⟨?_, fun x _ => ?_⟩⟩
  · rintro key ⟨⟩
    rw [hname, path_empty]
  · cases x <;> trivial

/-- What `UpdatePodStatus` does: nothing, or it puts a pod that it has read and may report on. -/
theorem updatePodStatus_cases {quote : String → String} {peer : Option String}
    {req : UpdatePodStatusRequest}
    (h : (discard (overRegistry (updatePodStatus quote peer req))).Runs (serveServer C) t r t') :
    t' = t ∨ ∃ b pod b', t.data.lookup (Kind.pods.storeKey (path req.ns req.name)) = some b ∧
      (C .pods).unmarshal b = .ok pod ∧ deniedNode peer pod = none ∧
      (C .pods).marshal { pod with status := req.status } = .ok b' ∧
      t' = t.put (Kind.pods.storeKey (path req.ns req.name)) b' := by
  obtain ⟨x, t₁, hget, h⟩ := h
  cases x with
  | error err =>
    have ht₁ : t₁ = t := by rcases hget with ⟨h, -⟩ | ⟨h, -⟩ <;> exact h
    exact .inl (h.2.trans ht₁)
  | ok pod =>
    obtain ⟨rfl, b, hb, hpod⟩ := get_serveServer hget
    simp only [Prog.bind] at h
    cases hd : deniedNode peer pod with
    | some node =>
      rw [hd] at h
      exact .inl h.2
    | none =>
      rw [hd] at h
      obtain ⟨y, t₂, hput, h⟩ := h
      have ht' : t' = t₂ := by cases y <;> exact h.2
      subst ht'
      rcases put_serveServer hput with rfl | ⟨b', hb', rfl⟩
      · exact .inl rfl
      · exact .inr ⟨b, pod, b', hb, hpod, hd, hb', rfl⟩

/-- **One call** of a node that speaks for itself. -/
theorem elsewhere_call {deps : Deps}
    (hid : id.path = "/node/" ++ n) (hreq : SpeaksForItself C n t req)
    (h : (serverCall deps expectTrustDomain defaultAuthorizer (.ok id) req).Runs (serveServer C)
      t r t') : elsewhere C n t' = elsewhere C n t := by
  have hpath : HasPath "/node/" id.path := by
    rw [hid, HasPath, String.toList_append]
    exact List.prefix_append _ _
  rw [serverCall] at h
  split at h
  · rw [h.2]
  · next hauth =>
    rcases node_requests hpath hauth with ⟨node, rfl⟩ | ⟨hb, rfl⟩ | ⟨up, rfl⟩ | ⟨hkinds, hkeys⟩
    · exact elsewhere_congr fun key hkey =>
        frame_of_writesKey (writesKey_createNode hreq) h hkey
    · exact elsewhere_congr fun key hkey =>
        frame_of_writesKey (writesKey_heartbeat hreq) h hkey
    · rcases updatePodStatus_cases h with rfl | ⟨b, pod, b', hb, hpod, hdenied, hb', rfl⟩
      · rfl
      · have hassigned : pod.getSpec.nodeName = n := by
          have hcaller :
              callerNode ((Except.ok id : Except String SpiffeId).toOption.map (·.path)) =
              some n := by
            change callerNode (some id.path) = some n
            rw [hid, callerNode_node]
          rw [deniedNode, hcaller] at hdenied
          simpa [hreq b pod hb hpod] using hdenied
        exact elsewhere_put hb ⟨pod, hpod, hassigned⟩
          ⟨_, (C .pods).unmarshal_marshal _ b' hb', hassigned⟩
    · have hserving := serving_handle deps (.ok id) req
      rw [hkinds, hkeys] at hserving
      refine elsewhere_congr fun key _ => frame_of_writesKey (K := fun _ => False)
        (hserving.mono (fun _ _ h => h) (fun c hc key hkey => ?_) fun _ h => h) h not_false
      rcases c with (c | _) | _ | _ | _
      · rcases c with _ | ⟨k, ns, name, obj⟩ | ⟨k, ns, name⟩ | _
        · cases hkey
        · cases hc k rfl
        · cases hc k rfl
        · cases hkey
      · cases hkey
      · cases hkey
      · cases hc
      · cases hkey

/-! ### Every sequence of calls -/

/-- A call of the node, which speaks for itself. -/
def OwnCall (C : (k : Kind) → Codec k.Obj ε) (deps : Deps)
    (expectTrustDomain : SpiffeId → Option String) (id : SpiffeId) (n : String)
    (t t' : Store.MemStore) : Prop :=
  ∃ req r, SpeaksForItself C n t req ∧
    (serverCall deps expectTrustDomain defaultAuthorizer (.ok id) req).Runs (serveServer C) t r t'

theorem elsewhere_calls {deps : Deps} (hid : id.path = "/node/" ++ n)
    (h : Relation.ReflTransGen (OwnCall C deps expectTrustDomain id n) t t') :
    elsewhere C n t' = elsewhere C n t := by
  induction h with
  | refl => rfl
  | tail _ hcall ih =>
    obtain ⟨req, r, hreq, hrun⟩ := hcall
    rw [elsewhere_call hid hreq hrun, ih]

end

/-- **A node changes what is its own only**, in every sequence of calls in which it speaks for
itself: no other node object, no pod that is not assigned to it; and two stores that differ in what
is the node's own only go on to differ in that only. -/
theorem node_changes_its_own {ε : Type} {C : (k : Kind) → Codec k.Obj ε} {deps : Deps}
    {expectTrustDomain : SpiffeId → Option String} {n : String} {id : SpiffeId}
    (hid : id.path = "/node/" ++ n) {t t' u u' : Store.MemStore}
    (ht : Relation.ReflTransGen (OwnCall C deps expectTrustDomain id n) t t')
    (hu : Relation.ReflTransGen (OwnCall C deps expectTrustDomain id n) u u') :
    (∀ name, name ≠ n → t'.data.lookup (Kind.nodes.storeKey name) =
        t.data.lookup (Kind.nodes.storeKey name)) ∧
      (∀ p b, t.data.lookup (Kind.pods.storeKey p) = some b → ¬ OwnPod C n b →
        t'.data.lookup (Kind.pods.storeKey p) = some b) ∧
      (elsewhere C n t = elsewhere C n u → elsewhere C n t' = elsewhere C n u') := by
  have hkept := elsewhere_calls hid ht
  refine ⟨fun name hne => lookup_node_of_elsewhere hkept hne,
    fun p b hb hown => lookup_pod_of_elsewhere hkept hb hown, fun heq => ?_⟩
  rw [hkept, heq, elsewhere_calls hid hu]

/-! ### A node that speaks for others -/

/-- The node `a` calls. -/
def callOfA (req : ApiRequest) : Srv (Except Status Unit) :=
  serverCall sampleDeps (fun _ => none) defaultAuthorizer (.ok ⟨"nimbus", "/node/a"⟩) req

/-- A node that says it is ready. -/
def readyNode (name : String) : Node :=
  { metadata := some { name := name }, status := some { ready := true } }

/-- A report that a pod runs. -/
def runningReport : UpdatePodStatusRequest := ⟨"default", "p", some { phase := .running }⟩

/-- The interceptor lets the node through. -/
theorem runs_callOfA {C : (k : Kind) → Codec k.Obj Unit}
    (hauth : authenticate (fun _ => none) defaultAuthorizer (.ok ⟨"nimbus", "/node/a"⟩) req.method =
      .ok ()) {t t' : Store.MemStore}
    (h : (handle sampleDeps (.ok ⟨"nimbus", "/node/a"⟩) req).Runs (serveServer C) t r t') :
    (callOfA req).Runs (serveServer C) t r t' := by
  rw [callOfA, serverCall, hauth]
  exact h

/-- A node creates a node object, under any name. -/
theorem runs_createNode (name : String) (hname : name ≠ "") (t : Store.MemStore) :
    (callOfA (.createNode (readyNode name))).Runs (serveServer (fewCodecs (readyNode name) {})) t
      (.ok (.ok ())) (t.put (Kind.nodes.storeKey name) [1]) := by
  refine runs_callOfA rfl ?_
  have hnamed : ¬ (readyNode name).getMetadata.name = "" := hname
  rw [handle, createNode, if_neg hnamed]
  refine ⟨.ok (), _, serveServer_put ?_ t, rfl, rfl⟩
  simp [fewCodecs, pairCodec, readyNode]

theorem node_changes_its_own_created :
    ∃ t', Relation.ReflTransGen (OwnCall (fewCodecs (readyNode "a") {}) sampleDeps (fun _ => none)
        ⟨"nimbus", "/node/a"⟩ "a") (Store.newMemStore.put (Kind.nodes.storeKey "b") []) t' ∧
      t'.data.lookup (Kind.nodes.storeKey "a") = some [1] ∧
      t'.data.lookup (Kind.nodes.storeKey "b") = some [] := by
  have hcall : OwnCall (fewCodecs (readyNode "a") {}) sampleDeps (fun _ => none)
      ⟨"nimbus", "/node/a"⟩ "a" (Store.newMemStore.put (Kind.nodes.storeKey "b") [])
      ((Store.newMemStore.put (Kind.nodes.storeKey "b") []).put (Kind.nodes.storeKey "a") [1]) :=
    ⟨.createNode (readyNode "a"), _, rfl, runs_createNode "a" (by decide) _⟩
  have hcalls := Relation.ReflTransGen.single hcall
  refine ⟨_, hcalls, by decide, ?_⟩
  rw [(node_changes_its_own rfl hcalls hcalls).1 "b" (by decide)]
  decide

/-- The pod of the report, when it is stored as an empty message: it has no node. -/
def unassigned : Store.MemStore := Store.newMemStore.put (Kind.pods.storeKey "default/p") []

/-- A node reports on a pod that is not assigned. -/
theorem runs_updatePodStatus :
    (callOfA (.updatePodStatus runningReport)).Runs
      (serveServer (fewCodecs {} { status := runningReport.status })) unassigned (.ok (.ok ()))
      (unassigned.put (Kind.pods.storeKey "default/p") [1]) := by
  refine runs_callOfA rfl ?_
  exact ⟨.ok {}, unassigned, .inl ⟨rfl, by decide⟩, .ok (), _, serveServer_put (by decide) _, rfl,
    rfl⟩

/-- **A node speaks for others**: the node `a` makes the node `b`, ready, and says that a pod runs
which has no node. -/
theorem node_speaks_for_others :
    (∃ r t', (callOfA (.createNode (readyNode "b"))).Runs
        (serveServer (fewCodecs (readyNode "b") {})) Store.newMemStore r t' ∧
      Store.newMemStore.data.lookup (Kind.nodes.storeKey "b") = none ∧
      (typed (fewCodecs (readyNode "b") {}) .nodes).get t' (Store.goString "")
        (Store.goString "b") =
        .ok (readyNode "b")) ∧
    ∃ r t', (callOfA (.updatePodStatus runningReport)).Runs
        (serveServer (fewCodecs {} { status := runningReport.status })) unassigned r t' ∧
      (typed (fewCodecs {} { status := runningReport.status }) .pods).get unassigned
        (Store.goString "default") (Store.goString "p") = .ok {} ∧
      (typed (fewCodecs {} { status := runningReport.status }) .pods).get t'
        (Store.goString "default") (Store.goString "p") = .ok { status := runningReport.status } :=
  ⟨⟨_, _, runs_createNode "b" (by decide) _, by decide, by decide⟩,
    ⟨_, _, runs_updatePodStatus, by decide, by decide⟩⟩

end NimbusCore.Apiserver
