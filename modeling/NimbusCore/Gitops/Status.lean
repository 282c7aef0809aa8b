import NimbusCore.Gitops.Reconciler

/-!
# Gitops — what the status says

A sync ends with an empty error in the status, and returns none, whenever the repository could be
fetched and its directory read.  The loop in between has four ways to go past a file, and none of
them leaves a trace in the status: the file cannot be read, cannot be parsed, has no name, or the
store refuses it.

The store here refuses some of the puts (`serveRefusing`); which ones is given by their number, and
every run over a store that may fail is one of these (`runs_sync_orFail_iff`).

* `yields_applyLoop`: the loop leaves what the store has taken (`taken`), written in order.
* `sync_truthful_iff`: the status tells the truth about a directory, whatever was stored before,
  exactly if every manifest can be read, parsed and has a name, and the last manifest of each name
  is also the last one taken under its key.
-/

namespace NimbusCore.Gitops

open Api Registry Prog

/-! ### A store that refuses -/

/-- A store that refuses the puts with the given numbers.  It counts the puts. -/
def serveRefusing (refused : Nat → Bool) : Handler Cmd Cmd.Answer (State × Nat)
  | .put k ns name obj, t, r, t' => t'.2 = t.2 + 1 ∧
      if refused t.2 then t'.1 = t.1 ∧ r = .error .failed
      else t'.1 = t.1.set k ((t.1 k).insert (path ns name) obj) ∧ r = .ok ()
  | .get k ns name, t, r, t' => t'.2 = t.2 ∧ serve (.get k ns name) t.1 r t'.1
  | .delete k ns name, t, r, t' => t'.2 = t.2 ∧ serve (.delete k ns name) t.1 r t'.1
  | .list k ns, t, r, t' => t'.2 = t.2 ∧ serve (.list k ns) t.1 r t'.1

variable {refused : Nat → Bool} {t t' : State × Nat}

/-- It is a store that may fail. -/
theorem serveOrFail_of_refusing {c : Cmd} {x : c.Answer}
    (h : serveRefusing refused c t x t') : serveOrFail c t.1 x t'.1 := by
  cases c with
  | get k ns name | delete k ns name | list k ns => exact .inl h.2
  | put k ns name obj =>
    obtain ⟨-, h⟩ := h
    split at h
    · exact .inr h
    · exact .inl h

/-- Of a list of manifests, put from the number `n` on, those that are taken. -/
def taken (refused : Nat → Bool) : Nat → List Deployment → List Deployment
  | _, [] => []
  | n, d :: ds => if refused n then taken refused (n + 1) ds else d :: taken refused (n + 1) ds

theorem taken_congr {refused' : Nat → Bool} :
    ∀ {n : Nat} (ds : List Deployment), (∀ i ≥ n, refused i = refused' i) →
      taken refused n ds = taken refused' n ds
  | _, [], _ => rfl
  | n, d :: ds, h => by
    rw [taken, taken, h n (le_refl n), taken_congr ds fun i hi => h i (by omega)]

/-- The key under which a deployment is stored. -/
def key (d : Deployment) : String := path d.getMetadata.ns d.getMetadata.name

/-- The store after the manifests were put. -/
def afterPuts (s : State) (ds : List Deployment) : State :=
  s.set .deployments ((s .deployments).insertAll (ds.map fun d => (key d, d)))

@[simp] theorem afterPuts_nil (s : State) : afterPuts s [] = s := by simp [afterPuts]

theorem afterPuts_deployments (s : State) (ds : List Deployment) :
    afterPuts s ds .deployments = (s .deployments).insertAll (ds.map fun d => (key d, d)) :=
  State.set_self ..

theorem afterPuts_cons (s : State) (d : Deployment) (ds : List Deployment) :
    afterPuts s (d :: ds) =
      afterPuts (s.set .deployments ((s .deployments).insert (key d) d)) ds := by
  simp [afterPuts]

variable {cfg : Config} {now : Int64} {status : Status} {checkout : Checkout} {d : Deployment}
  {s s' : State}

section

variable {unmarshal : Store.Bytes → Except String Deployment} {refused : Nat → Bool}

theorem yields_put_refusing {n : Nat} :
    (Registry.put .deployments d.getMetadata.ns d.getMetadata.name d).Yields
      (serveRefusing refused) (s, n) (if refused n then .error .failed else .ok ())
      (afterPuts s (taken refused n [d]), n + 1) := by
  intro r t
  rw [Registry.put, runs_ask]
  cases hn : refused n with
  | true =>
    constructor
    · rintro ⟨x, rfl, ht, h⟩
      rw [hn] at h
      exact ⟨x, rfl, h.2, Prod.ext (by simpa [taken, hn] using h.1) ht⟩
    · rintro ⟨x, rfl, rfl, rfl⟩
      exact ⟨_, rfl, rfl, by simp [taken, hn]⟩
  | false =>
    constructor
    · rintro ⟨x, rfl, ht, h⟩
      rw [hn] at h
      exact ⟨x, rfl, h.2, Prod.ext (by simpa [taken, hn, afterPuts, key] using h.1) ht⟩
    · rintro ⟨x, rfl, rfl, rfl⟩
      exact ⟨_, rfl, rfl, by simp [taken, hn, afterPuts, key]⟩

/-- **The loop leaves what the store has taken**, in the order of the directory. -/
theorem yields_applyLoop :
    ∀ {entries : List ManifestEntry} {s : State} {n : Nat},
      (applyLoop unmarshal entries).Yields (serveRefusing refused) (s, n) ()
        (afterPuts s (taken refused n (entries.filterMap (manifestOf unmarshal))),
          n + (entries.filterMap (manifestOf unmarshal)).length)
  | [], s, n => by
    simpa [applyLoop, taken] using yields_pure
  | e :: entries, s, n => by
    rw [applyLoop]
    cases hm : manifestOf unmarshal e with
    | none =>
      rw [List.filterMap_cons_none hm]
      exact yields_applyLoop
    | some d =>
      rw [List.filterMap_cons_some hm, List.length_cons]
      have hrest : (applyLoop unmarshal entries).Yields (serveRefusing refused)
        (afterPuts s (taken refused n [d]), n + 1) () _ := yields_applyLoop
      have hstate : afterPuts s
          (taken refused n (d :: entries.filterMap (manifestOf unmarshal))) =
          afterPuts (afterPuts s (taken refused n [d]))
            (taken refused (n + 1) (entries.filterMap (manifestOf unmarshal))) := by
        cases hn : refused n with
        | true => simp [taken, hn]
        | false => simp [taken, hn, afterPuts_cons]
      rw [hstate, show n + ((entries.filterMap (manifestOf unmarshal)).length + 1) =
        n + 1 + (entries.filterMap (manifestOf unmarshal)).length by omega]
      exact Yields.bind yields_put_refusing hrest

/-- **Which puts are refused is all that a failing store can decide.** -/
theorem runs_applyLoop_orFail {r : Except Stop Unit} :
    ∀ {entries : List ManifestEntry} {s : State} (n : Nat),
      (applyLoop unmarshal entries).Runs serveOrFail s r s' → r = .ok () ∧ ∃ refused,
        s' = afterPuts s (taken refused n (entries.filterMap (manifestOf unmarshal)))
  | [], s, n, h => ⟨h.1, fun _ => false, by rw [h.2]; simp [taken]⟩
  | e :: entries, s, n, h => by
    rw [applyLoop] at h
    cases hm : manifestOf unmarshal e with
    | none =>
      rw [hm] at h
      rw [List.filterMap_cons_none hm]
      exact runs_applyLoop_orFail n h
    | some d =>
      rw [hm] at h
      rw [List.filterMap_cons_some hm]
      -- the answer to this put is put in front of what the rest needs
      have hcons : ∀ (b : Bool) (refused : Nat → Bool),
          taken (fun i => if i = n then b else refused i) n
            (d :: entries.filterMap (manifestOf unmarshal)) =
          (if b then [] else [d]) ++
            taken refused (n + 1) (entries.filterMap (manifestOf unmarshal)) := by
        intro b refused
        have hrest : taken (fun i => if i = n then b else refused i) (n + 1)
            (entries.filterMap (manifestOf unmarshal)) =
            taken refused (n + 1) (entries.filterMap (manifestOf unmarshal)) :=
          taken_congr _ fun i hi => if_neg (by omega)
        rw [taken, hrest, if_pos rfl]
        cases b <;> rfl
      rcases runs_put_orFail h with h | h
      · obtain ⟨hr, refused, rfl⟩ := runs_applyLoop_orFail (n + 1) h
        refine ⟨hr, fun i => if i = n then false else refused i, ?_⟩
        rw [hcons]
        exact (afterPuts_cons ..).symm
      · obtain ⟨hr, refused, rfl⟩ := runs_applyLoop_orFail (n + 1) h
        refine ⟨hr, fun i => if i = n then true else refused i, ?_⟩
        rw [hcons]
        rfl

/-- Once the directory is read, the sync returns no error, and leaves none in the status. -/
theorem yields_sync {entries : List ManifestEntry} (hf : checkout.fetchRepo = .ok ())
    (he : checkout.entries = .ok entries) (s : State) :
    (sync unmarshal cfg now status checkout).Yields (serveRefusing refused) (s, 0)
      (recordResult cfg now (checkout.headCommit.toOption.getD "") "" status, none)
      (afterPuts s (taken refused 0 (entries.filterMap (manifestOf unmarshal))),
        0 + (entries.filterMap (manifestOf unmarshal)).length) := by
  rw [sync, hf, he]
  cases checkout.headCommit <;> exact Yields.bind yields_applyLoop yields_pure

/-- A sync returns no error only if the directory was read. -/
theorem read_of_sync {st : Status}
    (h : (sync unmarshal cfg now status checkout).Runs (serveRefusing refused) t
      (.ok (st, none)) t') :
    ∃ entries, checkout.fetchRepo = .ok () ∧ checkout.entries = .ok entries := by
  rw [sync] at h
  cases hf : checkout.fetchRepo with
  | error err => rw [hf] at h; cases h.1
  | ok _ =>
    cases he : checkout.entries with
    | error err => rw [hf, he] at h; cases h.1
    | ok entries => exact ⟨entries, rfl, rfl⟩

/-- **A sync over a store that may fail.**  Once the directory is read, the sync returns no error
and an empty one in the status, and stores the manifests in order, save those whose put failed; any
of them may fail. -/
theorem runs_sync_orFail_iff {entries : List ManifestEntry} (hf : checkout.fetchRepo = .ok ())
    (he : checkout.entries = .ok entries) {r : Except Stop (Status × Option String)} :
    (sync unmarshal cfg now status checkout).Runs serveOrFail s r s' ↔
      ∃ st refused, r = .ok (st, none) ∧ st.lastError = "" ∧
        st = recordResult cfg now (checkout.headCommit.toOption.getD "") "" status ∧
        s' = afterPuts s (taken refused 0 (entries.filterMap (manifestOf unmarshal))) := by
  constructor
  · intro h
    rw [sync, hf, he] at h
    rcases runs_bind.mp h with ⟨u, s₁, hloop, rfl, rfl⟩ | ⟨e, -, hloop⟩
    · obtain ⟨-, refused, rfl⟩ := runs_applyLoop_orFail 0 hloop
      exact ⟨_, refused, rfl, rfl, by cases checkout.headCommit <;> rfl, rfl⟩
    · exact absurd (runs_applyLoop_orFail 0 hloop).1 (by simp)
  · rintro ⟨st, refused, rfl, -, rfl, rfl⟩
    have hsim : ∀ (c : Cmd) (t : State × Nat) (x : c.Answer) (t₁ : State × Nat) (s : State),
        t.1 = s → serveRefusing refused c t x t₁ → ∃ s₁, serveOrFail c s x s₁ ∧ t₁.1 = s₁ :=
      fun c t x t₁ s hs hc => ⟨t₁.1, hs ▸ serveOrFail_of_refusing hc, rfl⟩
    obtain ⟨s₁, h', rfl⟩ :=
      Runs.simulate hsim ((yields_sync hf he s _ _).mpr ⟨_, rfl, rfl, rfl⟩) rfl
    exact h'

end

/-! ### What the status promises -/

/-- What is found under a key, whatever was stored before. -/
theorem lookup_afterPuts_iff {ds : List Deployment} :
    (∀ s : State, (afterPuts s ds .deployments).lookup (key d) = some d) ↔
      Finmap.LastBy key ds d := by
  rw [← Finmap.lookup_insertAll_iff_lastBy]
  constructor
  · intro h m
    have hm := h (State.empty.set .deployments m)
    rwa [afterPuts_deployments, State.set_self] at hm
  · intro h s
    rw [afterPuts_deployments]
    exact h (s .deployments)

section

variable (unmarshal : Store.Bytes → Except String Deployment)

/-- A file whose name ends as that of a manifest. -/
def IsManifest (e : ManifestEntry) : Prop := e.isDir = false ∧ ".json".toList <:+ e.name.toList

/-- The file can be read and parsed, and what it describes has a name. -/
def Described (e : ManifestEntry) : Prop :=
  ∃ b d, e.content = .ok b ∧ unmarshal b = .ok d ∧ d.getMetadata.name ≠ ""

/-- The namespace and the name of a deployment. -/
def fullName (d : Deployment) : String × String := (d.getMetadata.ns, d.getMetadata.name)

/-- If a sync returns no error and leaves none in the status, then every manifest of the directory
gave a deployment to put, and of each name the store holds the last one. -/
def Truthful (cfg : Config) (now : Int64) (status : Status) (checkout : Checkout)
    (refused : Nat → Bool) : Prop :=
  ∀ s r t, (sync unmarshal cfg now status checkout).Runs (serveRefusing refused) (s, 0) r t →
    ∀ st, r = .ok (st, none) → st.lastError = "" → ∀ entries, checkout.entries = .ok entries →
      (∀ e ∈ entries, IsManifest e → ∃ d, manifestOf unmarshal e = some d) ∧
        ∀ d, Finmap.LastBy fullName (entries.filterMap (manifestOf unmarshal)) d →
          (t.1 .deployments).lookup (path d.getMetadata.ns d.getMetadata.name) = some d

variable {unmarshal}

/-- Of a manifest nothing is put exactly if it does not describe a deployment with a name. -/
theorem described_iff {e : ManifestEntry} (he : IsManifest e) :
    (∃ d, manifestOf unmarshal e = some d) ↔ Described unmarshal e := by
  have hskip : ¬ (e.isDir = true ∨ ¬ ".json".toList <:+ e.name.toList) := by
    rintro (h | h)
    · rw [he.1] at h
      cases h
    · exact h he.2
  rw [manifestOf, if_neg hskip]
  constructor
  · rintro ⟨d, h⟩
    split at h
    · cases h
    · next b hb =>
      split at h
      · cases h
      · next d' hd =>
        split at h
        · cases h
        · next hname => exact ⟨b, d', hb, hd, hname⟩
  · rintro ⟨b, d, hb, hd, hname⟩
    exact ⟨managed d, by simp [hb, hd, hname]⟩

/-- **When the status tells the truth.**  Whatever is stored before, the status of a sync is right
about its directory exactly if the directory was not read at all, or else every manifest in it can
be read, parsed and has a name, and the last manifest of each name is the last one that the store
has taken under the key of the name. -/
theorem sync_truthful_iff (cfg : Config) (now : Int64) (status : Status) (checkout : Checkout)
    (refused : Nat → Bool) :
    Truthful unmarshal cfg now status checkout refused ↔
      ∀ entries, checkout.fetchRepo = .ok () → checkout.entries = .ok entries →
        (∀ e ∈ entries, IsManifest e → Described unmarshal e) ∧
          ∀ d, Finmap.LastBy fullName (entries.filterMap (manifestOf unmarshal)) d →
            Finmap.LastBy key (taken refused 0 (entries.filterMap (manifestOf unmarshal))) d := by
  by_cases hread : ∃ entries, checkout.fetchRepo = .ok () ∧ checkout.entries = .ok entries
  · obtain ⟨entries, hf, he⟩ := hread
    have hfiles : (∀ e ∈ entries, IsManifest e → ∃ d, manifestOf unmarshal e = some d) ↔
        ∀ e ∈ entries, IsManifest e → Described unmarshal e :=
      forall₃_congr fun e _ hm => described_iff hm
    constructor
    · rintro h entries' - he'
      obtain rfl := Except.ok.inj (he.symm.trans he')
      have hrun : ∀ s : State,
          (∀ e ∈ entries, IsManifest e → ∃ d, manifestOf unmarshal e = some d) ∧
          ∀ d, Finmap.LastBy fullName (entries.filterMap (manifestOf unmarshal)) d →
            (afterPuts s (taken refused 0 (entries.filterMap (manifestOf unmarshal)))
              .deployments).lookup (key d) = some d := by
        intro s
        exact h s _ _ ((yields_sync hf he s _ _).mpr ⟨_, rfl, rfl, rfl⟩) _ rfl rfl entries he
      refine ⟨hfiles.mp (hrun State.empty).1, fun d hd => ?_⟩
      exact lookup_afterPuts_iff.mp fun s => (hrun s).2 d hd
    · rintro h s r t hrun st rfl - entries' he'
      obtain rfl := Except.ok.inj (he.symm.trans he')
      obtain ⟨hdesc, hlast⟩ := h entries hf he
      obtain ⟨a, -, -, rfl⟩ := (yields_sync hf he s _ _).mp hrun
      exact ⟨hfiles.mpr hdesc, fun d hd => lookup_afterPuts_iff.mpr (hlast d hd) s⟩
  · refine iff_of_true ?_ fun entries hf he => absurd ⟨entries, hf, he⟩ hread
    rintro s r t hrun st rfl
    exact absurd (read_of_sync hrun) hread

end

/-- A parser that knows one file. -/
def parseOne (b : Store.Bytes) : Except String Deployment :=
  if b = [1] then .ok { metadata := some { name := "web", ns := "default" } }
  else .error "unexpected token"

/-- A directory with a file that cannot be parsed, and one that can. -/
def twoFiles : Checkout :=
  { fetchRepo := .ok ()
    headCommit := .ok "c0ffee"
    entries := .ok [⟨false, "broken.json", .ok []⟩, ⟨false, "web.json", .ok [1]⟩] }

/-- One file is not parsed and the other is refused by the store: nothing is applied, and the status
shows no error. -/
theorem sync_hides_failures :
    ∃ st t, (sync parseOne ⟨"", "", ""⟩ 0 {} twoFiles).Runs (serveRefusing fun _ => true)
        (State.empty, 0) (.ok (st, none)) t ∧ st.lastError = "" ∧
      manifestOf parseOne ⟨false, "broken.json", .ok []⟩ = none ∧
      (manifestOf parseOne ⟨false, "web.json", .ok [1]⟩).map key = some "default/web" ∧
      (t.1 .deployments).lookup "default/web" = none := by
  have hf : twoFiles.fetchRepo = .ok () := rfl
  have he : twoFiles.entries =
    .ok [⟨false, "broken.json", .ok []⟩, ⟨false, "web.json", .ok [1]⟩] := rfl
  exact ⟨_, _, (yields_sync hf he State.empty _ _).mpr ⟨_, rfl, rfl, rfl⟩, rfl,
    by decide +kernel, by decide +kernel, by decide +kernel⟩

/-- Both outcomes of the one put: not stored, and stored. -/
theorem runs_sync_orFail_both :
    (∃ st s, (sync parseOne ⟨"", "", ""⟩ 0 {} twoFiles).Runs serveOrFail State.empty
      (.ok (st, none)) s ∧ (s .deployments).lookup "default/web" = none) ∧
    ∃ st s, (sync parseOne ⟨"", "", ""⟩ 0 {} twoFiles).Runs serveOrFail State.empty
      (.ok (st, none)) s ∧ ((s .deployments).lookup "default/web").isSome := by
  refine ⟨⟨_, _, (runs_sync_orFail_iff rfl rfl).mpr ⟨_, fun _ => true, rfl, rfl, rfl, rfl⟩, ?_⟩,
    _, _, (runs_sync_orFail_iff rfl rfl).mpr ⟨_, fun _ => false, rfl, rfl, rfl, rfl⟩, ?_⟩
  · decide +kernel
  · decide +kernel

end NimbusCore.Gitops
