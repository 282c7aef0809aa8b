import NimbusCore.Registry.Registry
import NimbusCore.Support.Contracts
import NimbusCore.Store.Mem

/-!
# Gitops — the reconciler

`internal/gitops/reconciler.go`.  A sync fetches a repository, reads the manifests of one directory
and puts each of them as a deployment, labelled as managed.  What git and the file system answer is
a `Checkout`; how a manifest is parsed is not of this repository (`unmarshal`).  A manifest that
cannot be read, parsed or put is logged and skipped; log lines are left out.
-/

namespace NimbusCore.Gitops

open Api Registry

/-- `ManagedByLabel`. -/
def ManagedByLabel : String := "nimbuscore.io/managed-by"

/-- `ManagedByValue`. -/
def ManagedByValue : String := "gitops"

/-- `Config`, as far as the status shows it. -/
structure Config where
  repoURL : String
  branch : String
  path : String

/-- `Status`. -/
structure Status where
  repoURL : String := ""
  branch : String := ""
  path : String := ""
  lastSyncUnix : Int64 := 0
  lastCommit : String := ""
  lastError : String := ""

/-- An entry of the directory, and what reading it answers. -/
structure ManifestEntry where
  isDir : Bool
  name : String
  content : Except String Store.Bytes

/-- What a sync finds: of the fetch, of the head, and of the directory. -/
structure Checkout where
  fetchRepo : Except String Unit
  headCommit : Except String String
  entries : Except String (List ManifestEntry)

/-- `recordResult`. -/
def recordResult (cfg : Config) (now : Int64) (commit syncErr : String) (status : Status) :
    Status :=
  { repoURL := cfg.repoURL
    branch := cfg.branch
    path := cfg.path
    lastSyncUnix := now
    lastCommit := if commit ≠ "" then commit else status.lastCommit
    lastError := syncErr }

/-- The deployment with the label. -/
def managed (d : Deployment) : Deployment :=
  { d with metadata := d.metadata.map fun md =>
      { md with labels := md.labels.insert ManagedByLabel ManagedByValue } }

section

variable (unmarshal : Store.Bytes → Except String Deployment)

/-- What an entry asks to be put. -/
def manifestOf (e : ManifestEntry) : Option Deployment :=
  if e.isDir ∨ ¬ ".json".toList <:+ e.name.toList then none
  else
    match e.content with
    | .error _ => none
    | .ok b =>
      match unmarshal b with
      | .error _ => none
      | .ok d => if d.getMetadata.name = "" then none else some (managed d)

/-- The loop of `Sync`. -/
def applyLoop : List ManifestEntry → Reg Unit
  | [] => return ()
  | e :: entries => do
    match manifestOf unmarshal e with
    | none => applyLoop entries
    | some d =>
      let _ ← Registry.put .deployments d.getMetadata.ns d.getMetadata.name d
      applyLoop entries

/-- `Sync`, at the time `now`: the status it records, and the error. -/
def sync (cfg : Config) (now : Int64) (status : Status) (checkout : Checkout) :
    Reg (Status × Option String) := do
  match checkout.fetchRepo with
  | .error err => return (recordResult cfg now "" err status, some ("gitops: fetch: " ++ err))
  | .ok () =>
    let commit := match checkout.headCommit with
      | .error _ => ""
      | .ok commit => commit
    match checkout.entries with
    | .error err =>
      return (recordResult cfg now commit err status, some ("gitops: read manifest dir: " ++ err))
    | .ok entries =>
      applyLoop unmarshal entries
      return (recordResult cfg now commit "" status, none)

/-- The manifests that a sync puts. -/
def manifests (checkout : Checkout) : List Deployment :=
  match checkout.fetchRepo, checkout.entries with
  | .ok (), .ok entries => entries.filterMap (manifestOf unmarshal)
  | _, _ => []

variable {unmarshal} {A : (c : Cmd) → c.Answer → Prop} {P : Cmd → Prop}

theorem ensures_applyLoop : ∀ {entries : List ManifestEntry},
    (∀ d ∈ entries.filterMap (manifestOf unmarshal),
      P (.put .deployments d.getMetadata.ns d.getMetadata.name d)) →
      (applyLoop unmarshal entries).Ensures A P fun _ => True
  | [], _ => trivial
  | e :: entries, h => by
    rw [applyLoop]
    cases hm : manifestOf unmarshal e with
    | none =>
      rw [List.filterMap_cons_none hm] at h
      exact ensures_applyLoop h
    | some d =>
      rw [List.filterMap_cons_some hm] at h
      obtain ⟨hd, hrest⟩ := List.forall_mem_cons.mp h
      exact Prog.ensures_ask_bind.mpr ⟨hd, fun _ _ => ensures_applyLoop hrest⟩

/-- **A sync puts its manifests**, and does no more. -/
theorem ensures_sync {cfg : Config} {now : Int64} {status : Status} {checkout : Checkout}
    (h : ∀ d ∈ manifests unmarshal checkout,
      P (.put .deployments d.getMetadata.ns d.getMetadata.name d)) :
    (sync unmarshal cfg now status checkout).Ensures A P fun _ => True := by
  rw [sync]
  rw [manifests] at h
  cases hf : checkout.fetchRepo with
  | error err => trivial
  | ok _ =>
    cases he : checkout.entries with
    | error err => trivial
    | ok entries =>
      rw [hf, he] at h
      exact Prog.Ensures.bind (ensures_applyLoop h) fun _ _ => trivial

end

end NimbusCore.Gitops
