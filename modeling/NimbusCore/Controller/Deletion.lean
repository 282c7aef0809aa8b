import Mathlib.Logic.Relation
import NimbusCore.Controller.Contract
import NimbusCore.Support.Interleaving

/-!
# Controller — a deletion beside a pass

`DeleteDeployment` deletes the deployment and then, one after another, the pods that carry its
label.  A pass of the deployment controller works on a list that it took at its start: it may create
pods for a deployment that is gone, put a pod back that it has just scheduled, and put back the
deployment itself.

* `deletion_complete`: when the pass is not at work on a list that shares something with the
  deployment while the deletion is under way (`Apart`), then after the deletion neither the
  deployment nor a pod of it is stored, and no later pass brings one back.
* `deletion_leaves_pod`: otherwise a pod is left behind.
-/

namespace NimbusCore.Controller

open Api Registry Apiserver Prog List

/-! ### The parties -/

/-- The deletion, and the pass. -/
inductive DeletionParty where
  | deleter
  | pass
  deriving DecidableEq

/-- What each of them runs. -/
def deletionProg (ns name : String) : DeletionParty → Reg (Except Status Unit)
  | .deleter => deleteDeployment ns name
  | .pass => do
    reconcileAll
    return .ok ()

/-- In `ns`, with the owner label of `name`. -/
def Carries (ns name : String) (md : ObjectMeta) : Prop :=
  md.ns = ns ∧ md.label OwnerDeploymentLabel = name

instance (ns name : String) (md : ObjectMeta) : Decidable (Carries ns name md) :=
  inferInstanceAs (Decidable (_ ∧ _))

/-- **Neither the deployment nor a pod of it is stored.** -/
def Gone (ns name : String) (t : State) : Prop :=
  (t .deployments).lookup (path ns name) = none ∧
    ∀ K p, (t .pods).lookup K = some p → ¬ Carries ns name p.getMetadata

/-- One of the namespaces may list what is stored in the other. -/
def Overlap (a b : String) : Prop :=
  a = "" ∨ b = "" ∨ (a ++ "/").toList <+: (b ++ "/").toList ∨
    (b ++ "/").toList <+: (a ++ "/").toList

instance (a b : String) : Decidable (Overlap a b) := inferInstanceAs (Decidable (_ ∨ _))

/-- The deployment is stored at the same path, or has the same name and may list the same pods. -/
def Shares (ns name : String) (d : Deployment) : Prop :=
  path d.getMetadata.ns d.getMetadata.name = path ns name ∨
    d.getMetadata.name = name ∧ Overlap d.getMetadata.ns ns

instance (ns name : String) (d : Deployment) : Decidable (Shares ns name d) :=
  inferInstanceAs (Decidable (_ ∨ _))

/-- The deployments that a call has listed. -/
def listedDeployments : (c : Cmd) → c.Answer → Option (List Deployment)
  | .list .deployments _, .ok deployments => some deployments
  | _, _ => none

/-- A step of the two. -/
abbrev DeletionStep := Prog.Event DeletionParty Cmd Cmd.Answer State

/-- The step shows the pass a deployment that shares something. -/
def ShowsShared (ns name : String) (e : DeletionStep) : Prop :=
  e.who = .pass ∧ ∃ deployments ∈ listedDeployments e.cmd e.answer,
    ∃ d ∈ deployments, Shares ns name d

instance (ns name : String) : DecidablePred (ShowsShared ns name) :=
  fun _ => inferInstanceAs (Decidable (_ ∧ _))

/-- **While the deletion is under way, the pass is not at work on a list that shares something with
the deployment.** -/
def Apart (ns name : String) :
    Prog.Guard DeletionParty Cmd Cmd.Answer Stop (Except Status Unit) State := fun tr Q e =>
  e.who = .deleter ∨ Prog.history .deleter tr ≠ [] ∧ (Q .deleter).busy = true →
    ¬ ((∃ e ∈ tr, ShowsShared ns name e) ∧ (Q .pass).busy = true)

/-! ### Names -/

/-- Deployments and pods are stored under their own names. -/
structure Keyed (t : State) : Prop where
  deployments : ∀ K d, (t .deployments).lookup K = some d →
    path d.getMetadata.ns d.getMetadata.name = K
  pods : ∀ K p, (t .pods).lookup K = some p → path p.getMetadata.ns p.getMetadata.name = K

/-- What is listed and fetched, when it is stored so. -/
def KeyedAnswer : (c : Cmd) → c.Answer → Prop
  | .list .pods ns, .ok all => ∀ p ∈ all, Listed ns (path p.getMetadata.ns p.getMetadata.name)
  | .get .deployments ns name, .ok cur =>
    path cur.getMetadata.ns cur.getMetadata.name = path ns name
  | _, _ => True

/-- Deployments and pods are put under their own names. -/
def PutsKeyed : Cmd → Prop
  | .put .pods ns name p => path ns name = path p.getMetadata.ns p.getMetadata.name
  | .put .deployments ns name d => path ns name = path d.getMetadata.ns d.getMetadata.name
  | _ => True

section

variable {c : Cmd} {x : c.Answer} {t t' : State}

theorem Keyed.answer (ht : Keyed t) (h : serveOrFail c t x t') : KeyedAnswer c x := by
  rcases c with ⟨k, ns, name⟩ | _ | _ | ⟨k, ns⟩
  · cases k <;> cases x <;> try trivial
    exact ht.deployments _ _ (lookup_of_get h)
  · trivial
  · trivial
  · cases k <;> cases x <;> try trivial
    intro p hp
    obtain ⟨K, hK, hl⟩ := (mem_of_list h).mp hp
    rwa [ht.pods K p hl]

theorem Keyed.step (ht : Keyed t) (h : serveOrFail c t x t') (hc : PutsKeyed c) : Keyed t' := by
  rw [serveOrFail_post h]
  refine ⟨fun K d hd => ?_, fun K p hp => ?_⟩
  · rw [lookup_effect] at hd
    cases hw : c.writesAt .deployments K x with
    | none => rw [hw] at hd; exact ht.deployments K d hd
    | some v =>
      rw [hw] at hd
      cases hd
      obtain ⟨ns, name, rfl, rfl⟩ := put_of_writesAt hw
      exact hc.symm
  · rw [lookup_effect] at hp
    cases hw : c.writesAt .pods K x with
    | none => rw [hw] at hp; exact ht.pods K p hp
    | some v =>
      rw [hw] at hp
      cases hp
      obtain ⟨ns, name, rfl, rfl⟩ := put_of_writesAt hw
      exact hc.symm

end

/-- What a namespace lists of another one's objects. -/
theorem overlap_of_listed {a b n : String} (h : Listed a (path b n)) : Overlap a b := by
  rcases h with h | h
  · exact .inl h
  · by_cases hb : b = ""
    · exact .inr (.inl hb)
    · refine .inr <| .inr <| prefix_or_prefix_of_prefix h ?_
      have hl : (b ++ "/" ++ n).toList = (b ++ "/").toList ++ n.toList := String.toList_append
      rw [path_of_ne hb, hl]
      exact prefix_append _ _

/-! ### What is harmless -/

section

variable {ns name : String}

/-- A call that brings back neither the deployment nor a pod of it. -/
def Harmless (ns name : String) (c : Cmd) : Prop :=
  PutsKeyed c ∧ match c with
    | .put .pods _ _ p => ¬ Carries ns name p.getMetadata
    | .put .deployments ns' name' _ => path ns' name' ≠ path ns name
    | _ => True

variable {c : Cmd} {x : c.Answer} {t t' : State} {p : Reg (Except Status Unit)}

/-- No pod of the deployment is new. -/
theorem lookup_of_carries (hc : Harmless ns name c) (h : serveOrFail c t x t') {K : String}
    {p : Pod} (hp : (t' .pods).lookup K = some p) (hcar : Carries ns name p.getMetadata) :
    (t .pods).lookup K = some p := by
  rw [serveOrFail_post h, lookup_effect] at hp
  cases hw : c.writesAt .pods K x with
  | none => rw [hw] at hp; exact hp
  | some v =>
    rw [hw] at hp
    cases hp
    obtain ⟨ns', name', -, rfl⟩ := put_of_writesAt hw
    exact absurd hcar hc.2

/-- The deployment stays away. -/
theorem lookup_deployment_eq_none (hc : Harmless ns name c) (h : serveOrFail c t x t')
    (ht : (t .deployments).lookup (path ns name) = none) :
    (t' .deployments).lookup (path ns name) = none := by
  rw [serveOrFail_post h, lookup_effect]
  rcases hw : c.writesAt .deployments (path ns name) x with _ | _ | d
  · exact ht
  · rfl
  · obtain ⟨ns', name', hp, rfl⟩ := put_of_writesAt hw
    exact absurd hp hc.2

theorem Gone.step (ht : Gone ns name t) (hc : Harmless ns name c) (h : serveOrFail c t x t') :
    Gone ns name t' :=
  ⟨lookup_deployment_eq_none hc h ht.1, fun K p hp hcar =>
    ht.2 K p (lookup_of_carries hc h hp hcar) hcar⟩

/-! ### The passes -/

/-- A pass over any deployment puts what it puts under its own name. -/
theorem putsKeyed_reconcileOne (d : Deployment) :
    (reconcileOne d).Ensures KeyedAnswer PutsKeyed fun _ => True := by
  refine Ensures.mono (fun c x _ => ?_) (fun c hc => ?_) (fun _ h => h)
    (@ensures_reconcileOne d (fun _ => True) (fun _ => True) fun _ => trivial)
  · rcases c with ⟨k, ns, name⟩ | _ | _ | ⟨k, ns⟩
    · cases k <;> cases x <;> try trivial
      exact fun _ _ => trivial
    · trivial
    · trivial
    · cases k <;> cases x <;> try trivial
      exact fun _ _ _ _ => trivial
  · rcases c with _ | ⟨k, ns, name, obj⟩ | _ | _ <;> try trivial
    cases k <;> try trivial
    · obtain ⟨⟨rfl, rfl⟩, -⟩ := hc
      exact rfl
    · obtain ⟨⟨rfl, rfl⟩, -⟩ := hc
      exact rfl

/-- **A pass over another deployment is harmless**, if what it lists as its own is not ours. -/
theorem harmless_reconcileOne {d : Deployment} {A : (c : Cmd) → c.Answer → Prop}
    (hd : path d.getMetadata.ns d.getMetadata.name ≠ path ns name)
    (hA : ∀ c x, A c x → KeyedAnswer c x)
    (hown : ∀ all, A (.list .pods d.getMetadata.ns) (.ok all) →
      ∀ p ∈ all, OwnedBy d p → ¬ Carries ns name p.getMetadata) :
    (reconcileOne d).Ensures A (Harmless ns name) fun _ => True := by
  have hnew : ∀ i, ¬ Carries ns name (newPod d i).getMetadata := by
    rintro i ⟨hns, hname⟩
    refine hd ?_
    rw [← hns, ← hname, show (newPod d i).getMetadata.label OwnerDeploymentLabel =
      d.getMetadata.name from ownedBy_newPod d i]
    rfl
  refine Ensures.mono (fun c x hx => ?_) (fun c hc => ?_) (fun _ h => h)
    (@ensures_reconcileOne d (fun md => ¬ Carries ns name md)
      (fun cur => path cur.getMetadata.ns cur.getMetadata.name =
        path d.getMetadata.ns d.getMetadata.name) hnew)
  · rcases c with ⟨k, ns', name'⟩ | _ | _ | ⟨k, ns'⟩
    · cases k <;> cases x <;> try trivial
      rintro rfl rfl
      exact hA _ _ hx
    · trivial
    · trivial
    · cases k <;> cases x <;> try trivial
      rintro rfl
      exact hown _ hx
  · rcases c with _ | ⟨k, ns', name', obj⟩ | _ | _
    · exact ⟨trivial, trivial⟩
    · cases k with
      | pods =>
        obtain ⟨⟨rfl, rfl⟩, hcar, -⟩ := hc
        exact ⟨rfl, hcar⟩
      | deployments =>
        obtain ⟨⟨rfl, rfl⟩, cur, status, hcur, rfl⟩ := hc
        exact ⟨rfl, fun he => hd (hcur.symm.trans he)⟩
      | _ => exact ⟨trivial, trivial⟩
    · exact ⟨trivial, trivial⟩
    · exact ⟨trivial, trivial⟩

/-- A pass over a deployment that shares nothing. -/
theorem harmless_of_not_shares {d : Deployment} (hd : ¬ Shares ns name d) :
    (reconcileOne d).Ensures KeyedAnswer (Harmless ns name) fun _ => True := by
  refine harmless_reconcileOne (fun he => hd (.inl he)) (fun _ _ h => h) ?_
  rintro all hall p hp hown ⟨hns, hname⟩
  refine hd (.inr ⟨hown.symm.trans hname, ?_⟩)
  have hl := hall p hp
  rw [hns] at hl
  exact overlap_of_listed hl

/-- What is listed and fetched when the deployment and its pods are gone. -/
def GoneAnswer (ns name : String) (c : Cmd) (x : c.Answer) : Prop :=
  KeyedAnswer c x ∧ match c, x with
    | .list .pods _, .ok all => ∀ p ∈ all, ¬ Carries ns name p.getMetadata
    | .list .deployments _, .ok all =>
      ∀ d ∈ all, path d.getMetadata.ns d.getMetadata.name ≠ path ns name
    | _, _ => True

theorem Gone.answer (ht : Keyed t) (hg : Gone ns name t) (h : serveOrFail c t x t') :
    GoneAnswer ns name c x := by
  refine ⟨ht.answer h, ?_⟩
  rcases c with _ | _ | _ | ⟨k, ns'⟩ <;> try trivial
  cases k <;> cases x <;> try trivial
  · intro d hd he
    obtain ⟨K, -, hl⟩ := (mem_of_list h).mp hd
    rw [← ht.deployments K d hl, he, hg.1] at hl
    cases hl
  · intro p hp
    obtain ⟨K, -, hl⟩ := (mem_of_list h).mp hp
    exact hg.2 K p hl

/-- **A pass that begins when all is gone is harmless.** -/
theorem harmless_reconcileAll :
    reconcileAll.Ensures (GoneAnswer ns name) (Harmless ns name) fun _ => True := by
  refine ensures_reconcileAll ⟨trivial, trivial⟩ fun deployments hds d hd => ?_
  exact harmless_reconcileOne (hds.2 d hd) (fun _ _ h => h.1) fun all hall p hp _ => hall.2 p hp

/-- The passes that follow, one after another. -/
def LaterPasses : State → State → Prop :=
  Relation.ReflTransGen fun t t' => ∃ r, reconcileAll.Runs serveOrFail t r t'

/-- **No later pass brings anything back.** -/
theorem Gone.later (ht : Keyed t) (hg : Gone ns name t) (h : LaterPasses t t') :
    Keyed t' ∧ Gone ns name t' := by
  induction h with
  | refl => exact ⟨ht, hg⟩
  | tail _ hr ih =>
    obtain ⟨r, hr⟩ := hr
    exact (harmless_reconcileAll.keeps (H := serveOrFail) (I := fun t => Keyed t ∧ Gone ns name t)
      (fun c t x t' ht h => ht.2.answer ht.1 h)
      (fun c hc t x t' ht h => ⟨ht.1.step h hc.1, ht.2.step hc h⟩) hr ih).1

/-! ### The phases of a deletion -/

/-- The rest of `DeleteDeployment`, once the deployment is deleted. -/
def cascade (ns name : String) : Reg (Except Status Unit) := do
  match ← Registry.list .pods ns with
  | .error err => return .error ⟨.internal, "list pods for cascade delete: ", some err⟩
  | .ok pods => deleteOwned name pods

/-- Every pod of the deployment is still to be deleted. -/
def ToDelete (ns name : String) (pods : List Pod) (t : State) : Prop :=
  ∀ K p, (t .pods).lookup K = some p → Carries ns name p.getMetadata →
    ∃ q ∈ pods, q.getMetadata.label OwnerDeploymentLabel = name ∧
      q.getMetadata.ns = p.getMetadata.ns ∧ q.getMetadata.name = p.getMetadata.name

/-- The pass has not begun, or all that it will do is harmless. -/
def PassApart (ns name : String) (p : Reg (Except Status Unit)) : Prop :=
  p = deletionProg ns name .pass ∨ p.Ensures KeyedAnswer (Harmless ns name) fun _ => True

/-- How far the two have come. -/
inductive Phase (ns name : String) (tr : List DeletionStep)
    (Q : DeletionParty → Reg (Except Status Unit)) (t : State) : Prop
  | before (hQ : Q .deleter = deleteDeployment ns name) (h₀ : Prog.history .deleter tr = [])
      (ht : Keyed t)
      (hp : PassApart ns name (Q .pass) ∨ (∃ e ∈ tr, ShowsShared ns name e) ∧
        (Q .pass).Ensures KeyedAnswer PutsKeyed fun _ => True)
  | deleted (hQ : Q .deleter = cascade ns name) (h₁ : Prog.history .deleter tr ≠ [])
      (ht : Keyed t) (hno : (t .deployments).lookup (path ns name) = none)
      (hp : PassApart ns name (Q .pass))
  | deleting (p : Pod) (pods : List Pod) (hQ : Q .deleter = deleteOwned name (p :: pods))
      (hl : p.getMetadata.label OwnerDeploymentLabel = name)
      (h₁ : Prog.history .deleter tr ≠ []) (ht : Keyed t)
      (hno : (t .deployments).lookup (path ns name) = none)
      (hpods : ToDelete ns name (p :: pods) t) (hp : PassApart ns name (Q .pass))
  | done (hQ : Q .deleter = .ret (.ok ())) (ht : Keyed t) (hg : Gone ns name t)
      (hp : (Q .pass).Ensures (GoneAnswer ns name) (Harmless ns name) fun _ => True)
  | failed (err : Status) (hQ : Q .deleter = .ret (.error err))
  /-- No step is allowed any more. -/
  | stuck (h₁ : Prog.history .deleter tr ≠ []) (hb : (Q .deleter).busy = true)
      (hs : ∃ e ∈ tr, ShowsShared ns name e) (hp : (Q .pass).busy = true)

/-- The pods that are not ours are passed over. -/
theorem deleteOwned_cases (name : String) : ∀ pods : List Pod,
    deleteOwned name pods = .ret (.ok ()) ∧
        (∀ p ∈ pods, p.getMetadata.label OwnerDeploymentLabel ≠ name) ∨
      ∃ p rest, deleteOwned name pods = deleteOwned name (p :: rest) ∧
        p.getMetadata.label OwnerDeploymentLabel = name ∧
        ∀ q ∈ pods, q.getMetadata.label OwnerDeploymentLabel = name → q ∈ p :: rest
  | [] => .inl ⟨rfl, fun p hp => by cases hp⟩
  | p :: pods => by
    by_cases hl : p.getMetadata.label OwnerDeploymentLabel = name
    · exact .inr ⟨p, pods, rfl, hl, fun q hq _ => hq⟩
    · have hskip : deleteOwned name (p :: pods) = deleteOwned name pods := by
        rw [deleteOwned, if_pos hl]
      rw [hskip]
      rcases deleteOwned_cases name pods with ⟨hret, hall⟩ | ⟨q, rest, hq, hql, hall⟩
      · exact .inl ⟨hret, forall_mem_cons.mpr ⟨hl, hall⟩⟩
      · refine .inr ⟨q, rest, hq, hql, fun r hr hrl => ?_⟩
        rcases mem_cons.mp hr with rfl | hr
        · exact absurd hrl hl
        · exact hall r hr hrl

/-- A pass that is apart is harmless once all is gone. -/
theorem PassApart.gone (h : PassApart ns name p) :
    p.Ensures (GoneAnswer ns name) (Harmless ns name) fun _ => True := by
  rcases h with rfl | h
  · exact Ensures.bind harmless_reconcileAll fun _ _ => trivial
  · exact h.mono (fun _ _ hx => hx.1) (fun _ hc => hc) fun _ ht => ht

/-- **The deletion goes on** with the next pod that is ours, or is through. -/
theorem Phase.next {tr : List DeletionStep} {Q : DeletionParty → Reg (Except Status Unit)}
    {t : State} {pods : List Pod} (hQ : Q .deleter = deleteOwned name pods)
    (h₁ : Prog.history .deleter tr ≠ []) (ht : Keyed t)
    (hno : (t .deployments).lookup (path ns name) = none) (hpods : ToDelete ns name pods t)
    (hp : PassApart ns name (Q .pass)) : Phase ns name tr Q t := by
  rcases deleteOwned_cases name pods with ⟨hret, hall⟩ | ⟨p, rest, he, hl, hall⟩
  · refine .done (hQ.trans hret) ht ⟨hno, fun K p hK hcar => ?_⟩ hp.gone
    obtain ⟨q, hq, hql, -⟩ := hpods K p hK hcar
    exact hall q hq hql
  · refine .deleting p rest (hQ.trans he) hl h₁ ht hno (fun K p' hK hcar => ?_) hp
    obtain ⟨q, hq, hql, hsame⟩ := hpods K p' hK hcar
    exact ⟨q, hall q hq hql, hql, hsame⟩

/-- **One step of a pass that is apart** is harmless.  It stays apart, unless it has listed
something that shares. -/
theorem PassApart.step {e : DeletionStep} (hwho : e.who = .pass)
    (hp : PassApart ns name p) {k : e.cmd.Answer → Reg (Except Status Unit)}
    (hcall : p = .call e.cmd k) (ht : Keyed e.pre) (he : serveOrFail e.cmd e.pre e.answer e.post) :
    Harmless ns name e.cmd ∧ (PassApart ns name (k e.answer) ∨ ShowsShared ns name e ∧
      (k e.answer).Ensures KeyedAnswer PutsKeyed fun _ => True) := by
  rcases e with ⟨i, c, x, t, t'⟩
  rcases hp with rfl | hp
  · -- it begins, and lists the deployments
    cases hcall
    refine ⟨⟨trivial, trivial⟩, ?_⟩
    rcases x with err | deployments
    · exact .inl (.inr trivial)
    by_cases hs : ∃ d ∈ deployments, Shares ns name d
    · refine .inr ⟨⟨hwho, deployments, rfl, hs⟩, ?_⟩
      exact Ensures.bind (ensures_reconcileEach fun d _ => putsKeyed_reconcileOne d)
        fun _ _ => trivial
    · refine .inl (.inr ?_)
      refine Ensures.bind (ensures_reconcileEach fun d hd => ?_) fun _ _ => trivial
      exact harmless_of_not_shares fun hsh => hs ⟨d, hd, hsh⟩
  · rw [hcall] at hp
    exact ⟨hp.1, .inl (.inr (hp.2 x (ht.answer he)))⟩

variable {tr : List DeletionStep} {Q : DeletionParty → Reg (Except Status Unit)}
  {k : c.Answer → Reg (Except Status Unit)}

/-- **One step of the deletion.** -/
theorem Phase.deleterStep (hph : Phase ns name tr Q t) (hQ : Q .deleter = .call c k)
    (hH : serveOrFail c t x t') (hG : Apart ns name tr Q ⟨.deleter, c, x, t, t'⟩) :
    Phase ns name (⟨.deleter, c, x, t, t'⟩ :: tr) (Function.update Q .deleter (k x)) t' := by
  have h₁ : Prog.history .deleter (⟨.deleter, c, x, t, t'⟩ :: tr : List DeletionStep) ≠ [] := by
    simp [Prog.history]
  have hpass : Function.update Q .deleter (k x) .pass = Q .pass :=
    Function.update_of_ne (by decide) _ _
  have hself : Function.update Q .deleter (k x) .deleter = k x := Function.update_self ..
  cases hph with
  | before hD h₀ ht hp =>
    rw [hD] at hQ
    cases hQ
    rcases x with err | _
    · exact .failed _ hself
    refine .deleted hself h₁ (ht.step hH trivial) ?_ ?_
    · rw [serveOrFail_post hH, lookup_effect]
      simp [Cmd.writesAt]
    · rw [hpass]
      rcases hp with hp | ⟨hs, -⟩
      · exact hp
      · -- a pass that shares is through
        refine .inr (ensures_of_not_busy ?_)
        simpa [hs] using hG (.inl rfl)
  | deleted hD _ ht hno hp =>
    rw [hD] at hQ
    cases hQ
    have hpost := serveOrFail_post hH
    simp only [Cmd.effect] at hpost
    rcases x with err | pods
    · exact .failed _ hself
    refine Phase.next hself h₁ (ht.step hH trivial) (by rw [hpost]; exact hno) ?_
      (by rw [hpass]; exact hp)
    intro K p hK hcar
    rw [hpost] at hK
    refine ⟨p, (mem_of_list hH).mpr ⟨K, ?_, hK⟩, hcar.2, rfl, rfl⟩
    rw [← ht.pods K p hK, hcar.1]
    by_cases hns : ns = ""
    · exact .inl hns
    · exact listed_path hns _
  | deleting p pods hD hl _ ht hno hpods hp =>
    rw [hD, deleteOwned, if_neg (not_not.mpr hl)] at hQ
    cases hQ
    rcases x with err | _
    · exact .failed _ hself
    have hharm : Harmless ns name (.delete .pods p.getMetadata.ns p.getMetadata.name) :=
      ⟨trivial, trivial⟩
    refine Phase.next hself h₁ (ht.step hH trivial)
      (lookup_deployment_eq_none hharm hH hno) ?_ (by rw [hpass]; exact hp)
    intro K p' hK hcar
    have hK₀ := lookup_of_carries hharm hH hK hcar
    obtain ⟨q, hq, hql, hqns, hqname⟩ := hpods K p' hK₀ hcar
    rcases mem_cons.mp hq with rfl | hq
    · -- this one has been deleted
      have hKq : path q.getMetadata.ns q.getMetadata.name = K := by
        rw [hqns, hqname]; exact ht.pods K p' hK₀
      rw [serveOrFail_post hH, lookup_effect] at hK
      simp [Cmd.writesAt, hKq] at hK
    · exact ⟨q, hq, hql, hqns, hqname⟩
  | done hD ht hg hp => rw [hD] at hQ; cases hQ
  | failed err hD => rw [hD] at hQ; cases hQ
  | stuck _ _ hs hp => exact absurd ⟨hs, hp⟩ (hG (.inl rfl))

/-- **One step of the pass.** -/
theorem Phase.passStep (hph : Phase ns name tr Q t) (hQ : Q .pass = .call c k)
    (hH : serveOrFail c t x t') (hG : Apart ns name tr Q ⟨.pass, c, x, t, t'⟩) :
    Phase ns name (⟨.pass, c, x, t, t'⟩ :: tr) (Function.update Q .pass (k x)) t' := by
  have hhist : Prog.history .deleter (⟨.pass, c, x, t, t'⟩ :: tr : List DeletionStep) =
      Prog.history .deleter tr := by simp [Prog.history]
  have hdel : Function.update Q .pass (k x) .deleter = Q .deleter :=
    Function.update_of_ne (by decide) _ _
  have hself : Function.update Q .pass (k x) .pass = k x := Function.update_self ..
  have hstep : PassApart ns name (Q .pass) → Keyed t → Harmless ns name c ∧
      (PassApart ns name (k x) ∨ ShowsShared ns name ⟨.pass, c, x, t, t'⟩ ∧
        (k x).Ensures KeyedAnswer PutsKeyed fun _ => True) := fun hp ht =>
    PassApart.step (e := ⟨.pass, c, x, t, t'⟩) rfl hp hQ ht hH
  -- a pass that is through is apart, whatever it has listed
  have hapart : (PassApart ns name (k x) ∨ ShowsShared ns name ⟨.pass, c, x, t, t'⟩ ∧
      (k x).Ensures KeyedAnswer PutsKeyed fun _ => True) →
        PassApart ns name (k x) ∨ ShowsShared ns name ⟨.pass, c, x, t, t'⟩ ∧ (k x).busy = true := by
    rintro (hp | ⟨hs, -⟩)
    · exact .inl hp
    · cases hb : (k x).busy with
      | false => exact .inl (.inr (ensures_of_not_busy hb))
      | true => exact .inr ⟨hs, rfl⟩
  cases hph with
  | before hD h₀ ht hp =>
    rcases hp with hp | ⟨⟨e, he, hs⟩, hp⟩
    · obtain ⟨hc, hp'⟩ := hstep hp ht
      refine .before (hdel.trans hD) (hhist.trans h₀) (ht.step hH hc.1) ?_
      rw [hself]
      rcases hp' with hp' | ⟨hs, hp'⟩
      · exact .inl hp'
      · exact .inr ⟨⟨_, mem_cons_self, hs⟩, hp'⟩
    · rw [hQ] at hp
      refine .before (hdel.trans hD) (hhist.trans h₀) (ht.step hH hp.1) (.inr ⟨⟨e, ?_, hs⟩, ?_⟩)
      · exact mem_cons_of_mem _ he
      · rw [hself]; exact hp.2 x (ht.answer hH)
  | deleted hD h₁ ht hno hp =>
    obtain ⟨hc, hp'⟩ := hstep hp ht
    rcases hapart hp' with hp' | ⟨hs, hb⟩
    · exact .deleted (hdel.trans hD) (by rwa [hhist]) (ht.step hH hc.1)
        (lookup_deployment_eq_none hc hH hno) (by rwa [hself])
    · exact .stuck (by rwa [hhist]) (by rw [hdel, hD]; rfl) ⟨_, mem_cons_self, hs⟩
        (by rwa [hself])
  | deleting p pods hD hl h₁ ht hno hpods hp =>
    obtain ⟨hc, hp'⟩ := hstep hp ht
    rcases hapart hp' with hp' | ⟨hs, hb⟩
    · refine .deleting p pods (hdel.trans hD) hl (by rwa [hhist]) (ht.step hH hc.1)
        (lookup_deployment_eq_none hc hH hno) (fun K p' hK hcar => ?_) (by rwa [hself])
      exact hpods K p' (lookup_of_carries hc hH hK hcar) hcar
    · refine .stuck (by rwa [hhist]) ?_ ⟨_, mem_cons_self, hs⟩ (by rwa [hself])
      rw [hdel, hD, deleteOwned, if_neg (not_not.mpr hl)]
      rfl
  | done hD ht hg hp =>
    rw [hQ] at hp
    refine .done (hdel.trans hD) (ht.step hH hp.1.1) (hg.step hp.1 hH) ?_
    rw [hself]
    exact hp.2 x (hg.answer ht hH)
  | failed err hD => exact .failed err (hdel.trans hD)
  | stuck h₁ hb hs hp => exact absurd ⟨hs, hp⟩ (hG (.inr ⟨h₁, hb⟩))

/-- **A deletion that returns is complete**: neither the deployment nor a pod of it is stored, and
no later pass brings one back, when the pass beside it is not at work on a list that shares
something with the deployment.  Deployments and pods are stored under their own names. -/
theorem deletion_complete {s : State} (hs : Keyed s)
    (h : Prog.Interleaves (Apart ns name) serveOrFail (deletionProg ns name) s tr Q t)
    (hQ : (Q .deleter).result = some (.ok ())) (hlater : LaterPasses t t') : Gone ns name t' := by
  have hph : Phase ns name tr Q t := by
    refine h.invariant (I := Phase ns name) (.before rfl rfl hs (.inl (.inl rfl))) ?_
    intro tr Q t i c k x t' _ hph hQ hH hG
    cases i with
    | deleter => exact hph.deleterStep hQ hH hG
    | pass => exact hph.passStep hQ hH hG
  cases hph with
  | before hD _ _ _ => rw [hD] at hQ; cases hQ
  | deleted hD _ _ _ _ => rw [hD] at hQ; cases hQ
  | deleting p pods hD hl _ _ _ _ _ =>
    rw [hD, deleteOwned, if_neg (not_not.mpr hl)] at hQ
    cases hQ
  | done _ ht hg _ => exact (hg.later ht hlater).2
  | failed err hD => rw [hD] at hQ; cases hQ
  | stuck _ hb _ _ =>
    cases hD : Q .deleter with
    | ret a => rw [hD] at hb; cases hb
    | stop e => rw [hD] at hb; cases hb
    | call c k => rw [hD] at hQ; cases hQ

end

/-! ### A pod that is left behind -/

/-- A deployment with one replica. -/
def singleWeb : Deployment :=
  { metadata := some { name := "web", ns := "default" }
    spec := some { replicas := 1 } }

/-- The deployment, of which no pod has been made yet. -/
def onlySingleWeb : State :=
  State.empty.set .deployments (Finmap.singleton "default/web" singleWeb)

theorem keyed_onlySingleWeb : Keyed onlySingleWeb where
  deployments K d hd := by
    rw [onlySingleWeb, State.set_self, Finmap.lookup_singleton_iff] at hd
    rw [hd.1, hd.2]
    rfl
  pods K p hp := by cases hp

instance (ns name : String) (tr : List DeletionStep)
    (Q : DeletionParty → Reg (Except Status Unit)) (e : DeletionStep) :
    Decidable (Apart ns name tr Q e) :=
  inferInstanceAs (Decidable (_ → _))

/-- The pass, with the pod it creates; then the deletion, with the pod it finds. -/
def passThenDelete : List (DeletionParty × List String) :=
  [(.pass, ["default/web"]), (.pass, []), (.pass, []), (.pass, ["default/web-0"]),
    (.pass, ["default/web-0"]), (.pass, []), (.pass, []), (.pass, []), (.pass, []),
    (.deleter, []), (.deleter, ["default/web-0"]), (.deleter, [])]

theorem deletion_complete_sample :
    ∃ tr Q t, Prog.Interleaves (Apart "default" "web") serveOrFail (deletionProg "default" "web")
        onlySingleWeb tr Q t ∧
      ((Q .deleter).result = some (.ok ()) ∧ (Q .pass).result = some (.ok ())) ∧
      Gone "default" "web" t := by
  obtain ⟨tr, Q, t, h, hQ⟩ := exists_of_play (G := Apart "default" "web")
    (P := deletionProg "default" "web") (s := onlySingleWeb)
    (T := fun r => (r.progs .deleter).result = some (.ok ()) ∧
      (r.progs .pass).result = some (.ok ()))
    serveOrFail_of_resolve passThenDelete (by decide)
  exact ⟨tr, Q, t, h, hQ, deletion_complete keyed_onlySingleWeb h hQ.1 .refl⟩

/-- The deletion while the pass works on its list. -/
def deleteInThePass : List (DeletionParty × List String) :=
  [(.pass, ["default/web"]), (.deleter, []), (.deleter, []), (.pass, []), (.pass, []),
    (.pass, ["default/web-0"]), (.pass, ["default/web-0"]), (.pass, []), (.pass, []), (.pass, [])]

/-- **A pod is left behind.**  The deletion returns, the pass ends, and a pod of the deployment is
stored. -/
theorem deletion_leaves_pod :
    Keyed onlySingleWeb ∧
    ∃ tr Q t, Prog.Interleaves Prog.unguarded serveOrFail (deletionProg "default" "web")
        onlySingleWeb tr Q t ∧
      ((Q .deleter).result = some (.ok ()) ∧ (Q .pass).result = some (.ok ())) ∧
      ¬ Gone "default" "web" t := by
  refine ⟨keyed_onlySingleWeb, ?_⟩
  obtain ⟨tr, Q, t, h, hQ, p, hp, hcar⟩ := exists_of_play (G := Prog.unguarded)
    (P := deletionProg "default" "web") (s := onlySingleWeb)
    (T := fun r => ((r.progs .deleter).result = some (.ok ()) ∧
        (r.progs .pass).result = some (.ok ())) ∧
      ∃ p ∈ (r.state .pods).lookup "default/web-0", Carries "default" "web" p.getMetadata)
    serveOrFail_of_resolve deleteInThePass (by decide)
  exact ⟨tr, Q, t, h, hQ, fun hg => hg.2 _ p hp hcar⟩

end NimbusCore.Controller
