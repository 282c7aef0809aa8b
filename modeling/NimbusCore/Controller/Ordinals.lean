import NimbusCore.Controller.Stages

/-!
# Controller — the ordinals of new pods

The loop of `reconcileOne` that creates pods counts an index up and passes the indices it finds
occupied; what it counts down is the number of pods still missing.  Which indices are occupied is
read off the names of the owned pods, by cutting the prefix off and parsing, so a name such as
`web-007`, or one without the prefix, occupies an index as well.

* `lowest_freeIndices`: the indices used are the lowest ones that are free (`Lowest`).
* `podName_ne_of_mem`: a name the loop generates is parsed back to its index, so no owned pod has
  the name of a free index.
* `podName_inj`: the last dash of a generated name is the one in front of the index, so the name of
  the deployment and the index can be read off it.
* `runs_createLoop_orFail`: over a store that fails, the loop ends with the error of the store and
  has created the pods up to there.

`scaleUp_fills_gaps` puts them together.
-/

namespace NimbusCore.Controller

open Api Registry

/-! ### The lowest free indices -/

/-- The `n` lowest numbers that are free, in their order. -/
structure Lowest (free : Nat → Prop) (n : Nat) (is : List Nat) : Prop where
  length : is.length = n
  sorted : is.Pairwise (· < ·)
  mem : ∀ i ∈ is, free i
  /-- A free number that is left out is higher than all of them. -/
  least : ∀ j, free j → j ∉ is → ∀ i ∈ is, i < j

/-- The loop leaves out no free index it comes past. -/
theorem freeIndices_lt {occ : List Int} {j : Nat} (hj : (j : Int) ∉ occ) :
    ∀ {fuel toCreate i : Nat}, i ≤ j → j ∉ freeIndices occ fuel toCreate i →
      ∀ k ∈ freeIndices occ fuel toCreate i, k < j
  | _, 0, _, _, _, _, h | 0, _ + 1, _, _, _, _, h => by simp [freeIndices] at h
  | fuel + 1, toCreate + 1, i, hij, hout, k, h => by
    rw [freeIndices] at hout h
    split at hout
    · next hi =>
      rw [if_pos hi] at h
      have hne : i ≠ j := fun he => hj (he ▸ hi)
      exact freeIndices_lt hj (by omega) hout k h
    · next hi =>
      rw [if_neg hi] at h
      obtain ⟨hne, hout⟩ := not_or.mp (List.mem_cons.not.mp hout)
      rcases List.mem_cons.mp h with rfl | h
      · omega
      · exact freeIndices_lt hj (by omega) hout k h

/-- **The loop uses the lowest free indices.** -/
theorem lowest_freeIndices {occ : List Int} {fuel toCreate : Nat}
    (h : toCreate + ahead occ 0 ≤ fuel) :
    Lowest (fun i => (i : Int) ∉ occ) toCreate (freeIndices occ fuel toCreate 0) where
  length := length_freeIndices occ fuel toCreate 0 h
  sorted := sorted_freeIndices occ fuel toCreate 0
  mem := fun _ hi => (freeIndices_notMem hi).1
  least := fun j hj hout => freeIndices_lt hj (Nat.zero_le j) hout

/-! ### Names -/

/-- The decimal form of a number has no dash. -/
theorem dash_notMem_toString (n : Nat) : '-' ∉ (toString n).toList := by
  intro h
  rw [Nat.toString_eq_repr, Nat.toList_repr] at h
  exact absurd (Nat.isDigit_of_mem_toDigits (by decide) (by decide) h) (by decide)

theorem toList_podName (d : Deployment) (i : Nat) :
    (podName d i).toList = d.getMetadata.name.toList ++ '-' :: (toString i).toList := by
  rw [podName, String.toList_append, String.toList_append, List.append_assoc]
  rfl

/-- **A generated name says whose it is, and which.** -/
theorem podName_inj {d d' : Deployment} {i j : Nat} (h : podName d i = podName d' j) :
    d.getMetadata.name = d'.getMetadata.name ∧ i = j := by
  have hl := congrArg String.toList h
  rw [toList_podName, toList_podName] at hl
  rcases append_sep_eq_iff.mp hl with ⟨hname, hnum⟩ | ⟨x, -, hnum⟩ | ⟨x, -, hnum⟩
  · exact ⟨String.toList_inj.mp hname, toString_nat_inj (String.toList_inj.mp hnum)⟩
  · exact absurd (hnum ▸ by simp) (dash_notMem_toString i)
  · exact absurd (hnum ▸ by simp) (dash_notMem_toString j)

/-- No owned pod has the name that goes with a free index. -/
theorem podName_ne_of_mem {d : Deployment} {owned : List Pod} {i : Nat} (hi : i < 2 ^ 63)
    (hfree : (i : Int) ∉ occupied d owned) {p : Pod} (hp : p ∈ owned) :
    p.getMetadata.name ≠ podName d i := by
  intro hname
  refine hfree (List.mem_filterMap.mpr ⟨p, hp, ?_⟩)
  rw [hname, podName]
  exact atoi_trimPrefix _ hi

theorem map_name_creations (d : Deployment) (node : String) (is : List Nat) :
    (is.map (created d node)).map (fun p => p.getMetadata.name) = is.map (podName d) := by
  rw [List.map_map]
  refine List.map_congr_left fun i _ => ?_
  rw [Function.comp_apply, created_metadata]
  rfl

/-! ### The loop over a store that fails -/

section

variable {d : Deployment} {node : String}

theorem pin_newPod {i : Nat} (h : node = "" ∨ d.getSpec.template ≠ none) :
    pin node (newPod d i) = pure (created d node i) := by
  simp only [pin, created]
  split
  · rfl
  · next hne =>
    obtain ⟨spec, hspec⟩ := Option.ne_none_iff_exists'.mp (h.resolve_left hne)
    have hp : (newPod d i).spec = some spec := hspec
    simp only [hp, setNodeName, Pod.getSpec, Option.getD_some]

/-- **Whatever the store does, the loop ends**: it returns when every pod is created, or at the
first error of the store, and then the pods in front are created. -/
theorem runs_createLoop_orFail (occ : List Int) (h : node = "" ∨ d.getSpec.template ≠ none)
    {r : Except Stop Unit} {s' : State} :
    ∀ {fuel toCreate i : Nat} {s : State}, toCreate + ahead occ i ≤ fuel →
      (createLoop d node occ fuel toCreate i).Runs serveOrFail s r s' →
      ∃ made rest, freeIndices occ fuel toCreate i = made ++ rest ∧
        s' = s.set .pods ((s .pods).insertAll ((made.map (created d node)).map podEntry)) ∧
        (r = .ok () ∧ rest = [] ∨ r = .error (.err ⟨"create pod", .failed⟩))
  | fuel, 0, i, s, _, hr => by
    rw [createLoop] at hr
    obtain ⟨rfl, rfl⟩ := hr
    exact ⟨[], [], by simp [freeIndices], by simp, .inl ⟨rfl, rfl⟩⟩
  | 0, toCreate + 1, i, s, hf, _ => by omega
  | fuel + 1, toCreate + 1, i, s, hf, hr => by
    rw [createLoop] at hr
    rw [freeIndices]
    by_cases hi : (i : Int) ∈ occ
    · rw [if_pos hi] at hr ⊢
      have := ahead_succ_lt hi
      exact runs_createLoop_orFail occ h (by omega) hr
    · rw [if_neg hi] at hr ⊢
      rw [pin_newPod h] at hr
      rcases runs_put_orFail hr with hr | hr
      · have := ahead_succ_le occ i
        obtain ⟨made, rest, heq, rfl, hend⟩ := runs_createLoop_orFail occ h (by omega) hr
        refine ⟨i :: made, rest, by rw [heq]; rfl, ?_, hend⟩
        simp only [State.set_self, State.set_set]
        rfl
      · obtain ⟨rfl, rfl⟩ := hr
        exact ⟨[], i :: freeIndices occ fuel toCreate (i + 1), rfl, by simp, .inr rfl⟩

end

/-! ### Gap filling -/

/-- **Gap filling ends and never collides.**  When pods are missing, whatever the owned pods are
called, the ordinals of the new ones are the lowest that no owned name is parsed to, as many as pods
are missing.  Every run of the case `have < want` over the store returns, and has put a pod at each
of them.  Over a store that may fail it stops at the first failure, with the pods in front put.  The
new names differ from each other and from the names of the owned pods, and a deployment with another
name generates none of them, at any index. -/
theorem scaleUp_fills_gaps (d : Deployment) (owned : List Pod)
    (hlt : (owned.length : Int) < wanted d) :
    ∃ ordinals : List Nat,
      Lowest (fun i => (i : Int) ∉ occupied d owned) (wanted d - owned.length).toNat ordinals ∧
      (∀ s : State,
        creations d owned s =
          ordinals.map (created d (claimedNode s d.getMetadata.ns d.getTemplate.volumes)) ∧
        (creations d owned s).map (fun p => p.getMetadata.name) = ordinals.map (podName d) ∧
        (scale d owned).Yields serve s ()
          (s.set .pods ((s .pods).insertAll ((creations d owned s).map podEntry)))) ∧
      (∀ node, node = "" ∨ d.getSpec.template ≠ none → ∀ s r s',
        (createLoop d node (occupied d owned)
          ((wanted d - owned.length).toNat + owned.length) (wanted d - owned.length).toNat
          0).Runs serveOrFail s r s' →
        ∃ made rest, ordinals = made ++ rest ∧
          s' = s.set .pods ((s .pods).insertAll ((made.map (created d node)).map podEntry)) ∧
          (r = .ok () ∧ rest = [] ∨ r = .error (.err ⟨"create pod", .failed⟩))) ∧
      (ordinals.map (podName d)).Nodup ∧
      (∀ p ∈ owned, p.getMetadata.name ∉ ordinals.map (podName d)) ∧
      ∀ d' : Deployment, d'.getMetadata.name ≠ d.getMetadata.name →
        ∀ i j : Nat, podName d' j ≠ podName d i := by
  have hfuel : (wanted d - owned.length).toNat + ahead (occupied d owned) 0 ≤
      (wanted d - owned.length).toNat + owned.length :=
    Nat.add_le_add_left (ahead_occupied_le d owned) _
  refine ⟨freeIndices (occupied d owned) ((wanted d - owned.length).toNat + owned.length)
    (wanted d - owned.length).toNat 0, lowest_freeIndices hfuel, fun s => ⟨rfl, ?_, ?_⟩, ?_, ?_,
    ?_, ?_⟩
  · exact map_name_creations ..
  · have hup := yields_scaleUp (s := s) (d := d) owned
    simp only [scale, if_pos hlt]
    exact hup
  · intro node hnode s r s' hr
    exact runs_createLoop_orFail _ hnode hfuel hr
  · exact List.Nodup.map (fun i j h => (podName_inj h).2) (nodup_freeIndices ..)
  · intro p hp hmem
    obtain ⟨i, hi, hname⟩ := List.mem_map.mp hmem
    obtain ⟨hfree, -, hbound⟩ := freeIndices_notMem hi
    have := wanted_lt d
    exact podName_ne_of_mem (by omega) hfree hp hname.symm
  · intro d' hne i j h
    exact hne (podName_inj h).1

/-- A deployment of five replicas. -/
def gappyWeb : Deployment :=
  { metadata := some { name := "web", ns := "default" }
    spec := some { replicas := 5, template := some {} } }

/-- Pods of `gappyWeb`: a canonical name, one with zeros in front, one without the prefix. -/
def gappyPods : List Pod :=
  ["web-1", "web-003", "0"].map fun name => { metadata := some { name := name, ns := "default" } }

theorem scaleUp_fills_gaps_web :
    (gappyPods.length : Int) < wanted gappyWeb ∧ occupied gappyWeb gappyPods = [1, 3, 0] ∧
      ∃ ordinals,
        Lowest (fun i => (i : Int) ∉ occupied gappyWeb gappyPods)
          (wanted gappyWeb - gappyPods.length).toNat ordinals ∧
        (ordinals.map (podName gappyWeb)).Nodup := by
  refine ⟨by decide, by decide +kernel, ?_⟩
  obtain ⟨ordinals, hlow, -, -, hnodup, -⟩ := scaleUp_fills_gaps gappyWeb gappyPods (by decide)
  exact ⟨ordinals, hlow, hnodup⟩

end NimbusCore.Controller
