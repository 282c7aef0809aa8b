import Mathlib
import NimbusCore.Api.Messages

/-!
# Netpolicy — the decision

`internal/netpolicy/engine.go`.  `allowed` goes through the policies that select the destination and
their ingress rules, and lets a flow in at the first rule that is open on its port and for its
source.  `Admits` is what the policies say: selectors are contained in the labels (`Contained`), and
a protocol is compared without regard to ASCII case.

A policy, a rule of it that is open on a port and one of the rule's peers are a way in, which comes
to two selectors (`ways`): one for the destination and one for the source.  In these terms both
sides are one search, and the code goes another way at two points:

* `labels[k] != v` reads a missing label as an empty one, so a selector entry with an empty value
  also selects pods without the label;
* `strings.EqualFold` folds by Unicode, where the long s is an s and the Kelvin sign is a k.

The code admits all that the policies admit (`allowed_of_admits`).  It decides as they do, for all
pods, exactly if beside each of its ways there is one that asks for no more than the non-empty
values of the first (`Covered`, `allowed_decides_iff`).
-/

namespace NimbusCore.Netpolicy

open Api List

/-! ### The code -/

/-- `unicode.SimpleFold`: characters that differ in case have one representative.  Of the tables
only their ASCII part is known: a letter goes with its lower case, and ASCII characters that go
together do so by case. -/
structure Folding where
  fold : Char → Char
  fold_toLower : ∀ c, fold c.toLower = fold c
  ascii : ∀ a b : Char, a.toNat < 128 → b.toNat < 128 → fold a = fold b → a.toLower = b.toLower

/-- `strings.EqualFold`. -/
def Folding.equalFold (F : Folding) (s t : String) : Bool :=
  decide (s.toList.map F.fold = t.toList.map F.fold)

/-- `selectorMatches`. -/
def selectorMatches (selector labels : Dict String String) : Bool :=
  decide (∀ k v, selector.lookup k = some v → labels.getD k "" = v)

/-- The body of the loop of `portAllowed`. -/
def portMatches (F : Folding) (p : NetworkPolicyPort) (protocol : String) (port : Int32) : Bool :=
  if p.port ≠ 0 ∧ p.port ≠ port then false
  else if p.protocol ≠ "" ∧ F.equalFold p.protocol protocol = false then false
  else true

/-- `portAllowed`. -/
def portAllowed (F : Folding) (ports : List NetworkPolicyPort) (protocol : String) (port : Int32) :
    Bool :=
  if ports.length = 0 then true else ports.any fun p => portMatches F p protocol port

/-- `peerAllowed`. -/
def peerAllowed (peers : List NetworkPolicyPeer) (sourceLabels : Dict String String) : Bool :=
  if peers.length = 0 then true
  else peers.any fun peer => selectorMatches peer.podSelector sourceLabels

/-- `Allowed`. -/
def allowed (F : Folding) (policies : List NetworkPolicy)
    (sourceLabels destLabels : Dict String String)
    (protocol : String) (port : Int32) : Bool :=
  policies.any fun p =>
    selectorMatches p.getSpec.podSelector destLabels && p.getSpec.ingress.any fun ingress =>
      portAllowed F ingress.ports protocol port && peerAllowed ingress.sources sourceLabels

/-! ### What the policies say -/

/-- Every key of the first map is in the second, with the same value. -/
def Contained (selector labels : Dict String String) : Prop :=
  ∀ k v, selector.lookup k = some v → labels.lookup k = some v

instance (selector labels : Dict String String) : Decidable (Contained selector labels) :=
  inferInstanceAs (Decidable (∀ k v, selector.lookup k = some v → labels.lookup k = some v))

/-- The same text, but for the case of ASCII letters. -/
def SameButCase (s t : String) : Prop := s.toList.map Char.toLower = t.toList.map Char.toLower

instance (s t : String) : Decidable (SameButCase s t) := inferInstanceAs (Decidable (_ = _))

/-- A port list is open on a port: it is empty, or has an entry for it. -/
def OnPort (ports : List NetworkPolicyPort) (protocol : String) (port : Int32) : Prop :=
  ports = [] ∨ ∃ q ∈ ports, (q.port = 0 ∨ q.port = port) ∧
    (q.protocol = "" ∨ SameButCase q.protocol protocol)

instance (ports : List NetworkPolicyPort) (protocol : String) (port : Int32) :
    Decidable (OnPort ports protocol port) :=
  inferInstanceAs (Decidable (_ ∨ _))

/-- A peer list is open for a source: it is empty, or has a peer that selects it. -/
def FromPeer (peers : List NetworkPolicyPeer) (sourceLabels : Dict String String) : Prop :=
  peers = [] ∨ ∃ peer ∈ peers, Contained peer.podSelector sourceLabels

instance (peers : List NetworkPolicyPeer) (sourceLabels : Dict String String) :
    Decidable (FromPeer peers sourceLabels) :=
  inferInstanceAs (Decidable (_ ∨ _))

/-- Some policy selects the destination and has a rule for the port and the source. -/
def Admits (policies : List NetworkPolicy) (sourceLabels destLabels : Dict String String)
    (protocol : String) (port : Int32) : Prop :=
  ∃ p ∈ policies, Contained p.getSpec.podSelector destLabels ∧ ∃ ingress ∈ p.getSpec.ingress,
    OnPort ingress.ports protocol port ∧ FromPeer ingress.sources sourceLabels

instance (policies : List NetworkPolicy) (sourceLabels destLabels : Dict String String)
    (protocol : String) (port : Int32) :
    Decidable (Admits policies sourceLabels destLabels protocol port) :=
  inferInstanceAs (Decidable (∃ p ∈ policies, _))

/-! ### Ways in -/

/-- The selectors of a peer list.  No peer is any peer: the selector that asks for nothing. -/
def sourceSelectors (peers : List NetworkPolicyPeer) : List (Dict String String) :=
  if peers = [] then [∅] else peers.map fun peer => peer.podSelector

/-- The ways in through the port lists that are open, as selectors of destination and source. -/
def ways (isOpen : List NetworkPolicyPort → Bool) (policies : List NetworkPolicy) :
    List (Dict String String × Dict String String) :=
  policies.flatMap fun p => (p.getSpec.ingress.filter fun r => isOpen r.ports).flatMap fun r =>
    (sourceSelectors r.sources).map fun sel => (p.getSpec.podSelector, sel)

variable {policies : List NetworkPolicy} {w : Dict String String × Dict String String}

theorem mem_ways {isOpen : List NetworkPolicyPort → Bool} :
    w ∈ ways isOpen policies ↔ ∃ p ∈ policies, p.getSpec.podSelector = w.1 ∧
      ∃ r ∈ p.getSpec.ingress, isOpen r.ports = true ∧ w.2 ∈ sourceSelectors r.sources := by
  obtain ⟨dest, source⟩ := w
  simp only [ways, mem_flatMap, mem_filter, mem_map, Prod.mk.injEq]
  constructor
  · rintro ⟨p, hp, r, ⟨hr, ho⟩, sel, hsel, rfl, rfl⟩
    exact ⟨p, hp, rfl, r, hr, ho, hsel⟩
  · rintro ⟨p, hp, rfl, r, hr, ho, hsel⟩
    exact ⟨p, hp, r, ⟨hr, ho⟩, source, hsel, rfl, rfl⟩

variable {selector labels : Dict String String} {peers : List NetworkPolicyPeer}

section Ways

variable {F : Folding} {policies : List NetworkPolicy} {src dst : Dict String String}
  {protocol : String} {port : Int32}

theorem selectorMatches_iff :
    selectorMatches selector labels = true ↔
      ∀ k v, selector.lookup k = some v → labels.getD k "" = v := by
  rw [selectorMatches, decide_eq_true_iff]

theorem contained_empty (labels : Dict String String) : Contained ∅ labels :=
  fun k v h => by simp at h

theorem selectorMatches_of_contained
    (h : Contained selector labels) : selectorMatches selector labels = true :=
  selectorMatches_iff.mpr fun k v hk => by rw [Finmap.getD, h k v hk]; rfl

theorem peerAllowed_iff :
    peerAllowed peers src = true ↔
      ∃ sel ∈ sourceSelectors peers, selectorMatches sel src = true := by
  cases peers with
  | nil => simpa [peerAllowed, sourceSelectors] using
      selectorMatches_of_contained (contained_empty src)
  | cons peer peers => simp [peerAllowed, sourceSelectors]

theorem fromPeer_iff : FromPeer peers src ↔ ∃ sel ∈ sourceSelectors peers, Contained sel src := by
  cases peers with
  | nil => simpa [FromPeer, sourceSelectors] using contained_empty src
  | cons peer peers => simp [FromPeer, sourceSelectors]

/-- The ways the code lets a flow take. -/
abbrev codeWays (F : Folding) (policies : List NetworkPolicy) (protocol : String) (port : Int32) :
    List (Dict String String × Dict String String) :=
  ways (fun ports => portAllowed F ports protocol port) policies

/-- The ways the policies open. -/
abbrev openWays (policies : List NetworkPolicy) (protocol : String) (port : Int32) :
    List (Dict String String × Dict String String) :=
  ways (fun ports => decide (OnPort ports protocol port)) policies

/-- **The code searches its ways.** -/
theorem allowed_iff :
    allowed F policies src dst protocol port = true ↔ ∃ w ∈ codeWays F policies protocol port,
      selectorMatches w.1 dst = true ∧ selectorMatches w.2 src = true := by
  simp only [allowed, any_eq_true, Bool.and_eq_true, peerAllowed_iff, mem_ways]
  constructor
  · rintro ⟨p, hp, hdst, r, hr, ho, sel, hsel, hsrc⟩
    exact ⟨(p.getSpec.podSelector, sel), ⟨p, hp, rfl, r, hr, ho, hsel⟩, hdst, hsrc⟩
  · rintro ⟨w, ⟨p, hp, hw, r, hr, ho, hsel⟩, hdst, hsrc⟩
    exact ⟨p, hp, hw ▸ hdst, r, hr, ho, w.2, hsel, hsrc⟩

/-- **So do the policies.** -/
theorem admits_iff :
    Admits policies src dst protocol port ↔
      ∃ w ∈ openWays policies protocol port, Contained w.1 dst ∧ Contained w.2 src := by
  simp only [Admits, fromPeer_iff, mem_ways, decide_eq_true_eq]
  constructor
  · rintro ⟨p, hp, hdst, r, hr, ho, sel, hsel, hsrc⟩
    exact ⟨(p.getSpec.podSelector, sel), ⟨p, hp, rfl, r, hr, ho, hsel⟩, hdst, hsrc⟩
  · rintro ⟨w, ⟨p, hp, hw, r, hr, ho, hsel⟩, hdst, hsrc⟩
    exact ⟨p, hp, hw ▸ hdst, r, hr, ho, w.2, hsel, hsrc⟩

end Ways

/-! ### Where the code lets in more -/

variable {s t : String}

theorem equalFold_of_sameButCase (F : Folding) (h : SameButCase s t) : F.equalFold s t = true := by
  have hfold : ∀ l : List Char, l.map F.fold = (l.map Char.toLower).map F.fold := fun l => by
    simp [F.fold_toLower]
  rw [Folding.equalFold, decide_eq_true_iff, hfold, hfold t.toList, h]

variable {F : Folding} {protocol : String} {port : Int32}

theorem portMatches_iff {q : NetworkPolicyPort} :
    portMatches F q protocol port = true ↔ (q.port = 0 ∨ q.port = port) ∧
      (q.protocol = "" ∨ F.equalFold q.protocol protocol = true) := by
  simp only [portMatches]
  split_ifs with hport hproto
  · simp [hport]
  · simp [hproto]
  · exact iff_of_true rfl ⟨by tauto, by simpa [or_iff_not_imp_left] using hproto⟩

variable {ports : List NetworkPolicyPort}

/-- A port list that is open is open to the code. -/
theorem portAllowed_of_onPort (F : Folding) (h : OnPort ports protocol port) :
    portAllowed F ports protocol port = true := by
  rcases h with rfl | ⟨q, hq, hport, hproto⟩
  · rfl
  · have hmatch := portMatches_iff.mpr ⟨hport, hproto.imp_right (equalFold_of_sameButCase F)⟩
    have hne : ports.length ≠ 0 := (length_pos_of_mem hq).ne'
    rw [portAllowed, if_neg hne]
    exact any_eq_true.mpr ⟨q, hq, hmatch⟩

/-- A way the policies open is one of the code's. -/
theorem codeWays_of_openWays (F : Folding)
    (h : w ∈ openWays policies protocol port) : w ∈ codeWays F policies protocol port := by
  obtain ⟨p, hp, hw, r, hr, ho, hsel⟩ := mem_ways.mp h
  exact mem_ways.mpr ⟨p, hp, hw, r, hr, portAllowed_of_onPort F (of_decide_eq_true ho), hsel⟩

variable {src dst : Dict String String}

/-- **The code admits what the policies admit.** -/
theorem allowed_of_admits (F : Folding) (h : Admits policies src dst protocol port) :
    allowed F policies src dst protocol port = true := by
  obtain ⟨w, hw, hdst, hsrc⟩ := admits_iff.mp h
  exact allowed_iff.mpr ⟨w, codeWays_of_openWays F hw, selectorMatches_of_contained hdst,
    selectorMatches_of_contained hsrc⟩

/-- The entries of a selector with a value. -/
def valued (selector : Dict String String) : Dict String String :=
  selector.filter fun _ v => v ≠ ""

theorem lookup_valued {k v : String} :
    (valued selector).lookup k = some v ↔ selector.lookup k = some v ∧ v ≠ "" := by
  simp [valued, Finmap.lookup_filter, Option.filter_eq_some_iff]

/-- What the code selects has the labels with a value. -/
theorem contained_valued
    (h : selectorMatches selector labels = true) : Contained (valued selector) labels := by
  intro k v hk
  obtain ⟨hk, hv⟩ := lookup_valued.mp hk
  have hget := selectorMatches_iff.mp h k v hk
  cases hl : labels.lookup k with
  | none =>
    rw [Finmap.getD, hl] at hget
    exact absurd hget.symm hv
  | some w =>
    rw [Finmap.getD, hl] at hget
    exact congrArg some hget

/-- And the code selects a pod that has just these. -/
theorem selectorMatches_valued (selector : Dict String String) :
    selectorMatches selector (valued selector) = true := by
  refine selectorMatches_iff.mpr fun k v hk => ?_
  by_cases hv : v = ""
  · have hnone : (valued selector).lookup k = none := by
      rw [valued, Finmap.lookup_filter, hk, hv]
      rfl
    rw [Finmap.getD, hnone, hv]
    rfl
  · rw [Finmap.getD, lookup_valued.mpr ⟨hk, hv⟩]
    rfl

theorem Contained.trans {m₁ m₂ m₃ : Dict String String} (h : Contained m₁ m₂)
    (h' : Contained m₂ m₃) : Contained m₁ m₃ :=
  fun k v hk => h' k v (h k v hk)

/-- Beside each way of the code, the policies open one that asks for no more than its entries with a
value. -/
def Covered (F : Folding) (policies : List NetworkPolicy) (protocol : String) (port : Int32) :
    Prop :=
  ∀ w ∈ codeWays F policies protocol port, ∃ w' ∈ openWays policies protocol port,
    Contained w'.1 (valued w.1) ∧ Contained w'.2 (valued w.2)

instance (F : Folding) (policies : List NetworkPolicy) (protocol : String) (port : Int32) :
    Decidable (Covered F policies protocol port) :=
  inferInstanceAs (Decidable (∀ w ∈ _, _))

theorem admits_of_covered (hc : Covered F policies protocol port)
    (h : allowed F policies src dst protocol port = true) :
    Admits policies src dst protocol port := by
  obtain ⟨w, hw, hdst, hsrc⟩ := allowed_iff.mp h
  obtain ⟨w', hw', hdst', hsrc'⟩ := hc w hw
  exact admits_iff.mpr ⟨w', hw', hdst'.trans (contained_valued hdst),
    hsrc'.trans (contained_valued hsrc)⟩

/-- The pods that tell: those with just the values a way of the code asks for. -/
theorem covered_of_decides (h : ∀ src dst, allowed F policies src dst protocol port = true →
      Admits policies src dst protocol port) : Covered F policies protocol port := by
  intro w hw
  refine admits_iff.mp (h (valued w.2) (valued w.1) (allowed_iff.mpr ⟨w, hw, ?_, ?_⟩))
  · exact selectorMatches_valued w.1
  · exact selectorMatches_valued w.2

/-! ### More rules and other orders -/

/-- Every way of the first policies is one of the second, however the ports are read. -/
def Widened (policies policies' : List NetworkPolicy) : Prop :=
  ∀ (F : Folding) (protocol : String) (port : Int32),
    codeWays F policies protocol port ⊆ codeWays F policies' protocol port

variable {policies' : List NetworkPolicy} {sel : Dict String String}

theorem Widened.allowed (h : Widened policies policies')
    (ha : allowed F policies src dst protocol port = true) :
    allowed F policies' src dst protocol port = true := by
  obtain ⟨w, hw, hm⟩ := allowed_iff.mp ha
  exact allowed_iff.mpr ⟨w, h F protocol port hw, hm⟩

theorem widened_of_subset (h : policies ⊆ policies') : Widened policies policies' := by
  intro F protocol port w hw
  obtain ⟨p, hp, hw⟩ := mem_ways.mp hw
  exact mem_ways.mpr ⟨p, h hp, hw⟩

/-- The rules are there again, with their ports and peers in some order. -/
def RulesKept (rules rules' : List NetworkPolicyIngressRule) : Prop :=
  ∀ r ∈ rules, ∃ r' ∈ rules', r.ports.Perm r'.ports ∧ r.sources.Perm r'.sources

theorem mem_sourceSelectors_perm {peers' : List NetworkPolicyPeer} (h : peers.Perm peers')
    (hm : sel ∈ sourceSelectors peers) : sel ∈ sourceSelectors peers' := by
  rcases peers with _ | ⟨peer, peers⟩
  · rwa [nil_perm.mp h]
  have hne : peers' ≠ [] := fun he => by simp [he] at h
  rw [sourceSelectors, if_neg hne]
  exact (h.map _).subset hm

/-- A policy with all its rules kept is another as wide. -/
theorem widened_of_rulesKept {ps₁ ps₂ : List NetworkPolicy} {md : Option ObjectMeta}
    {rules rules' : List NetworkPolicyIngressRule} (h : RulesKept rules rules') :
    Widened (ps₁ ++ ⟨md, some ⟨sel, rules⟩⟩ :: ps₂) (ps₁ ++ ⟨md, some ⟨sel, rules'⟩⟩ :: ps₂) := by
  intro F protocol port w hw
  obtain ⟨p, hp, hsel, r, hr, ho, hsrc⟩ := mem_ways.mp hw
  rcases mem_append.mp hp with hp | hp
  · exact mem_ways.mpr ⟨p, mem_append_left _ hp, hsel, r, hr, ho, hsrc⟩
  rcases mem_cons.mp hp with rfl | hp
  · obtain ⟨r', hr', hports, hpeers⟩ := h r hr
    exact mem_ways.mpr ⟨⟨md, some ⟨sel, rules'⟩⟩, mem_append_right _ mem_cons_self, hsel,
      r', hr', by rwa [portAllowed, hports.length_eq, hports.any_eq] at ho,
        mem_sourceSelectors_perm hpeers hsrc⟩
  · exact mem_ways.mpr ⟨p, mem_append_right _ (mem_cons_of_mem _ hp), hsel, r, hr, ho,
      hsrc⟩

/-- A policy, or a rule of a policy, is added somewhere. -/
inductive Added : List NetworkPolicy → List NetworkPolicy → Prop
  | policy (ps₁ ps₂ : List NetworkPolicy) (p : NetworkPolicy) : Added (ps₁ ++ ps₂) (ps₁ ++ p :: ps₂)
  | rule (ps₁ ps₂ : List NetworkPolicy) (md : Option ObjectMeta) (sel : Dict String String)
      (rs₁ rs₂ : List NetworkPolicyIngressRule) (r : NetworkPolicyIngressRule) :
      Added (ps₁ ++ ⟨md, some ⟨sel, rs₁ ++ rs₂⟩⟩ :: ps₂)
        (ps₁ ++ ⟨md, some ⟨sel, rs₁ ++ r :: rs₂⟩⟩ :: ps₂)

/-- The policies, the rules of a policy, or the ports and peers of a rule are put in another
order. -/
inductive Reordered : List NetworkPolicy → List NetworkPolicy → Prop
  | policies {ps ps' : List NetworkPolicy} (h : ps.Perm ps') : Reordered ps ps'
  | rules (ps₁ ps₂ : List NetworkPolicy) (md : Option ObjectMeta) (sel : Dict String String)
      {rs rs' : List NetworkPolicyIngressRule} (h : rs.Perm rs') :
      Reordered (ps₁ ++ ⟨md, some ⟨sel, rs⟩⟩ :: ps₂) (ps₁ ++ ⟨md, some ⟨sel, rs'⟩⟩ :: ps₂)
  | within (ps₁ ps₂ : List NetworkPolicy) (md : Option ObjectMeta) (sel : Dict String String)
      (rs₁ rs₂ : List NetworkPolicyIngressRule) {ports ports' : List NetworkPolicyPort}
      {peers peers' : List NetworkPolicyPeer} (hports : ports.Perm ports')
      (hpeers : peers.Perm peers') :
      Reordered (ps₁ ++ ⟨md, some ⟨sel, rs₁ ++ ⟨peers, ports⟩ :: rs₂⟩⟩ :: ps₂)
        (ps₁ ++ ⟨md, some ⟨sel, rs₁ ++ ⟨peers', ports'⟩ :: rs₂⟩⟩ :: ps₂)

theorem rulesKept_of_subset {rs rs' : List NetworkPolicyIngressRule} (h : rs ⊆ rs') :
    RulesKept rs rs' :=
  fun r hr => ⟨r, h hr, .refl _, .refl _⟩

variable {ps ps' : List NetworkPolicy}

theorem Added.widened (h : Added ps ps') : Widened ps ps' := by
  cases h with
  | policy ps₁ ps₂ p =>
    exact widened_of_subset ((sublist_cons_self p ps₂).append_left ps₁).subset
  | rule ps₁ ps₂ md sel rs₁ rs₂ r =>
    exact widened_of_rulesKept
      (rulesKept_of_subset ((sublist_cons_self r rs₂).append_left rs₁).subset)

theorem Reordered.symm (h : Reordered ps ps') : Reordered ps' ps := by
  cases h with
  | policies h => exact .policies h.symm
  | rules ps₁ ps₂ md sel h => exact .rules ps₁ ps₂ md sel h.symm
  | within ps₁ ps₂ md sel rs₁ rs₂ hports hpeers =>
    exact .within ps₁ ps₂ md sel rs₁ rs₂ hports.symm hpeers.symm

theorem Reordered.widened (h : Reordered ps ps') : Widened ps ps' := by
  cases h with
  | policies h => exact widened_of_subset h.subset
  | rules ps₁ ps₂ md sel h => exact widened_of_rulesKept (rulesKept_of_subset h.subset)
  | within ps₁ ps₂ md sel rs₁ rs₂ hports hpeers =>
    refine widened_of_rulesKept fun r hr => ?_
    rcases mem_append.mp hr with hr | hr
    · exact ⟨r, mem_append_left _ hr, .refl _, .refl _⟩
    rcases mem_cons.mp hr with rfl | hr
    · exact ⟨_, mem_append_right _ mem_cons_self, hports, hpeers⟩
    · exact ⟨r, mem_append_right _ (mem_cons_of_mem _ hr), .refl _, .refl _⟩

/-! ### The decision -/

/-- **When the code decides as the policies say.**  For a protocol and a port, the code admits just
what the policies admit, from every source to every destination, if and only if the policies are
`Covered`.  In any case the decision does not depend on the order of policies, rules, ports and
peers, and a policy or rule more closes nothing. -/
theorem allowed_decides_iff (F : Folding) (policies : List NetworkPolicy) (protocol : String)
    (port : Int32) :
    ((∀ src dst, allowed F policies src dst protocol port = true ↔
        Admits policies src dst protocol port) ↔ Covered F policies protocol port) ∧
      (∀ policies', Reordered policies policies' → ∀ src dst,
        allowed F policies src dst protocol port = allowed F policies' src dst protocol port) ∧
      ∀ policies', Added policies policies' → ∀ src dst,
        allowed F policies src dst protocol port = true →
          allowed F policies' src dst protocol port = true := by
  refine ⟨⟨fun h => ?_, fun h src dst => ?_⟩, fun policies' h src dst => ?_, ?_⟩
  · exact covered_of_decides fun src dst => (h src dst).mp
  · exact ⟨admits_of_covered h, allowed_of_admits F⟩
  · exact Bool.eq_iff_iff.mpr ⟨h.widened.allowed, h.symm.widened.allowed⟩
  · exact fun policies' h src dst => h.widened.allowed

theorem toLower_eq_longS_iff (c : Char) : c.toLower = 'ſ' ↔ c = 'ſ' := by
  by_cases hupper : c.isUpper
  · refine iff_of_false (fun h => ?_) ?_
    · -- the lower case of a letter is a letter
      have halpha := Char.isAlpha_toLower_eq_isAlpha c
      rw [h, Char.isAlpha, Char.isAlpha, hupper, Bool.true_or] at halpha
      exact absurd halpha (by decide)
    · rintro rfl
      exact absurd hupper (by decide)
  · rw [Char.toLower_eq_of_not_isUpper hupper]

/-- The part of the tables that goes with ASCII case and the long s. -/
def longS : Folding where
  fold c := if c = 'ſ' then 's' else c.toLower
  fold_toLower c := by
    simp only [toLower_eq_longS_iff]
    split
    · rfl
    · exact Char.toLower_toLower_eq_toLower c
  ascii a b ha hb h := by
    have hne : ∀ c : Char, c.toNat < 128 → c ≠ 'ſ' := by
      rintro c hc rfl
      exact absurd hc (by decide)
    rwa [if_neg (hne a ha), if_neg (hne b hb)] at h

/-- A policy for pods whose label `env` is empty. -/
def emptyEnv : NetworkPolicy :=
  { spec := some { podSelector := (∅ : Dict String String).insert "env" "", ingress := [{}] } }

/-- A policy that is open for one protocol. -/
def sctpOnly : NetworkPolicy :=
  { spec := some { ingress := [{ ports := [{ protocol := "sctp" }] }] } }

/-- A pod without the label is let in on as one with an empty label, and so is a protocol written
with a long s. -/
theorem allowed_beyond_policies :
    (allowed longS [emptyEnv] ∅ ∅ "tcp" 80 = true ∧ ¬ Admits [emptyEnv] ∅ ∅ "tcp" 80) ∧
      allowed longS [sctpOnly] ∅ ∅ "ſctp" 80 = true ∧ ¬ Admits [sctpOnly] ∅ ∅ "ſctp" 80 := by
  decide +kernel

end NimbusCore.Netpolicy
