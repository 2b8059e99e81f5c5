import PicX.Realm.Presentation

/-!
# Which disclosures, not in which order

The loop over the disclosures carries the claims merged so far and the digests used so far, and
refuses a disclosure by what came before it. What it accepts is nevertheless a condition on the set
of disclosures alone: `Mergeable` does not mention an order, and is inherited by every sublist.

* `processDisclosures_ok` — the loop accepts exactly the mergeable lists, into `entries`.
* `disclosure_order_free` — permutations and sublists of an accepted list.
-/

namespace PicX.Realm

open PicX

variable (c : Crates)

/-- The claim a disclosure opens to, when it may be disclosed. -/
def openedClaim (disclosure : String) : Option (String × Value) :=
  (disclosedClaim c disclosure).toOption

/-- The claims of a list of disclosures. -/
def entries (disclosures : List String) : List (String × Value) :=
  disclosures.filterMap (openedClaim c)

/-- A list of disclosures that a payload commits to, whose claims get in the way of none. -/
structure Mergeable (payload : Value) (disclosures : List String) : Prop where
  committed : ∀ d ∈ disclosures, digestOf c d ∈ committed payload
  once : (disclosures.map (digestOf c)).Nodup
  opens : ∀ d ∈ disclosures, ∃ claim, openedClaim c d = some claim ∧ claim.1 ∉ signedClaims payload
  distinct : ((entries c disclosures).map Prod.fst).Nodup

variable {c} {payload : Value} {disclosures disclosures' : List String} {claims : Map Value}
  {opened : List (String × Value)}

theorem openedClaim_eq_some {d : String} {claim : String × Value} :
    openedClaim c d = some claim ↔ Opens c d claim ∧ ¬Reserved claim.1 := by
  rw [openedClaim, toOption_eq_some, disclosedClaim_ok]

/-- Disclosures that open one by one open to their entries. -/
theorem entries_of_forall₂ (h : List.Forall₂ (Opens c) disclosures opened)
    (hnames : ∀ p ∈ opened, ¬Reserved p.1) : entries c disclosures = opened := by
  induction h with
  | nil => rfl
  | @cons d claim rest opened' hopens _ ih =>
    have hclaim : openedClaim c d = some claim :=
      openedClaim_eq_some.mpr ⟨hopens, hnames claim List.mem_cons_self⟩
    rw [entries, List.filterMap_cons, hclaim]
    exact congrArg (claim :: ·) (ih fun p hp => hnames p (List.mem_cons_of_mem _ hp))

theorem exists_opened (h : List.Forall₂ (Opens c) disclosures opened) {d : String}
    (hd : d ∈ disclosures) : ∃ claim ∈ opened, Opens c d claim := by
  induction h with
  | nil => cases hd
  | @cons _ claim _ _ hopens _ ih =>
    rcases List.mem_cons.mp hd with rfl | hd
    · exact ⟨claim, List.mem_cons_self, hopens⟩
    · obtain ⟨claim', hclaim', hopens'⟩ := ih hd
      exact ⟨claim', List.mem_cons_of_mem _ hclaim', hopens'⟩

theorem forall₂_entries (h : ∀ d ∈ disclosures, ∃ claim, openedClaim c d = some claim) :
    List.Forall₂ (Opens c) disclosures (entries c disclosures) := by
  induction disclosures with
  | nil => exact .nil
  | cons d rest ih =>
    obtain ⟨claim, hclaim⟩ := h d List.mem_cons_self
    rw [entries, List.filterMap_cons, hclaim]
    exact .cons (openedClaim_eq_some.mp hclaim).1
      (ih fun d' hd' => h d' (List.mem_cons_of_mem _ hd'))

theorem mem_entries {claim : String × Value} :
    claim ∈ entries c disclosures ↔ ∃ d ∈ disclosures, openedClaim c d = some claim :=
  List.mem_filterMap

/-- **What the loop accepts**, without the loop. -/
theorem processDisclosures_ok :
    processDisclosures c payload disclosures = .ok claims ↔
      Mergeable c payload disclosures ∧
        claims = insertAll (signedClaims payload) (entries c disclosures) := by
  rw [processDisclosures, mergeDisclosures_ok]
  constructor
  · intro ⟨hcommitted, honce, opened, hopened, hnames, hdistinct, hclaims⟩
    obtain rfl : entries c disclosures = opened :=
      entries_of_forall₂ hopened fun p hp => (hnames p hp).1
    refine ⟨⟨fun d hd => (hcommitted d hd).1, honce, fun d hd => ?_, hdistinct⟩, hclaims⟩
    obtain ⟨claim, hclaim, hopens⟩ := exists_opened hopened hd
    exact ⟨claim, openedClaim_eq_some.mpr ⟨hopens, (hnames claim hclaim).1⟩,
      (hnames claim hclaim).2⟩
  · intro ⟨h, hclaims⟩
    refine ⟨fun d hd => ⟨h.committed d hd, by simp⟩, h.once, entries c disclosures,
      forall₂_entries fun d hd => (h.opens d hd).imp fun _ hclaim => hclaim.1, ?_, h.distinct,
        hclaims⟩
    intro p hp
    obtain ⟨d, hd, hopened⟩ := mem_entries.mp hp
    obtain ⟨claim, hclaim, hfresh⟩ := h.opens d hd
    obtain rfl : claim = p := Option.some.inj (hclaim.symm.trans hopened)
    exact ⟨(openedClaim_eq_some.mp hclaim).2, hfresh⟩

/-! ## Other lists -/

namespace Mergeable

theorem perm (h : Mergeable c payload disclosures) (hperm : disclosures'.Perm disclosures) :
    Mergeable c payload disclosures' where
  committed d hd := h.committed d (hperm.mem_iff.mp hd)
  once := (hperm.map _).nodup_iff.mpr h.once
  opens d hd := h.opens d (hperm.mem_iff.mp hd)
  distinct := ((hperm.filterMap _).map _).nodup_iff.mpr h.distinct

theorem sublist (h : Mergeable c payload disclosures) (hsub : disclosures'.Sublist disclosures) :
    Mergeable c payload disclosures' where
  committed d hd := h.committed d (hsub.subset hd)
  once := h.once.sublist (hsub.map _)
  opens d hd := h.opens d (hsub.subset hd)
  distinct := h.distinct.sublist ((hsub.filterMap _).map _)

/-- The claims of the processed payload, name by name. -/
theorem lookup_iff (h : Mergeable c payload disclosures) {name : String} {value : Value} :
    (insertAll (signedClaims payload) (entries c disclosures)).lookup name = some value ↔
      (signedClaims payload).lookup name = some value ∨ (name, value) ∈ entries c disclosures := by
  refine lookup_insertAll_iff h.distinct fun p hp => ?_
  obtain ⟨d, hd, hopened⟩ := mem_entries.mp hp
  obtain ⟨claim, hclaim, hfresh⟩ := h.opens d hd
  obtain rfl : claim = p := Option.some.inj (hclaim.symm.trans hopened)
  exact hfresh

/-- A name has one disclosure. -/
theorem unique (h : Mergeable c payload disclosures) {d d' : String} {p p' : String × Value}
    (hd : d ∈ disclosures) (hd' : d' ∈ disclosures) (hp : openedClaim c d = some p)
    (hp' : openedClaim c d' = some p') (hname : p.1 = p'.1) : d = d' := by
  have hdistinct := h.distinct
  rw [List.Nodup, List.pairwise_map, entries, List.pairwise_filterMap] at hdistinct
  have hsymm : Std.Symm fun a a' : String => ∀ b, openedClaim c a = some b →
      ∀ b', openedClaim c a' = some b' → b.1 ≠ b'.1 :=
    ⟨fun a a' hab b hb b' hb' heq => hab b' hb' b hb heq.symm⟩
  by_contra hne
  exact hdistinct.forall hd hd' hne p hp p' hp' hname

/-- The claims of the disclosures do not depend on their order. -/
theorem insertAll_perm (h : Mergeable c payload disclosures)
    (hperm : disclosures'.Perm disclosures) :
    insertAll (signedClaims payload) (entries c disclosures') =
      insertAll (signedClaims payload) (entries c disclosures) := by
  apply Finmap.ext_lookup
  intro name
  apply Option.ext
  intro value
  rw [(h.perm hperm).lookup_iff, h.lookup_iff, entries, entries, (hperm.filterMap _).mem_iff]

end Mergeable

variable (c) in
/-- The names that the disclosures left out of a list would have disclosed. -/
def omitted (disclosures kept : List String) : List String :=
  (entries c (disclosures.filter fun d => d ∉ kept)).map Prod.fst

theorem mem_omitted {kept : List String} {name : String} :
    name ∈ omitted c disclosures kept ↔
      ∃ d ∈ disclosures, d ∉ kept ∧ ∃ value, openedClaim c d = some (name, value) := by
  simp only [omitted, List.mem_map, mem_entries, List.mem_filter, decide_eq_true_eq]
  constructor
  · intro ⟨⟨_, value⟩, ⟨d, ⟨hd, hkept⟩, hopened⟩, rfl⟩
    exact ⟨d, hd, hkept, value, hopened⟩
  · intro ⟨d, hd, hkept, value, hopened⟩
    exact ⟨(name, value), ⟨d, ⟨hd, hkept⟩, hopened⟩, rfl⟩

/-- A sublist discloses what the whole list does, less the names of what it leaves out. -/
theorem Mergeable.lookup_sublist (h : Mergeable c payload disclosures) {kept : List String}
    (hsub : kept.Sublist disclosures) (name : String) :
    (insertAll (signedClaims payload) (entries c kept)).lookup name =
      if name ∈ omitted c disclosures kept then none
      else (insertAll (signedClaims payload) (entries c disclosures)).lookup name := by
  split_ifs with homitted
  · obtain ⟨d, hd, hkept, value, hopened⟩ := mem_omitted.mp homitted
    rw [Option.eq_none_iff_forall_ne_some]
    intro value' hlookup
    rcases (h.sublist hsub).lookup_iff.mp hlookup with hsigned | hentry
    · obtain ⟨claim, hclaim, hfresh⟩ := h.opens d hd
      obtain rfl : claim = (name, value) := Option.some.inj (hclaim.symm.trans hopened)
      exact hfresh (Finmap.mem_of_lookup_eq_some hsigned)
    · obtain ⟨d', hd', hopened'⟩ := mem_entries.mp hentry
      exact hkept (h.unique hd (hsub.subset hd') hopened hopened' rfl ▸ hd')
  · apply Option.ext
    intro value
    rw [(h.sublist hsub).lookup_iff, h.lookup_iff]
    refine or_congr_right ⟨fun hentry => (hsub.filterMap _).subset hentry, fun hentry => ?_⟩
    obtain ⟨d, hd, hopened⟩ := mem_entries.mp hentry
    by_cases hkept : d ∈ kept
    · exact mem_entries.mpr ⟨d, hkept, hopened⟩
    · exact absurd (mem_omitted.mpr ⟨d, hd, hkept, value, hopened⟩) homitted

/-- **Selective disclosure is order-free and monotone.** Of an accepted list of disclosures, every
permutation is accepted with the same claims, and every sublist with these claims less those of the
disclosures left out. -/
theorem disclosure_order_free (h : processDisclosures c payload disclosures = .ok claims) :
    (∀ shuffled, shuffled.Perm disclosures →
      processDisclosures c payload shuffled = .ok claims) ∧
    ∀ kept, kept.Sublist disclosures → ∃ claims',
      processDisclosures c payload kept = .ok claims' ∧
      ∀ name, claims'.lookup name =
        if name ∈ omitted c disclosures kept then none else claims.lookup name := by
  obtain ⟨hmergeable, rfl⟩ := processDisclosures_ok.mp h
  constructor
  · intro shuffled hperm
    exact processDisclosures_ok.mpr
      ⟨hmergeable.perm hperm, (hmergeable.insertAll_perm hperm).symm⟩
  · intro kept hsub
    exact ⟨_, processDisclosures_ok.mpr ⟨hmergeable.sublist hsub, rfl⟩,
      fun name => hmergeable.lookup_sublist hsub name⟩

/-- The test credential without its disclosure says nothing about the corporation. -/
theorem disclosure_order_free_credential : ∃ claims',
    processDisclosures testCrates credentialValue [] = .ok claims' ∧
    testClaims.lookup "corporation" = some (.string "ACME") ∧
    claims'.lookup "corporation" = none := by
  obtain ⟨-, hsublists⟩ := disclosure_order_free (testDisclosure_merges testCrates_reads)
  obtain ⟨claims', hclaims', hlookup⟩ := hsublists [] (List.nil_sublist _)
  have hopened : openedClaim testCrates disclosureSegment = some ("corporation", .string "ACME") :=
    openedClaim_eq_some.mpr ⟨testCrates_reads.disclosure, by simp [Reserved]⟩
  refine ⟨claims', hclaims', by simp [testClaims, insertAll], ?_⟩
  rw [hlookup, if_pos]
  exact mem_omitted.mpr ⟨disclosureSegment, List.mem_singleton_self _, List.not_mem_nil, _, hopened⟩

end PicX.Realm
