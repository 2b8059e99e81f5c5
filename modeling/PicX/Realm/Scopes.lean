import PicX.Core.Validate
import PicX.Realm.Applicable

/-!
# The invariants of a set of scopes

A validated profile has rules of distinct priorities and rejects a scope that none of them matches.
What it maps scopes to is then a set: it does not matter in which order the rules and the scopes are
written down, nor how often a scope is.

* `Chosen`: the rule of the highest priority among those that match a scope.
* `matchingRule_iff`: the first match in the sorted rules is that rule.
* `mapInvariants_iff`: what the mapping returns, in these terms.
* `scopes_granted`: **the mapping succeeds exactly when the patterns compile and the chosen rule of
  every scope renders, and returns the sorted set of what they render to**.
-/

namespace PicX.Realm

open PicX

variable (c : Crates)

/-! ## What a scope is granted -/

/-- A rule matches a scope, with what it captures. -/
def Matches (rule : PrivilegeRule) (scope : String) (captures : String → Option String) : Prop :=
  ∃ pattern, c.regexNew rule.pattern = .ok pattern ∧ pattern scope = some captures

/-- The rule of the highest priority among those that match a scope, with what it captures. -/
structure Chosen (rules : List PrivilegeRule) (scope : String) (rule : PrivilegeRule)
    (captures : String → Option String) : Prop where
  mem : rule ∈ rules
  takes : Matches c rule scope captures
  highest : ∀ other ∈ rules, ∀ captures', Matches c other scope captures' →
    other.priority ≤ rule.priority

/-- The four templates of a rule render to an invariant. -/
structure Emits (emit : PrivilegeEmit) (raw : String) (captures : String → Option String)
    (invariant : Invariant) : Prop where
  scope : renderTemplate emit.scope raw captures = .ok invariant.scope
  operation : renderTemplate emit.operation raw captures = .ok invariant.operation
  resourceType : renderTemplate emit.resourceType raw captures = .ok invariant.resourceType
  resourceId : renderTemplate emit.resourceId raw captures = .ok invariant.resourceId

/-- The invariant a scope is granted by the rules. -/
def Grants (rules : List PrivilegeRule) (scope : String) (invariant : Invariant) : Prop :=
  ∃ rule captures, Chosen c rules scope rule captures ∧ Emits rule.emit scope captures invariant

/-- The sorted set of the invariants that some scopes are granted. -/
structure GrantedSet (rules : List PrivilegeRule) (scopes : List String)
    (invariants : List Invariant) : Prop where
  sorted : invariants.Pairwise c.invariantOrder.lt
  mem_iff : ∀ invariant, invariant ∈ invariants ↔ ∃ scope ∈ scopes, Grants c rules scope invariant

variable {c} {profile : ExchangeProfileConfig} {rules : List PrivilegeRule} {scope : String}
  {rule : PrivilegeRule} {captures : String → Option String}

/-! ## The chosen rule -/

theorem Matches.unique {captures' : String → Option String} (h : Matches c rule scope captures)
    (h' : Matches c rule scope captures') : captures = captures' := by
  obtain ⟨pattern, hregex, hmatch⟩ := h
  obtain ⟨pattern', hregex', hmatch'⟩ := h'
  cases hregex.symm.trans hregex'
  exact Option.some.inj (hmatch.symm.trans hmatch')

/-- Rules of distinct priorities leave one choice. -/
theorem Chosen.unique (hnodup : (rules.map (·.priority)).Nodup) {rule' : PrivilegeRule}
    {captures' : String → Option String} (h : Chosen c rules scope rule captures)
    (h' : Chosen c rules scope rule' captures') : rule = rule' ∧ captures = captures' := by
  have hpriority : rule.priority = rule'.priority :=
    le_antisymm (h'.highest rule h.mem captures h.takes) (h.highest rule' h'.mem captures' h'.takes)
  obtain rfl := List.inj_on_of_nodup_map hnodup h.mem h'.mem hpriority
  exact ⟨rfl, h.takes.unique h'.takes⟩

theorem Chosen.perm {rules' : List PrivilegeRule} (hperm : rules.Perm rules')
    (h : Chosen c rules scope rule captures) : Chosen c rules' scope rule captures :=
  ⟨hperm.mem_iff.mp h.mem, h.takes, fun other hother => h.highest other (hperm.mem_iff.mpr hother)⟩

theorem grants_perm {rules' : List PrivilegeRule} (hperm : rules.Perm rules')
    {invariant : Invariant} :
    Grants c rules scope invariant ↔ Grants c rules' scope invariant := by
  constructor
  · intro ⟨rule, captures, hchosen, hemits⟩
    exact ⟨rule, captures, hchosen.perm hperm, hemits⟩
  · intro ⟨rule, captures, hchosen, hemits⟩
    exact ⟨rule, captures, hchosen.perm hperm.symm, hemits⟩

theorem renderInvariant_iff {emit : PrivilegeEmit} {invariant : Invariant} :
    renderInvariant emit scope captures = .ok invariant ↔ Emits emit scope captures invariant := by
  constructor
  · intro h
    obtain ⟨scope', hscope, h⟩ := bind_ok.mp h
    obtain ⟨operation, hoperation, h⟩ := bind_ok.mp h
    obtain ⟨resourceType, htype, h⟩ := bind_ok.mp h
    obtain ⟨resourceId, hid, h⟩ := bind_ok.mp h
    obtain rfl := pure_ok.mp h
    exact ⟨hscope, hoperation, htype, hid⟩
  · intro h
    refine bind_ok.mpr
      ⟨_, h.scope, bind_ok.mpr ⟨_, h.operation, bind_ok.mpr ⟨_, h.resourceType, ?_⟩⟩⟩
    exact bind_ok.mpr ⟨_, h.resourceId, rfl⟩

/-! ## The rules as they are tried -/

theorem compileRules_rules {compiled : List CompiledRule}
    (h : compileRules c profile rules = .ok compiled) : compiled.map (·.rule) = rules := by
  induction rules generalizing compiled with
  | nil =>
    obtain rfl := pure_ok.mp h
    rfl
  | cons rule rest ih =>
    obtain ⟨captures, -, h⟩ := bind_ok.mp h
    obtain ⟨compiled', hrest, h⟩ := bind_ok.mp h
    obtain rfl := pure_ok.mp h
    rw [List.map_cons, ih hrest]

/-- The rules of a profile, the highest priority first. -/
def tried (compiled : List CompiledRule) : List CompiledRule :=
  compiled.insertionSort fun a b => b.rule.priority ≤ a.rule.priority

theorem tried_pairwise (compiled : List CompiledRule) :
    (tried compiled).Pairwise fun a b => b.rule.priority ≤ a.rule.priority := by
  have : Std.Total fun a b : CompiledRule => b.rule.priority ≤ a.rule.priority :=
    ⟨fun a b => le_total b.rule.priority a.rule.priority⟩
  have : IsTrans CompiledRule fun a b => b.rule.priority ≤ a.rule.priority :=
    ⟨fun a b d hab hbd => le_trans hbd hab⟩
  exact List.pairwise_insertionSort _ compiled

theorem compiled_matches {compiled : List CompiledRule}
    (h : compileRules c profile rules = .ok compiled) {r : CompiledRule} (hr : r ∈ compiled) :
    r.captures scope = some captures ↔ Matches c r.rule scope captures := by
  have hregex := (compileRules_ok h r hr).2
  constructor
  · intro hmatch
    exact ⟨r.captures, hregex, hmatch⟩
  · intro ⟨pattern, hpattern, hmatch⟩
    cases hregex.symm.trans hpattern
    exact hmatch

/-- The first rule that matches is the one of the highest priority. -/
theorem matchingRule_iff (hnodup : (rules.map (·.priority)).Nodup) {compiled : List CompiledRule}
    (h : compileRules c profile rules = .ok compiled) :
    matchingRule (tried compiled) scope = some (rule, captures) ↔
      Chosen c rules scope rule captures := by
  have hmem : ∀ r, r ∈ tried compiled ↔ r ∈ compiled := fun r => List.mem_insertionSort _
  have hchosen : ∀ rule captures, matchingRule (tried compiled) scope = some (rule, captures) →
      Chosen c rules scope rule captures := by
    intro rule captures hmatch
    obtain ⟨before, r, after, hsplit, hfound, hbefore⟩ := List.findSome?_eq_some_iff.mp hmatch
    obtain ⟨found, hcaptures, heq⟩ := Option.map_eq_some_iff.mp hfound
    cases heq
    have hr : r ∈ compiled := by
      rw [← hmem, hsplit]
      exact List.mem_append_right _ List.mem_cons_self
    refine ⟨(compileRules_ok h r hr).1, (compiled_matches h hr).mp hcaptures, ?_⟩
    intro other hother captures' htakes
    rw [← compileRules_rules h] at hother
    obtain ⟨r', hr', rfl⟩ := List.mem_map.mp hother
    have hcaptures' := (compiled_matches h hr').mpr htakes
    -- A rule that matches does not stand before the first that does.
    have hplace : r' ∈ before ++ r :: after := hsplit ▸ (hmem r').mpr hr'
    rcases List.mem_append.mp hplace with hin | hin
    · have hnone := hbefore r' hin
      rw [hcaptures'] at hnone
      cases hnone
    · rcases List.mem_cons.mp hin with rfl | hin
      · exact le_refl _
      · have hsorted := tried_pairwise compiled
        rw [hsplit, List.pairwise_append] at hsorted
        exact (List.pairwise_cons.mp hsorted.2.1).1 r' hin
  refine ⟨hchosen rule captures, ?_⟩
  intro hrule
  -- Some rule matches, so there is a first one, and it is this one.
  cases hmatch : matchingRule (tried compiled) scope with
  | none =>
    have hrule' := hrule.mem
    rw [← compileRules_rules h] at hrule'
    obtain ⟨r, hr, rfl⟩ := List.mem_map.mp hrule'
    have hnone := List.findSome?_eq_none_iff.mp hmatch r ((hmem r).mpr hr)
    rw [(compiled_matches h hr).mpr hrule.takes] at hnone
    cases hnone
  | some found =>
    obtain ⟨rule', captures'⟩ := found
    obtain ⟨rfl, rfl⟩ := hrule.unique hnodup (hchosen rule' captures' hmatch)
    rfl

/-! ## The set -/

variable {scopes : List String} {invariants mapped : List Invariant}

theorem mem_insertInvariant {i j : Invariant} :
    j ∈ insertInvariant c i invariants ↔ j = i ∨ j ∈ invariants := by
  rw [insertInvariant]
  split_ifs with hmem
  · constructor
    · exact Or.inr
    · intro h
      rcases h with rfl | h
      · exact hmem
      · exact h
  · exact List.mem_orderedInsert _

theorem insertInvariant_sorted {i : Invariant} (h : invariants.Pairwise c.invariantOrder.lt) :
    (insertInvariant c i invariants).Pairwise c.invariantOrder.lt := by
  let order := c.invariantOrder
  rw [insertInvariant]
  split_ifs with hmem
  · exact h
  · have hle : (invariants.orderedInsert (· ≤ ·) i).Pairwise (· ≤ ·) :=
      (h.imp fun hlt => le_of_lt hlt).orderedInsert i _
    have hnodup : (invariants.orderedInsert (· ≤ ·) i).Nodup := by
      rw [(List.perm_orderedInsert _ i invariants).nodup_iff, List.nodup_cons]
      exact ⟨hmem, h.imp fun hlt => ne_of_lt hlt⟩
    exact (hle.and hnodup).imp fun hboth => lt_of_le_of_ne hboth.1 hboth.2

theorem eq_of_sorted {l l' : List Invariant} (h : l.Pairwise c.invariantOrder.lt)
    (h' : l'.Pairwise c.invariantOrder.lt) (hmem : ∀ i, i ∈ l ↔ i ∈ l') : l = l' := by
  let order := c.invariantOrder
  have : Std.Irrefl c.invariantOrder.lt := ⟨fun a => lt_irrefl a⟩
  have : Std.Antisymm c.invariantOrder.lt := ⟨fun a b hab hba => absurd hab (lt_asymm hba)⟩
  exact h.eq_of_mem_iff h' hmem

/-! ## The scopes one after the other -/

/-- What the compiled rules grant a scope. -/
def Granted (compiled : List CompiledRule) (scope : String) (invariant : Invariant) : Prop :=
  ∃ rule captures, matchingRule compiled scope = some (rule, captures) ∧
    renderInvariant rule.emit scope captures = .ok invariant

variable {compiled : List CompiledRule}

/-- One scope, in a profile that rejects what no rule matches. -/
theorem mapScopesToInvariants_cons
    (hreject : profile.onUnmatchedScope = EXCHANGE_ON_UNMATCHED_SCOPE_REJECT) :
    mapScopesToInvariants c profile compiled (scope :: scopes) invariants = .ok mapped ↔
      ∃ invariant, Granted compiled scope invariant ∧
        mapScopesToInvariants c profile compiled scopes (insertInvariant c invariant invariants) =
          .ok mapped := by
  rw [mapScopesToInvariants]
  cases hmatch : matchingRule compiled scope with
  | none =>
    constructor
    · intro h
      obtain ⟨_, hensure, -⟩ := bind_ok.mp h
      exact absurd hreject (ensure_ok.mp hensure)
    · intro ⟨invariant, ⟨rule, captures, hsome, _⟩, _⟩
      cases hmatch.symm.trans hsome
  | some found =>
    obtain ⟨rule, captures⟩ := found
    constructor
    · intro h
      obtain ⟨invariant, hrender, h⟩ := bind_ok.mp h
      exact ⟨invariant, ⟨rule, captures, hmatch, hrender⟩, h⟩
    · intro ⟨invariant, ⟨rule', captures', hsome, hrender⟩, h⟩
      cases hmatch.symm.trans hsome
      exact bind_ok.mpr ⟨invariant, hrender, h⟩

theorem Granted.unique {invariant invariant' : Invariant} (h : Granted compiled scope invariant)
    (h' : Granted compiled scope invariant') : invariant = invariant' := by
  obtain ⟨rule, captures, hmatch, hrender⟩ := h
  obtain ⟨rule', captures', hmatch', hrender'⟩ := h'
  cases hmatch.symm.trans hmatch'
  exact Except.ok.inj (hrender.symm.trans hrender')

/-- Scopes that are mapped add to the set what each of them is granted, -/
theorem mapScopesToInvariants_granted
    (hreject : profile.onUnmatchedScope = EXCHANGE_ON_UNMATCHED_SCOPE_REJECT)
    (hsorted : invariants.Pairwise c.invariantOrder.lt)
    (h : mapScopesToInvariants c profile compiled scopes invariants = .ok mapped) :
    (∀ scope ∈ scopes, ∃ invariant, Granted compiled scope invariant) ∧
      mapped.Pairwise c.invariantOrder.lt ∧
      ∀ i, i ∈ mapped ↔ i ∈ invariants ∨ ∃ scope ∈ scopes, Granted compiled scope i := by
  induction scopes generalizing invariants with
  | nil =>
    obtain rfl := pure_ok.mp h
    exact ⟨by simp, hsorted, by simp⟩
  | cons scope rest ih =>
    obtain ⟨invariant, hgranted, h⟩ := (mapScopesToInvariants_cons hreject).mp h
    obtain ⟨hall, hmapped, hmem⟩ := ih (insertInvariant_sorted hsorted) h
    refine ⟨?_, hmapped, ?_⟩
    · intro scope' hscope'
      rcases List.mem_cons.mp hscope' with rfl | hscope'
      · exact ⟨invariant, hgranted⟩
      · exact hall scope' hscope'
    · intro i
      rw [hmem, mem_insertInvariant]
      constructor
      · intro hi
        rcases hi with (rfl | hi) | ⟨scope', hscope', hi⟩
        · exact Or.inr ⟨scope, List.mem_cons_self, hgranted⟩
        · exact Or.inl hi
        · exact Or.inr ⟨scope', List.mem_cons_of_mem _ hscope', hi⟩
      · intro hi
        rcases hi with hi | ⟨scope', hscope', hi⟩
        · exact Or.inl (Or.inr hi)
        · rcases List.mem_cons.mp hscope' with rfl | hscope'
          · exact Or.inl (Or.inl (hi.unique hgranted))
          · exact Or.inr ⟨scope', hscope', hi⟩

/-- and scopes that are all granted something are mapped. -/
theorem mapScopesToInvariants_total
    (hreject : profile.onUnmatchedScope = EXCHANGE_ON_UNMATCHED_SCOPE_REJECT)
    (hall : ∀ scope ∈ scopes, ∃ invariant, Granted compiled scope invariant) :
    ∃ mapped, mapScopesToInvariants c profile compiled scopes invariants = .ok mapped := by
  induction scopes generalizing invariants with
  | nil => exact ⟨invariants, rfl⟩
  | cons scope rest ih =>
    obtain ⟨invariant, hgranted⟩ := hall scope List.mem_cons_self
    obtain ⟨mapped, hmapped⟩ := ih fun scope' hscope' =>
      hall scope' (List.mem_cons_of_mem _ hscope')
    exact ⟨mapped, (mapScopesToInvariants_cons hreject).mpr ⟨invariant, hgranted, hmapped⟩⟩

/-! ## The whole mapping -/

/-- The compiled rules grant what the rules do. -/
theorem granted_iff (hnodup : (rules.map (·.priority)).Nodup)
    (h : compileRules c profile rules = .ok compiled) {invariant : Invariant} :
    Granted (tried compiled) scope invariant ↔ Grants c rules scope invariant := by
  constructor
  · intro ⟨rule, captures, hmatch, hrender⟩
    exact ⟨rule, captures, (matchingRule_iff hnodup h).mp hmatch, renderInvariant_iff.mp hrender⟩
  · intro ⟨rule, captures, hchosen, hemits⟩
    exact ⟨rule, captures, (matchingRule_iff hnodup h).mpr hchosen, renderInvariant_iff.mpr hemits⟩

variable (hnodup : (profile.privileges.rules.map (·.priority)).Nodup)
  (hreject : profile.onUnmatchedScope = EXCHANGE_ON_UNMATCHED_SCOPE_REJECT)

include hnodup hreject

theorem mapInvariants_granted (h : mapInvariants c profile scopes = .ok invariants) :
    Compiles c profile ∧
      (∀ scope ∈ scopes, ∃ invariant, Grants c profile.privileges.rules scope invariant) ∧
      GrantedSet c profile.privileges.rules scopes invariants := by
  obtain ⟨compiled, hcompiled, h⟩ := bind_ok.mp h
  obtain ⟨mapped, hmapped, h⟩ := bind_ok.mp h
  obtain ⟨_, -, h⟩ := bind_ok.mp h
  obtain rfl := pure_ok.mp h
  obtain ⟨hall, hsorted, hmem⟩ := mapScopesToInvariants_granted hreject List.Pairwise.nil hmapped
  refine ⟨compiles_iff.mpr ⟨compiled, hcompiled⟩, ?_, hsorted, ?_⟩
  · intro scope hscope
    obtain ⟨invariant, hgranted⟩ := hall scope hscope
    exact ⟨invariant, (granted_iff hnodup hcompiled).mp hgranted⟩
  · intro invariant
    rw [hmem, or_iff_right List.not_mem_nil]
    refine exists_congr fun scope => and_congr_right fun _ => ?_
    exact granted_iff hnodup hcompiled

theorem mapInvariants_total (hne : scopes ≠ []) (hcompiles : Compiles c profile)
    (hall : ∀ scope ∈ scopes, ∃ invariant, Grants c profile.privileges.rules scope invariant) :
    ∃ invariants, mapInvariants c profile scopes = .ok invariants := by
  obtain ⟨compiled, hcompiled⟩ := compiles_iff.mp hcompiles
  have hgranted : ∀ scope ∈ scopes, ∃ invariant, Granted (tried compiled) scope invariant := by
    intro scope hscope
    obtain ⟨invariant, hgrants⟩ := hall scope hscope
    exact ⟨invariant, (granted_iff hnodup hcompiled).mpr hgrants⟩
  obtain ⟨mapped, hmapped⟩ : ∃ mapped,
      mapScopesToInvariants c profile (tried compiled) scopes [] = .ok mapped :=
    mapScopesToInvariants_total hreject hgranted
  refine ⟨mapped, bind_ok.mpr ⟨compiled, hcompiled, bind_ok.mpr ⟨mapped, hmapped, ?_⟩⟩⟩
  refine bind_ok.mpr ⟨(), ensure_ok.mpr ?_, rfl⟩
  -- The first scope was granted something.
  obtain ⟨scope, hscope⟩ := List.exists_mem_of_ne_nil scopes hne
  obtain ⟨invariant, hinvariant⟩ := hgranted scope hscope
  have hmem := (mapScopesToInvariants_granted hreject List.Pairwise.nil hmapped).2.2 invariant
  exact List.ne_nil_of_mem (hmem.mpr (Or.inr ⟨scope, hscope, hinvariant⟩))

/-- What the mapping returns, said of the set of the scopes and the set of the rules. -/
theorem mapInvariants_iff (hne : scopes ≠ []) :
    mapInvariants c profile scopes = .ok invariants ↔
      Compiles c profile ∧
      (∀ scope ∈ scopes, ∃ invariant, Grants c profile.privileges.rules scope invariant) ∧
      GrantedSet c profile.privileges.rules scopes invariants := by
  refine ⟨mapInvariants_granted hnodup hreject, ?_⟩
  intro ⟨hcompiles, hall, hset⟩
  obtain ⟨invariants', h⟩ := mapInvariants_total hnodup hreject hne hcompiles hall
  obtain ⟨-, -, hset'⟩ := mapInvariants_granted hnodup hreject h
  rw [h, eq_of_sorted hset.sorted hset'.sorted fun i =>
    (hset.mem_iff i).trans (hset'.mem_iff i).symm]

omit hnodup hreject

/-- The same profile with its rules written down otherwise. -/
def ExchangeProfileConfig.withRules (profile : ExchangeProfileConfig)
    (rules : List PrivilegeRule) : ExchangeProfileConfig :=
  { profile with privileges := { profile.privileges with rules } }

/-- **Scopes are mapped to the set of what they are granted.** A profile of an accepted
configuration maps scopes exactly when its patterns compile and, for each scope, some rule matches
and the one of the highest priority renders; the result is the sorted set of what they render to;
and neither the order of the rules, nor that of the scopes, nor a scope that is repeated changes
whether there is a result or which it is. -/
theorem scopes_granted {realm : String} {seen : List String}
    {profiles : List ExchangeProfileConfig} {u : Unit}
    (hvalid : Core.validateExchangeProfiles realm seen profiles = .ok u)
    (hprofile : profile ∈ profiles) (hne : scopes ≠ []) :
    ((∃ invariants, mapInvariants c profile scopes = .ok invariants) ↔
      Compiles c profile ∧ ∀ scope ∈ scopes, ∃ rule captures,
        Chosen c profile.privileges.rules scope rule captures ∧
          ∃ invariant, Emits rule.emit scope captures invariant) ∧
    (∀ invariants, mapInvariants c profile scopes = .ok invariants →
      GrantedSet c profile.privileges.rules scopes invariants) ∧
    ∀ rules scopes', rules.Perm profile.privileges.rules →
      (∀ scope, scope ∈ scopes' ↔ scope ∈ scopes) →
      ∀ invariants, mapInvariants c (profile.withRules rules) scopes' = .ok invariants ↔
        mapInvariants c profile scopes = .ok invariants := by
  obtain ⟨hnodup, hreject⟩ := Core.validateExchangeProfiles_rules hvalid profile hprofile
  have hgrants : (∀ scope ∈ scopes, ∃ rule captures,
      Chosen c profile.privileges.rules scope rule captures ∧
        ∃ invariant, Emits rule.emit scope captures invariant) ↔
      ∀ scope ∈ scopes, ∃ invariant, Grants c profile.privileges.rules scope invariant := by
    refine forall₂_congr fun scope _ => ?_
    constructor
    · intro ⟨rule, captures, hchosen, invariant, hemits⟩
      exact ⟨invariant, rule, captures, hchosen, hemits⟩
    · intro ⟨invariant, rule, captures, hchosen, hemits⟩
      exact ⟨rule, captures, hchosen, invariant, hemits⟩
  refine ⟨?_, fun invariants h => (mapInvariants_granted hnodup hreject h).2.2, ?_⟩
  · rw [hgrants]
    constructor
    · intro ⟨invariants, h⟩
      obtain ⟨hcompiles, hall, -⟩ := mapInvariants_granted hnodup hreject h
      exact ⟨hcompiles, hall⟩
    · intro ⟨hcompiles, hall⟩
      exact mapInvariants_total hnodup hreject hne hcompiles hall
  · intro rules scopes' hperm hscopes invariants
    have hnodup' : (rules.map (·.priority)).Nodup :=
      (hperm.map (·.priority)).nodup_iff.mpr hnodup
    have hne' : scopes' ≠ [] := by
      obtain ⟨scope, hscope⟩ := List.exists_mem_of_ne_nil scopes hne
      exact List.ne_nil_of_mem ((hscopes scope).mpr hscope)
    have hcompiles : Compiles c (profile.withRules rules) ↔ Compiles c profile :=
      forall_congr' fun rule => imp_congr_left hperm.mem_iff
    have hset : GrantedSet c rules scopes' invariants ↔
        GrantedSet c profile.privileges.rules scopes invariants := by
      have hmem : ∀ i, (∃ scope ∈ scopes', Grants c rules scope i) ↔
          ∃ scope ∈ scopes, Grants c profile.privileges.rules scope i := fun i =>
        exists_congr fun scope => and_congr (hscopes scope) (grants_perm hperm)
      constructor
      · intro h
        exact ⟨h.sorted, fun i => (h.mem_iff i).trans (hmem i)⟩
      · intro h
        exact ⟨h.sorted, fun i => (h.mem_iff i).trans (hmem i).symm⟩
    have hiff : mapInvariants c (profile.withRules rules) scopes' = .ok invariants ↔
        Compiles c (profile.withRules rules) ∧
        (∀ scope ∈ scopes', ∃ invariant, Grants c rules scope invariant) ∧
        GrantedSet c rules scopes' invariants := mapInvariants_iff hnodup' hreject hne'
    rw [hiff, mapInvariants_iff hnodup hreject hne, hcompiles]
    refine and_congr_right fun _ => and_congr ?_ hset
    refine forall_congr' fun scope => imp_congr (hscopes scope) ?_
    exact exists_congr fun invariant => grants_perm hperm

/-! ## Two profiles -/

theorem scopes_granted_save :
    Core.validateExchangeProfiles "acme" [] [testProfile] = .ok () ∧
    mapInvariants realmCrates testProfile ["storage:save", "storage:save"] =
      .ok [⟨"storage:save", "save", "storage", "*"⟩] := by
  have hvalid : Core.validateExchangeProfiles "acme" [] [testProfile] = .ok () := by decide +kernel
  refine ⟨hvalid, ?_⟩
  have h := scopes_granted (c := realmCrates) hvalid (List.mem_singleton_self testProfile)
    (List.cons_ne_nil "storage:save" [])
  refine (h.2.2 testProfile.privileges.rules ["storage:save", "storage:save"] (List.Perm.refl _)
    ?_ _).mpr rfl
  intro scope
  simp

/-- A rule with a pattern that is none, below the one of the test profile. -/
def brokenProfile : ExchangeProfileConfig :=
  testProfile.withRules (testProfile.privileges.rules ++
    [{ name := "any", priority := 0, pattern := "(",
       emit := { scope := "any", operation := "any", resourceType := "any", resourceId := "*" } }])

/-- Validation accepts it, and the mapping refuses a scope that the rule of the highest priority
matches and renders. -/
theorem broken_pattern_refused :
    Core.validateExchangeProfiles "acme" [] [brokenProfile] = .ok () ∧
    (∀ scope ∈ ["storage:save"], ∃ rule captures,
      Chosen realmCrates brokenProfile.privileges.rules scope rule captures ∧
        ∃ invariant, Emits rule.emit scope captures invariant) ∧
    ¬∃ invariants, mapInvariants realmCrates brokenProfile ["storage:save"] = .ok invariants := by
  refine ⟨by decide +kernel, ?_, ?_⟩
  · intro scope hscope
    obtain rfl := List.mem_singleton.mp hscope
    refine ⟨testProfile.privileges.rules.head (by decide), fun _ => none, ?_, ?_⟩
    · refine ⟨List.mem_cons_self, ⟨_, rfl, rfl⟩, ?_⟩
      intro other hother captures' ⟨pattern, hregex, _⟩
      rcases List.mem_cons.mp hother with rfl | hother
      · exact le_refl _
      · obtain rfl := List.mem_singleton.mp hother
        cases hregex
    · exact ⟨⟨"storage:save", "save", "storage", "*"⟩, rfl, rfl, rfl, rfl⟩
  · intro ⟨invariants, h⟩
    cases h

end PicX.Realm
