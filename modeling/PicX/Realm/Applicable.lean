import PicX.Realm.KeyCaches
import PicX.Realm.Recorded

/-!
# Which exchange profiles can be applied

Validation at startup reads the rules of an exchange profile as texts: a pattern and four templates
that are not blank. The mapping of a token compiles the patterns and renders the templates, and can
fail on the profile alone: on a pattern that is none, on a placeholder that is not closed, on a name
the pattern of the rule does not capture.

* `asks` — the placeholders of a template, which do not depend on the token.
* `ProfileFault`, `TokenFault` — where the mapping of a token stops, and on whose account.
* `mapAuthority_error` — it fails on one of them, and on nothing else.
* `profile_applicable` — when the mapping never fails on the profile alone.
-/

namespace PicX.Realm

open PicX ExchangeError

/-! ## What a profile asks for -/

/-- The placeholders of a template, by the rounds of `renderFrom`: each with its name, and without
one where it is not closed. -/
def asksFrom : Nat → List Char → List (Option String)
  | 0, _ => []
  | fuel + 1, rest =>
    match findPlaceholder rest with
    | none => []
    | some (_, after) =>
      match splitOnce '\x7d' (String.ofList after) with
      | none => [none]
      | some (name, rest) => some name :: asksFrom fuel rest.toList

def asks (template : String) : List (Option String) :=
  asksFrom (template.toList.length + 1) template.toList

/-- The four templates of a rule, in the order they are rendered. -/
def PrivilegeEmit.templates (emit : PrivilegeEmit) : List String :=
  [emit.scope, emit.operation, emit.resourceType, emit.resourceId]

/-- The placeholders of a rule in that order, each with its template. -/
def PrivilegeEmit.placeholders (emit : PrivilegeEmit) : List (String × Option String) :=
  emit.templates.flatMap fun template => (asks template).map (template, ·)

/-- A placeholder that has a value. -/
def Answered (captures : String → Option String) (ask : Option String) : Prop :=
  ∃ name, ask = some name ∧ (name = "raw" ∨ ∃ value, captures name = some value)

variable (c : Crates) (names : String → List String)

/-- A placeholder that is closed and asks for `raw` or for a capture the pattern has. -/
def SoundAsk (pattern : String) (ask : Option String) : Prop :=
  ∃ name, ask = some name ∧ (name = "raw" ∨ name ∈ names pattern)

/-- Templates that ask for nothing else. -/
def SoundTemplates (rule : PrivilegeRule) : Prop :=
  ∀ p ∈ rule.emit.placeholders, SoundAsk names rule.pattern p.2

/-- `Captures::name` answers for the names `Regex::capture_names` lists, and for no others. -/
def CaptureNames : Prop :=
  ∀ pattern captures, c.regexNew pattern = .ok captures → ∀ text found, captures text = some found →
    ∀ name value, found name = some value → name ∈ names pattern

/-- Every pattern of a profile is one. -/
def Compiles (profile : ExchangeProfileConfig) : Prop :=
  ∀ rule ∈ profile.privileges.rules, ∃ captures, c.regexNew rule.pattern = .ok captures

/-- The rule that takes a scope, with what it captures: the first one that matches it, the highest
priority first. -/
def Takes (profile : ExchangeProfileConfig) (scope : String) (rule : PrivilegeRule)
    (captures : String → Option String) : Prop :=
  ∃ rules, compileRules c profile profile.privileges.rules = .ok rules ∧
    matchingRule (rules.insertionSort fun a b => b.rule.priority ≤ a.rule.priority) scope =
      some (rule, captures)

/-- A scope that no rule takes. -/
def Untaken (profile : ExchangeProfileConfig) (scope : String) : Prop :=
  ∀ rule captures, ¬Takes c profile scope rule captures

/-- A scope the mapping goes past: a rule takes it and has a value for every placeholder, or no rule
takes it and the profile lets it be. -/
def Passes (profile : ExchangeProfileConfig) (scope : String) : Prop :=
  (∃ rule captures, Takes c profile scope rule captures ∧
    ∀ p ∈ rule.emit.placeholders, Answered captures p.2) ∨
  Untaken c profile scope ∧ profile.onUnmatchedScope ≠ EXCHANGE_ON_UNMATCHED_SCOPE_REJECT

/-- A placeholder the mapping comes to: it goes past the scopes before, and the rule that takes the
next one has a value for the placeholders before. -/
def ComesTo (profile : ExchangeProfileConfig) (scopes : List String) (rule : PrivilegeRule)
    (ask : Option String) : Prop :=
  ∃ before scope after, scopes = before ++ scope :: after ∧ (∀ s ∈ before, Passes c profile s) ∧
    ∃ captures, Takes c profile scope rule captures ∧
      ∃ earlier template later, rule.emit.placeholders = earlier ++ (template, ask) :: later ∧
        ∀ p ∈ earlier, Answered captures p.2

/-- A token whose identity and scopes are mapped. -/
def Mapped (profile : ExchangeProfileConfig) (payload : Value) (scopes : List String) : Prop :=
  (∃ identity, mapIdentityContext profile payload = .ok identity) ∧
    mapScopes profile.claims.scopes payload = .ok scopes

/-! ## Where the mapping stops -/

def invalidPattern (profile : ExchangeProfileConfig) (rule : PrivilegeRule) (error : String) :
    ExchangeError :=
  invalidRequest ("exchange profile `" ++ profile.id ++ "` has an invalid rule pattern `" ++
    rule.name ++ "`: " ++ error)

def unterminated (template : String) : ExchangeError :=
  invalidRequest ("template `" ++ template ++ "` has an unterminated placeholder")

def missingCapture (template name : String) : ExchangeError :=
  invalidRequest ("template `" ++ template ++ "` references missing capture `" ++ name ++ "`")

/-- The error of a placeholder that has no value. -/
def askError (template : String) : Option String → ExchangeError
  | none => unterminated template
  | some name => missingCapture template name

def notAccepted (profile : ExchangeProfileConfig) (scope : String) : ExchangeError :=
  invalidGrant ("scope `" ++ scope ++ "` is not accepted by exchange profile `" ++ profile.id ++
    "`")

def noAuthority : ExchangeError :=
  invalidGrant "the exchange produced no executable authority invariants"

/-- The mapping stops at a placeholder without a value, of the rule that takes the scope. -/
def StopsAt (profile : ExchangeProfileConfig) (scopes : List String) (rule : PrivilegeRule)
    (template : String) (ask : Option String) : Prop :=
  ∃ scope captures, FirstNot (Passes c profile) scopes scope ∧
    Takes c profile scope rule captures ∧
    FirstNot (fun p => Answered captures p.2) rule.emit.placeholders (template, ask)

/-- The mapping of a token stops at something no token could mend. -/
inductive ProfileFault (profile : ExchangeProfileConfig) (payload : Value) : ExchangeError → Prop
  /-- The first pattern that does not compile. -/
  | pattern (scopes : List String) (rule : PrivilegeRule) (error : String) :
      Mapped profile payload scopes →
      FirstNot (fun rule => ∃ captures, c.regexNew rule.pattern = .ok captures)
        profile.privileges.rules rule →
      c.regexNew rule.pattern = .error error →
      ProfileFault profile payload (invalidPattern profile rule error)
  /-- A placeholder that is not closed, or names a capture the pattern of its rule does not have. -/
  | placeholder (scopes : List String) (rule : PrivilegeRule) (template : String)
      (ask : Option String) :
      Mapped profile payload scopes → StopsAt c profile scopes rule template ask →
      ¬SoundAsk names rule.pattern ask →
      ProfileFault profile payload (askError template ask)

/-- The mapping of a token stops at something the profile leaves to the token. -/
inductive TokenFault (profile : ExchangeProfileConfig) (payload : Value) : ExchangeError → Prop
  | identity (e : ExchangeError) : mapIdentityContext profile payload = .error e →
      TokenFault profile payload e
  | scopes (identity : Option (Map AuthorityValue)) (e : ExchangeError) :
      mapIdentityContext profile payload = .ok identity →
      mapScopes profile.claims.scopes payload = .error e → TokenFault profile payload e
  /-- A scope no rule takes. -/
  | unmatched (scopes : List String) (scope : String) :
      Mapped profile payload scopes → Compiles c profile →
      FirstNot (Passes c profile) scopes scope → Untaken c profile scope →
      TokenFault profile payload (notAccepted profile scope)
  /-- A capture of the pattern that took no part in the match. -/
  | absent (scopes : List String) (rule : PrivilegeRule) (template : String)
      (ask : Option String) :
      Mapped profile payload scopes → StopsAt c profile scopes rule template ask →
      SoundAsk names rule.pattern ask → TokenFault profile payload (askError template ask)
  /-- No scope is taken, and none is rejected. -/
  | nothing (scopes : List String) :
      Mapped profile payload scopes → Compiles c profile →
      (∀ scope ∈ scopes, Passes c profile scope ∧ Untaken c profile scope) →
      TokenFault profile payload noAuthority

variable {c names} {profile : ExchangeProfileConfig} {e : ExchangeError}

/-! ## Rendering -/

variable {template raw : String} {captures : String → Option String}

theorem renderFrom_placeholder {fuel : Nat} {rest before after : List Char} {name rest' : String}
    (hfind : findPlaceholder rest = some (before, after))
    (hsplit : splitOnce '\x7d' (String.ofList after) = some (name, rest')) :
    renderFrom template raw captures (fuel + 1) rest =
      ((if name = "raw" then .ok raw else okOr (captures name) (missingCapture template name)) >>=
        fun value => renderFrom template raw captures fuel rest'.toList >>=
          fun rendered => .ok (before ++ value.toList ++ rendered)) := by
  rw [renderFrom, hfind]
  dsimp only
  rw [hsplit]
  dsimp only
  split_ifs
  · rfl
  · rfl

theorem not_answered_none : ¬Answered captures none := by
  intro ⟨name, hname, _⟩
  cases hname

/-- A rendering that fails on the first of some placeholders that has no value. -/
def Renders {β : Type} (captures : String → Option String)
    (placeholders : List (String × Option String)) : Except ExchangeError β → Prop :=
  StopsOnFirst (fun p => Answered captures p.2) placeholders fun p e => e = askError p.1 p.2

theorem renders_answer {name : String} : Renders captures [(template, some name)]
    (if name = "raw" then .ok raw else okOr (captures name) (missingCapture template name)) := by
  split_ifs with hraw
  · exact stopsOnFirst_of_pos ⟨name, rfl, Or.inl hraw⟩
  · cases hvalue : captures name with
    | some value => exact stopsOnFirst_of_pos ⟨name, rfl, Or.inr ⟨value, hvalue⟩⟩
    | none =>
      refine stopsOnFirst_of_neg ?_ rfl
      intro ⟨name', hname, hanswer⟩
      cases hname
      obtain ⟨value, hsome⟩ := hanswer.resolve_left hraw
      cases hvalue.symm.trans hsome

/-- A template fails on its first placeholder without a value, and names it. -/
theorem renders_from {fuel : Nat} {rest : List Char} :
    Renders captures ((asksFrom fuel rest).map (template, ·))
      (renderFrom template raw captures fuel rest) := by
  induction fuel generalizing rest with
  | zero => exact stopsOnFirst_nil
  | succ fuel ih =>
    rw [asksFrom]
    cases hfind : findPlaceholder rest with
    | none =>
      rw [renderFrom, hfind]
      exact stopsOnFirst_nil
    | some found =>
      obtain ⟨before, after⟩ := found
      dsimp only
      cases hsplit : splitOnce '\x7d' (String.ofList after) with
      | none =>
        rw [renderFrom, hfind]
        dsimp only
        rw [hsplit]
        exact stopsOnFirst_of_neg not_answered_none rfl
      | some cut =>
        obtain ⟨name, rest'⟩ := cut
        rw [renderFrom_placeholder hfind hsplit]
        refine StopsOnFirst.bind renders_answer fun value _ => ?_
        exact StopsOnFirst.map ih fun rendered => rfl

theorem renders_template :
    Renders captures ((asks template).map (template, ·)) (renderTemplate template raw captures) :=
  StopsOnFirst.map renders_from fun _ => rfl

theorem renders_invariant {emit : PrivilegeEmit} {scope : String} :
    Renders captures emit.placeholders (renderInvariant emit scope captures) := by
  have hplaceholders : emit.placeholders = (asks emit.scope).map (emit.scope, ·) ++
      ((asks emit.operation).map (emit.operation, ·) ++
        ((asks emit.resourceType).map (emit.resourceType, ·) ++
          (asks emit.resourceId).map (emit.resourceId, ·))) := by
    simp [PrivilegeEmit.placeholders, PrivilegeEmit.templates]
  rw [hplaceholders]
  refine StopsOnFirst.bind renders_template fun scope' _ => ?_
  refine StopsOnFirst.bind renders_template fun operation _ => ?_
  refine StopsOnFirst.bind renders_template fun resourceType _ => ?_
  exact StopsOnFirst.map renders_template fun resourceId => rfl

/-! ## Rules and scopes -/

variable {rules : List PrivilegeRule} {compiled : List CompiledRule}

/-- The error of a pattern that does not compile. -/
def PatternError (c : Crates) (profile : ExchangeProfileConfig) (rule : PrivilegeRule)
    (e : ExchangeError) : Prop :=
  ∃ error, c.regexNew rule.pattern = .error error ∧ e = invalidPattern profile rule error

theorem patternError_unique {rule : PrivilegeRule} {e' : ExchangeError}
    (h : PatternError c profile rule e) (h' : PatternError c profile rule e') : e = e' := by
  obtain ⟨error, herror, rfl⟩ := h
  obtain ⟨error', herror', rfl⟩ := h'
  cases herror.symm.trans herror'
  rfl

theorem stops_rule {rule : PrivilegeRule} :
    StopsOnFirst (fun rule => ∃ captures, c.regexNew rule.pattern = .ok captures) [rule]
      (PatternError c profile)
      (mapErr (invalidPattern profile rule) (c.regexNew rule.pattern)) := by
  cases hregex : c.regexNew rule.pattern with
  | ok captures => exact stopsOnFirst_of_pos ⟨captures, hregex⟩
  | error error =>
    refine stopsOnFirst_of_neg ?_ ⟨error, hregex, rfl⟩
    intro ⟨captures, hok⟩
    cases hregex.symm.trans hok

theorem compileRules_stops :
    StopsOnFirst (fun rule => ∃ captures, c.regexNew rule.pattern = .ok captures) rules
      (PatternError c profile) (compileRules c profile rules) := by
  induction rules with
  | nil => exact stopsOnFirst_nil
  | cons rule rest ih =>
    refine StopsOnFirst.bind (l := [rule]) stops_rule fun captures _ => ?_
    exact StopsOnFirst.map ih fun _ => rfl

theorem compiles_iff : Compiles c profile ↔
    ∃ compiled, compileRules c profile profile.privileges.rules = .ok compiled :=
  compileRules_stops.ok_iff.symm

theorem compileRules_ok (h : compileRules c profile rules = .ok compiled) :
    ∀ r ∈ compiled, r.rule ∈ rules ∧ c.regexNew r.rule.pattern = .ok r.captures := by
  induction rules generalizing compiled with
  | nil =>
    obtain rfl := pure_ok.mp h
    simp
  | cons rule rest ih =>
    obtain ⟨captures, hregex, h⟩ := bind_ok.mp h
    obtain ⟨compiled', hrest, h⟩ := bind_ok.mp h
    obtain rfl := pure_ok.mp h
    intro r hr
    rcases List.mem_cons.mp hr with rfl | hr
    · exact ⟨List.mem_cons_self, mapErr_ok.mp hregex⟩
    · exact ⟨List.mem_cons_of_mem _ (ih hrest r hr).1, (ih hrest r hr).2⟩

theorem matchingRule_some {scope : String} {rule : PrivilegeRule}
    (h : matchingRule compiled scope = some (rule, captures)) :
    ∃ r ∈ compiled, r.rule = rule ∧ r.captures scope = some captures := by
  obtain ⟨r, hr, hmatch⟩ := List.exists_of_findSome?_eq_some h
  obtain ⟨found, hfound, heq⟩ := Option.map_eq_some_iff.mp hmatch
  cases heq
  exact ⟨r, hr, rfl, hfound⟩

theorem Takes.compiles {scope : String} {rule : PrivilegeRule}
    (h : Takes c profile scope rule captures) : Compiles c profile := by
  obtain ⟨compiled, hcompiled, -⟩ := h
  exact compiles_iff.mpr ⟨compiled, hcompiled⟩

theorem Takes.unique {scope : String} {rule rule' : PrivilegeRule}
    {captures' : String → Option String} (h : Takes c profile scope rule captures)
    (h' : Takes c profile scope rule' captures') : rule = rule' ∧ captures = captures' := by
  obtain ⟨compiled, hcompiled, hmatch⟩ := h
  obtain ⟨compiled', hcompiled', hmatch'⟩ := h'
  cases hcompiled.symm.trans hcompiled'
  cases hmatch.symm.trans hmatch'
  exact ⟨rfl, rfl⟩

theorem Takes.rule {scope : String} {rule : PrivilegeRule}
    (h : Takes c profile scope rule captures) : rule ∈ profile.privileges.rules := by
  obtain ⟨compiled, hcompiled, hmatch⟩ := h
  obtain ⟨r, hr, rfl, -⟩ := matchingRule_some hmatch
  exact (compileRules_ok hcompiled r ((List.mem_insertionSort _).mp hr)).1

theorem Takes.mem_names (hnames : CaptureNames c names) {scope : String} {rule : PrivilegeRule}
    (h : Takes c profile scope rule captures) {name value : String}
    (hvalue : captures name = some value) : name ∈ names rule.pattern := by
  obtain ⟨compiled, hcompiled, hmatch⟩ := h
  obtain ⟨r, hr, rfl, hcaptures⟩ := matchingRule_some hmatch
  rw [List.mem_insertionSort] at hr
  exact hnames _ _ (compileRules_ok hcompiled r hr).2 scope _ hcaptures name value hvalue

theorem Takes.sound (hnames : CaptureNames c names) {scope : String} {rule : PrivilegeRule}
    (h : Takes c profile scope rule captures) {ask : Option String}
    (hanswered : Answered captures ask) : SoundAsk names rule.pattern ask := by
  obtain ⟨name, rfl, hanswer⟩ := hanswered
  exact ⟨name, rfl, hanswer.imp_right fun ⟨value, hvalue⟩ => h.mem_names hnames hvalue⟩

/-- A rule without a value for one of its placeholders lets no scope past. -/
theorem Takes.not_passes {scope : String} {rule : PrivilegeRule}
    (h : Takes c profile scope rule captures) {p : String × Option String}
    (hp : p ∈ rule.emit.placeholders) (hnot : ¬Answered captures p.2) :
    ¬Passes c profile scope := by
  rintro (⟨rule', captures', htakes, hall⟩ | ⟨huntaken, -⟩)
  · obtain ⟨rfl, rfl⟩ := h.unique htakes
    exact hnot (hall p hp)
  · exact huntaken rule captures h

theorem untaken_of_none {scope : String}
    (hcompiled : compileRules c profile profile.privileges.rules = .ok compiled)
    (h : matchingRule (compiled.insertionSort fun a b => b.rule.priority ≤ a.rule.priority) scope =
      none) : Untaken c profile scope := by
  intro rule captures ⟨compiled', hcompiled', hmatch⟩
  cases hcompiled.symm.trans hcompiled'
  cases h.symm.trans hmatch

/-- What a scope that does not pass fails on. -/
def Blocks (c : Crates) (profile : ExchangeProfileConfig) (scope : String) (e : ExchangeError) :
    Prop :=
  Untaken c profile scope ∧ e = notAccepted profile scope ∨
    ∃ rule captures template ask, Takes c profile scope rule captures ∧
      FirstNot (fun p => Answered captures p.2) rule.emit.placeholders (template, ask) ∧
      e = askError template ask

theorem blocks_unique {scope : String} {e' : ExchangeError} (h : Blocks c profile scope e)
    (h' : Blocks c profile scope e') : e = e' := by
  rcases h with ⟨huntaken, rfl⟩ | ⟨rule, captures, template, ask, htakes, hfirst, rfl⟩
  · rcases h' with ⟨-, rfl⟩ | ⟨rule', captures', _, _, htakes', -⟩
    · rfl
    · exact absurd htakes' (huntaken rule' captures')
  · rcases h' with ⟨huntaken, -⟩ | ⟨rule', captures', template', ask', htakes', hfirst', rfl⟩
    · exact absurd htakes (huntaken rule captures)
    · obtain ⟨rfl, rfl⟩ := htakes.unique htakes'
      cases hfirst.unique hfirst'
      rfl

theorem stops_taken {scope : String} {rule : PrivilegeRule}
    (htakes : Takes c profile scope rule captures) :
    StopsOnFirst (Passes c profile) [scope] (Blocks c profile)
      (renderInvariant rule.emit scope captures) := by
  have hrenders : Renders captures rule.emit.placeholders
      (renderInvariant rule.emit scope captures) := renders_invariant
  cases hrender : renderInvariant rule.emit scope captures with
  | ok invariant =>
    rw [hrender] at hrenders
    exact stopsOnFirst_of_pos (Or.inl ⟨rule, captures, htakes, hrenders⟩)
  | error e =>
    rw [hrender] at hrenders
    obtain ⟨⟨template, ask⟩, hfirst, rfl⟩ := hrenders
    have hstops : ¬Passes c profile scope := htakes.not_passes hfirst.mem.1 hfirst.mem.2
    exact stopsOnFirst_of_neg hstops
      (Or.inr ⟨rule, captures, template, ask, htakes, hfirst, rfl⟩)

theorem stops_untaken {scope : String} (huntaken : Untaken c profile scope) :
    StopsOnFirst (Passes c profile) [scope] (Blocks c profile)
      (ensure (profile.onUnmatchedScope ≠ EXCHANGE_ON_UNMATCHED_SCOPE_REJECT)
        (notAccepted profile scope)) := by
  by_cases hlets : profile.onUnmatchedScope ≠ EXCHANGE_ON_UNMATCHED_SCOPE_REJECT
  · rw [ensure, if_pos hlets]
    exact stopsOnFirst_of_pos (Or.inr ⟨huntaken, hlets⟩)
  · rw [ensure, if_neg hlets]
    refine stopsOnFirst_of_neg ?_ (Or.inl ⟨huntaken, rfl⟩)
    rintro (⟨rule, captures, htakes, -⟩ | ⟨-, hlets'⟩)
    · exact huntaken rule captures htakes
    · exact hlets hlets'

/-- Scopes fail on the first that does not pass, -/
theorem mapScopesToInvariants_stops {scopes : List String} {invariants : List Invariant}
    (hcompiled : compileRules c profile profile.privileges.rules = .ok compiled) :
    StopsOnFirst (Passes c profile) scopes (Blocks c profile)
      (mapScopesToInvariants c profile
        (compiled.insertionSort fun a b => b.rule.priority ≤ a.rule.priority) scopes
        invariants) := by
  induction scopes generalizing invariants with
  | nil => exact stopsOnFirst_nil
  | cons scope rest ih =>
    unfold mapScopesToInvariants
    cases hmatch : matchingRule
        (compiled.insertionSort fun a b => b.rule.priority ≤ a.rule.priority) scope with
    | some found =>
      exact StopsOnFirst.bind (l := [scope]) (stops_taken ⟨compiled, hcompiled, hmatch⟩)
        fun _ _ => ih
    | none =>
      exact StopsOnFirst.bind (l := [scope]) (stops_untaken (untaken_of_none hcompiled hmatch))
        fun _ _ => ih

theorem insertInvariant_ne_nil {i : Invariant} {invariants : List Invariant} :
    insertInvariant c i invariants ≠ [] := by
  rw [insertInvariant]
  split_ifs with hmem
  · exact List.ne_nil_of_mem hmem
  · exact List.ne_nil_of_mem ((List.mem_orderedInsert _).mpr (Or.inl rfl))

/-- and leave the set as it is only when no rule takes any of them. -/
theorem mapScopesToInvariants_nil {scopes : List String} {invariants mapped : List Invariant}
    (hcompiled : compileRules c profile profile.privileges.rules = .ok compiled)
    (h : mapScopesToInvariants c profile
      (compiled.insertionSort fun a b => b.rule.priority ≤ a.rule.priority) scopes invariants =
        .ok mapped) :
    mapped = [] ↔ invariants = [] ∧ ∀ scope ∈ scopes, Untaken c profile scope := by
  induction scopes generalizing invariants with
  | nil =>
    obtain rfl := pure_ok.mp h
    simp
  | cons scope rest ih =>
    unfold mapScopesToInvariants at h
    cases hmatch : matchingRule
        (compiled.insertionSort fun a b => b.rule.priority ≤ a.rule.priority) scope with
    | some found =>
      obtain ⟨rule, captures⟩ := found
      rw [hmatch] at h
      obtain ⟨invariant, -, h⟩ := bind_ok.mp h
      rw [ih h, List.forall_mem_cons]
      constructor
      · intro ⟨hnil, _⟩
        exact absurd hnil insertInvariant_ne_nil
      · intro ⟨_, huntaken, _⟩
        exact absurd ⟨compiled, hcompiled, hmatch⟩ (huntaken rule captures)
    | none =>
      rw [hmatch] at h
      obtain ⟨_, -, h⟩ := bind_ok.mp h
      rw [ih h, List.forall_mem_cons]
      exact and_congr_right fun _ => (and_iff_right (untaken_of_none hcompiled hmatch)).symm

/-! ## The whole mapping -/

/-- Invariants fail on a pattern, on a scope, or because no scope is taken. -/
theorem mapInvariants_error {scopes : List String} : mapInvariants c profile scopes = .error e ↔
    (∃ rule, FirstNot (fun rule => ∃ captures, c.regexNew rule.pattern = .ok captures)
      profile.privileges.rules rule ∧ PatternError c profile rule e) ∨
    (Compiles c profile ∧ ∃ scope, FirstNot (Passes c profile) scopes scope ∧
      Blocks c profile scope e) ∨
    (Compiles c profile ∧ (∀ scope ∈ scopes, Passes c profile scope ∧ Untaken c profile scope) ∧
      e = noAuthority) := by
  constructor
  · intro h
    rcases bind_error.mp h with h | ⟨compiled, hcompiled, h⟩
    · exact Or.inl ((compileRules_stops.error_iff fun _ _ _ => patternError_unique).mp h)
    have hcompiles : Compiles c profile := compiles_iff.mpr ⟨compiled, hcompiled⟩
    rcases bind_error.mp h with h | ⟨mapped, hmapped, h⟩
    · refine Or.inr (Or.inl ⟨hcompiles, ?_⟩)
      exact ((mapScopesToInvariants_stops hcompiled).error_iff fun _ _ _ => blocks_unique).mp h
    rcases bind_error.mp h with h | ⟨_, -, h⟩
    · obtain ⟨hnil, rfl⟩ := ensure_error.mp h
      have hpass := (mapScopesToInvariants_stops hcompiled).ok_iff.mp ⟨mapped, hmapped⟩
      have huntaken := ((mapScopesToInvariants_nil hcompiled hmapped).mp (not_not.mp hnil)).2
      exact Or.inr (Or.inr ⟨hcompiles,
        fun scope hscope => ⟨hpass scope hscope, huntaken scope hscope⟩, rfl⟩)
    · cases h
  · rintro (h | ⟨hcompiles, h⟩ | ⟨hcompiles, hall, rfl⟩)
    · refine bind_error.mpr (Or.inl ?_)
      exact (compileRules_stops.error_iff fun _ _ _ => patternError_unique).mpr h
    · obtain ⟨compiled, hcompiled⟩ := compiles_iff.mp hcompiles
      refine bind_error.mpr (Or.inr ⟨compiled, hcompiled, bind_error.mpr (Or.inl ?_)⟩)
      exact ((mapScopesToInvariants_stops hcompiled).error_iff fun _ _ _ => blocks_unique).mpr h
    · obtain ⟨compiled, hcompiled⟩ := compiles_iff.mp hcompiles
      have hscopes : StopsOnFirst (Passes c profile) scopes (Blocks c profile)
          (mapScopesToInvariants c profile _ scopes []) := mapScopesToInvariants_stops hcompiled
      obtain ⟨mapped, hmapped⟩ := hscopes.ok_iff.mpr fun scope hscope => (hall scope hscope).1
      have hnil : mapped = [] := (mapScopesToInvariants_nil hcompiled hmapped).mpr
        ⟨rfl, fun scope hscope => (hall scope hscope).2⟩
      refine bind_error.mpr (Or.inr ⟨compiled, hcompiled, ?_⟩)
      refine bind_error.mpr (Or.inr ⟨mapped, hmapped, bind_error.mpr (Or.inl ?_)⟩)
      exact ensure_error.mpr ⟨not_not.mpr hnil, rfl⟩

/-- A mapping fails on the claims of a token, or on what it maps the scopes to. -/
theorem mapAuthority_stages {payload : Value} : mapAuthority c profile payload = .error e ↔
    mapIdentityContext profile payload = .error e ∨
    (∃ identity, mapIdentityContext profile payload = .ok identity ∧
      mapScopes profile.claims.scopes payload = .error e) ∨
    ∃ scopes, Mapped profile payload scopes ∧ mapInvariants c profile scopes = .error e := by
  simp only [mapAuthority, bind_error, Mapped, pure, Except.pure, reduceCtorEq, and_false,
    exists_false, or_false]
  constructor
  · rintro (h | ⟨identity, hidentity, h | ⟨scopes, hscopes, h⟩⟩)
    · exact Or.inl h
    · exact Or.inr (Or.inl ⟨identity, hidentity, h⟩)
    · exact Or.inr (Or.inr ⟨scopes, ⟨⟨identity, hidentity⟩, hscopes⟩, h⟩)
  · rintro (h | ⟨identity, hidentity, h⟩ | ⟨scopes, ⟨⟨identity, hidentity⟩, hscopes⟩, h⟩)
    · exact Or.inl h
    · exact Or.inr ⟨identity, hidentity, Or.inl h⟩
    · exact Or.inr ⟨identity, hidentity, Or.inr ⟨scopes, hscopes, h⟩⟩

theorem StopsAt.compiles {scopes : List String} {rule : PrivilegeRule} {ask : Option String}
    (h : StopsAt c profile scopes rule template ask) : Compiles c profile := by
  obtain ⟨scope, captures, -, htakes, -⟩ := h
  exact htakes.compiles

theorem StopsAt.error {scopes : List String} {rule : PrivilegeRule} {ask : Option String}
    (h : StopsAt c profile scopes rule template ask) :
    mapInvariants c profile scopes = .error (askError template ask) := by
  have hcompiles := h.compiles
  obtain ⟨scope, captures, hscope, htakes, hfirst⟩ := h
  exact mapInvariants_error.mpr (Or.inr (Or.inl ⟨hcompiles, scope, hscope,
    Or.inr ⟨rule, captures, template, ask, htakes, hfirst, rfl⟩⟩))

/-- **Where the mapping of a token fails.** It fails on the profile or on the token, with the error
of the place. -/
theorem mapAuthority_error {payload : Value} : mapAuthority c profile payload = .error e ↔
    ProfileFault c names profile payload e ∨ TokenFault c names profile payload e := by
  rw [mapAuthority_stages]
  constructor
  · rintro (h | ⟨identity, hidentity, h⟩ | ⟨scopes, hmapped, h⟩)
    · exact Or.inr (.identity e h)
    · exact Or.inr (.scopes identity e hidentity h)
    rcases mapInvariants_error.mp h with ⟨rule, hrule, error, herror, rfl⟩ |
      ⟨hcompiles, scope, hscope, hblocks⟩ | ⟨hcompiles, hall, rfl⟩
    · exact Or.inl (.pattern scopes rule error hmapped hrule herror)
    · rcases hblocks with ⟨huntaken, rfl⟩ | ⟨rule, captures, template, ask, htakes, hfirst, rfl⟩
      · exact Or.inr (.unmatched scopes scope hmapped hcompiles hscope huntaken)
      · have hstops : StopsAt c profile scopes rule template ask :=
          ⟨scope, captures, hscope, htakes, hfirst⟩
        by_cases hsound : SoundAsk names rule.pattern ask
        · exact Or.inr (.absent scopes rule template ask hmapped hstops hsound)
        · exact Or.inl (.placeholder scopes rule template ask hmapped hstops hsound)
    · exact Or.inr (.nothing scopes hmapped hcompiles hall)
  · rintro (h | h)
    · cases h with
      | pattern scopes rule error hmapped hrule herror =>
        exact Or.inr (Or.inr ⟨scopes, hmapped,
          mapInvariants_error.mpr (Or.inl ⟨rule, hrule, error, herror, rfl⟩)⟩)
      | placeholder scopes rule template ask hmapped hstops hsound =>
        exact Or.inr (Or.inr ⟨scopes, hmapped, hstops.error⟩)
    · cases h with
      | identity e h => exact Or.inl h
      | scopes identity e hidentity h => exact Or.inr (Or.inl ⟨identity, hidentity, h⟩)
      | unmatched scopes scope hmapped hcompiles hscope huntaken =>
        exact Or.inr (Or.inr ⟨scopes, hmapped, mapInvariants_error.mpr (Or.inr (Or.inl
          ⟨hcompiles, scope, hscope, Or.inl ⟨huntaken, rfl⟩⟩))⟩)
      | absent scopes rule template ask hmapped hstops hsound =>
        exact Or.inr (Or.inr ⟨scopes, hmapped, hstops.error⟩)
      | nothing scopes hmapped hcompiles hall =>
        exact Or.inr (Or.inr ⟨scopes, hmapped,
          mapInvariants_error.mpr (Or.inr (Or.inr ⟨hcompiles, hall, rfl⟩))⟩)

theorem Mapped.unique {payload : Value} {scopes scopes' : List String}
    (h : Mapped profile payload scopes) (h' : Mapped profile payload scopes') :
    scopes = scopes' :=
  Except.ok.inj (h.2.symm.trans h'.2)

theorem StopsAt.unique {scopes : List String} {rule rule' : PrivilegeRule} {template' : String}
    {ask ask' : Option String} (h : StopsAt c profile scopes rule template ask)
    (h' : StopsAt c profile scopes rule' template' ask') : rule = rule' ∧ ask = ask' := by
  obtain ⟨scope, captures, hscope, htakes, hfirst⟩ := h
  obtain ⟨scope', captures', hscope', htakes', hfirst'⟩ := h'
  obtain rfl := hscope.unique hscope'
  obtain ⟨rfl, rfl⟩ := htakes.unique htakes'
  cases hfirst.unique hfirst'
  exact ⟨rfl, rfl⟩

/-- A token that is mapped and fails on the profile does not fail on its own account. -/
theorem ProfileFault.not_token {payload : Value} {e' : ExchangeError}
    (h : ProfileFault c names profile payload e) : ¬TokenFault c names profile payload e' := by
  have hmapped : ∃ scopes, Mapped profile payload scopes := by
    cases h with
    | pattern scopes rule error hmapped => exact ⟨scopes, hmapped⟩
    | placeholder scopes rule template ask hmapped => exact ⟨scopes, hmapped⟩
  obtain ⟨scopes, hmapped⟩ := hmapped
  -- Where the patterns compile, the fault is at the placeholder the mapping stops at.
  have hplace : Compiles c profile → ∃ rule template ask,
      StopsAt c profile scopes rule template ask ∧ ¬SoundAsk names rule.pattern ask := by
    intro hcompiles
    cases h with
    | pattern scopes' rule error hmapped' hrule =>
      obtain ⟨hmem, hnot⟩ := hrule.mem
      exact absurd (hcompiles rule hmem) hnot
    | placeholder scopes' rule template ask hmapped' hstops hsound =>
      obtain rfl := hmapped.unique hmapped'
      exact ⟨rule, template, ask, hstops, hsound⟩
  intro h'
  cases h' with
  | identity e h =>
    obtain ⟨identity, hidentity⟩ := hmapped.1
    cases h.symm.trans hidentity
  | scopes identity e hidentity h => cases h.symm.trans hmapped.2
  | unmatched scopes' scope hmapped' hcompiles hscope huntaken =>
    obtain rfl := hmapped.unique hmapped'
    obtain ⟨rule, template, ask, ⟨scope', captures, hscope', htakes, -⟩, -⟩ := hplace hcompiles
    obtain rfl := hscope.unique hscope'
    exact huntaken rule captures htakes
  | absent scopes' rule template ask hmapped' hstops hsound =>
    obtain rfl := hmapped.unique hmapped'
    obtain ⟨rule', template', ask', hstops', hunsound⟩ := hplace hstops.compiles
    obtain ⟨rfl, rfl⟩ := hstops.unique hstops'
    exact hunsound hsound
  | nothing scopes' hmapped' hcompiles hall =>
    obtain rfl := hmapped.unique hmapped'
    obtain ⟨rule, template, ask, ⟨scope, captures, hscope, htakes, -⟩, -⟩ := hplace hcompiles
    exact (hall scope hscope.mem.1).2 rule captures htakes

/-! ## Applicable profiles -/

/-- A placeholder the mapping comes to and no token can fill is where it stops. -/
theorem ComesTo.stopsAt (hnames : CaptureNames c names) {scopes : List String}
    {rule : PrivilegeRule} {ask : Option String} (h : ComesTo c profile scopes rule ask)
    (hunsound : ¬SoundAsk names rule.pattern ask) :
    ∃ template, StopsAt c profile scopes rule template ask := by
  obtain ⟨before, scope, after, hscopes, hbefore, captures, htakes, earlier, template, later,
    hplaceholders, hearlier⟩ := h
  have hnot : ¬Answered captures ask := fun hanswered => hunsound (htakes.sound hnames hanswered)
  refine ⟨template, scope, captures, ⟨before, after, hscopes, hbefore, ?_⟩, htakes,
    earlier, later, hplaceholders, hearlier, hnot⟩
  exact htakes.not_passes (p := (template, ask)) (by simp [hplaceholders]) hnot

theorem StopsAt.comesTo {scopes : List String} {rule : PrivilegeRule} {ask : Option String}
    (h : StopsAt c profile scopes rule template ask) : ComesTo c profile scopes rule ask := by
  obtain ⟨scope, captures, ⟨before, after, hscopes, hbefore, -⟩, htakes,
    ⟨earlier, later, hplaceholders, hearlier, -⟩⟩ := h
  exact ⟨before, scope, after, hscopes, hbefore, captures, htakes, earlier, template, later,
    hplaceholders, hearlier⟩

/-- **When a profile can be applied.** Whatever the token, the mapping fails on the profile or on
the token and never on both; it does not fail on the profile exactly when the patterns compile and
every placeholder it comes to is closed and asks for `raw` or a capture of the pattern of its rule;
and a profile whose patterns all compile and whose templates all do so is at fault for no token. -/
theorem profile_applicable (hnames : CaptureNames c names) (profile : ExchangeProfileConfig) :
    (∀ payload e, mapAuthority c profile payload = .error e ↔
      ProfileFault c names profile payload e ∨ TokenFault c names profile payload e) ∧
    (∀ payload e e', ProfileFault c names profile payload e →
      ¬TokenFault c names profile payload e') ∧
    (∀ payload, (∀ e, mapAuthority c profile payload = .error e →
        ¬ProfileFault c names profile payload e) ↔
      ∀ scopes, Mapped profile payload scopes → Compiles c profile ∧
        ∀ rule ask, ComesTo c profile scopes rule ask → SoundAsk names rule.pattern ask) ∧
    (Compiles c profile → (∀ rule ∈ profile.privileges.rules, SoundTemplates names rule) →
      ∀ payload e, mapAuthority c profile payload = .error e →
        ¬ProfileFault c names profile payload e) := by
  have hexact : ∀ payload, (∀ e, mapAuthority c profile payload = .error e →
        ¬ProfileFault c names profile payload e) ↔
      ∀ scopes, Mapped profile payload scopes → Compiles c profile ∧
        ∀ rule ask, ComesTo c profile scopes rule ask → SoundAsk names rule.pattern ask := by
    intro payload
    have hfails : ∀ e, ProfileFault c names profile payload e →
        mapAuthority c profile payload = .error e := fun e he =>
      mapAuthority_error.mpr (Or.inl he)
    constructor
    · intro hnever scopes hmapped
      constructor
      · by_contra hnot
        obtain ⟨rule, hrule⟩ : ∃ rule, FirstNot (fun rule : PrivilegeRule => ∃ captures,
            c.regexNew rule.pattern = .ok captures) profile.privileges.rules rule := by
          rw [exists_firstNot]
          simpa [Compiles] using hnot
        cases hregex : c.regexNew rule.pattern with
        | ok captures => exact hrule.mem.2 ⟨captures, hregex⟩
        | error error =>
          have hfault : ProfileFault c names profile payload (invalidPattern profile rule error) :=
            .pattern scopes rule error hmapped hrule hregex
          exact hnever _ (hfails _ hfault) hfault
      · intro rule ask hcomes
        by_contra hunsound
        obtain ⟨template, hstops⟩ := hcomes.stopsAt hnames hunsound
        have hfault : ProfileFault c names profile payload (askError template ask) :=
          .placeholder scopes rule template ask hmapped hstops hunsound
        exact hnever _ (hfails _ hfault) hfault
    · intro hsound e _ hfault
      cases hfault with
      | pattern scopes rule error hmapped hrule =>
        exact hrule.mem.2 ((hsound scopes hmapped).1 rule hrule.mem.1)
      | placeholder scopes rule template ask hmapped hstops hunsound =>
        exact hunsound ((hsound scopes hmapped).2 rule ask hstops.comesTo)
  refine ⟨fun payload e => mapAuthority_error, fun payload e e' h => h.not_token, hexact, ?_⟩
  intro hcompiles hsound payload
  refine (hexact payload).mpr fun scopes _ => ⟨hcompiles, ?_⟩
  intro rule ask ⟨_, scope, _, _, _, captures, htakes, earlier, template, later, hplaceholders, _⟩
  exact hsound rule htakes.rule (template, ask) (by simp [hplaceholders])

/-! ## Two profiles -/

def savePayload : Value := .object [("scope", .string "storage:save")]

theorem realmCrates_captures : CaptureNames realmCrates fun _ => [] := by
  intro pattern captures hregex text found hfound name value hvalue
  simp only [realmCrates] at hregex
  split_ifs at hregex with hpattern
  cases hregex
  dsimp only at hfound
  split_ifs at hfound with htext
  cases hfound
  cases hvalue

theorem testProfile_sound :
    ∀ rule ∈ testProfile.privileges.rules, SoundTemplates (fun _ => []) rule := by
  have hnone : ∀ rule ∈ testProfile.privileges.rules, rule.emit.placeholders = [] := by
    decide +kernel
  intro rule hrule p hp
  rw [hnone rule hrule] at hp
  cases hp

theorem testProfile_compiles : Compiles realmCrates testProfile := by
  intro rule hrule
  obtain rfl := List.mem_singleton.mp hrule
  exact ⟨_, rfl⟩

/-- The test profile maps a token, and is at fault for none. -/
theorem profile_applicable_save :
    mapAuthority realmCrates testProfile savePayload =
      .ok ⟨none, [⟨"storage:save", "save", "storage", "*"⟩]⟩ ∧
    ∀ payload e, mapAuthority realmCrates testProfile payload = .error e →
      ¬ProfileFault realmCrates (fun _ => []) testProfile payload e :=
  ⟨rfl, (profile_applicable realmCrates_captures testProfile).2.2.2 testProfile_compiles
    testProfile_sound⟩

/-- The rule with a placeholder that is not closed. -/
def openRule : PrivilegeRule where
  name := "save"
  priority := 1
  pattern := "^storage:save$"
  emit := { scope := "storage:save", operation := "save", resourceType := "storage",
            resourceId := "$\x7braw" }

def openProfile : ExchangeProfileConfig :=
  { testProfile with privileges := { source := "scopes", rules := [openRule] } }

theorem openRule_placeholders : openRule.emit.placeholders = [("$\x7braw", none)] := by
  decide +kernel

theorem openProfile_stops :
    StopsAt realmCrates openProfile ["storage:save"] openRule "$\x7braw" none := by
  have htakes : Takes realmCrates openProfile "storage:save" openRule fun _ => none :=
    ⟨_, rfl, rfl⟩
  refine ⟨"storage:save", fun _ => none, firstNot_cons.mpr (Or.inl ⟨?_, rfl⟩), htakes, ?_⟩
  · refine htakes.not_passes (p := ("$\x7braw", none)) ?_ not_answered_none
    rw [openRule_placeholders]
    exact List.mem_singleton_self _
  · rw [openRule_placeholders]
    exact firstNot_cons.mpr (Or.inl ⟨not_answered_none, rfl⟩)

/-- Validation accepts a profile with it, and the first token that has the scope fails on it. -/
theorem open_placeholder_accepted :
    (acmeConfig openProfile).validate (fun _ => true) = .ok () ∧
    ∃ e, mapAuthority realmCrates openProfile savePayload = .error e ∧
      ProfileFault realmCrates (fun _ => []) openProfile savePayload e := by
  refine ⟨by decide +kernel, unterminated "$\x7braw", rfl, ?_⟩
  refine .placeholder ["storage:save"] openRule "$\x7braw" none ⟨⟨none, rfl⟩, rfl⟩
    openProfile_stops ?_
  intro ⟨name, hname, _⟩
  cases hname

end PicX.Realm
