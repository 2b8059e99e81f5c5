import PicX.Realm.Conformance
import PicX.Realm.Presentation

/-!
# The contract a checkpoint means

A logical contract names texts and collections. The `pic` crate hands it over flattened: a text
stays an entry under its key, a collection becomes one entry `key:member` for each member. The check
takes such an entry apart at its first colon, which is the colon the crate put there only when the
key has none of its own.

* `LogicalContract.Conforms` — what a logical contract asks of the disclosed claims.
* `checkContract_ok` — what the check asks of them, entry by entry.
* `conformance_faithful` — exactly for which contracts the two agree, and that the check is
  monotone for all of them.
-/

namespace PicX.Realm

open PicX

/-! ## Logical contracts -/

/-- A contract as it was proposed: one value for each key. -/
structure LogicalContract where
  entries : List (String × AuthorityValue)
  distinct : (entries.map Prod.fst).Nodup

/-- The entries of one key, as the `pic` crate flattens them. -/
def denormaliseEntry (entry : String × AuthorityValue) : List (String × TupleValue) :=
  match entry.2 with
  | .one value => [(entry.1, .text value)]
  | .many members => members.map fun m => (entry.1 ++ ":" ++ m, .membership true)

def LogicalContract.denormalise (contract : LogicalContract) : List (String × TupleValue) :=
  contract.entries.flatMap denormaliseEntry

/-- The claim under a key is a text, or a collection with the text in it. -/
def Discloses (claims : Map Value) (key required : String) : Prop :=
  ∃ disclosed, claims.lookup key = some disclosed ∧
    (disclosed = .string required ∨ ∃ values, disclosed = .array values ∧ .string required ∈ values)

/-- The texts an entry asks for under its key. -/
def required : AuthorityValue → List String
  | .one value => [value]
  | .many members => members

/-- The disclosed claims satisfy every entry of the contract. -/
def LogicalContract.Conforms (contract : LogicalContract) (claims : Map Value) : Prop :=
  ∀ entry ∈ contract.entries, ∀ text ∈ required entry.2, Discloses claims entry.1 text

/-- The check says of every map of claims what the contract means. -/
def Faithful (c : Crates) (contract : LogicalContract) : Prop :=
  ∀ claims, checkContract c claims contract.denormalise = .ok () ↔ contract.Conforms claims

/-- No collection that has members is under a key with a colon. -/
def LogicalContract.Unambiguous (contract : LogicalContract) : Prop :=
  ∀ key members, (key, AuthorityValue.many members) ∈ contract.entries → members ≠ [] →
    ':' ∉ key.toList

/-! ## The check -/

variable {c : Crates} {claims claims' : Map Value} {key text : String} {disclosed : Value}
  {contract : List (String × TupleValue)}

theorem matchesText_eq_true : matchesText disclosed text = true ↔
    disclosed = .string text ∨ ∃ values, disclosed = .array values ∧ .string text ∈ values := by
  cases disclosed with
  | string value => simp [matchesText]
  | array values => simp [matchesText, Value.asStr_eq_some]
  | null => simp [matchesText]
  | bool b => simp [matchesText]
  | number n => simp [matchesText]
  | object members => simp [matchesText]

/-- What the check reads of an entry: the claim it consults, and the text it looks for there. -/
def consults : String × TupleValue → Option (String × String)
  | (key, .text value) => some (key, value)
  | (key, .membership _) => splitOnce ':' key

theorem disclosed_ok {name : String} {missing : Mismatch} {contradicts : Value → Mismatch} :
    (okOr (claims.lookup name) missing >>= fun disclosed =>
      ensure (matchesText disclosed text) (contradicts disclosed)) = .ok () ↔
        Discloses claims name text := by
  simp only [bind_ok, okOr_ok, ensure_ok, matchesText_eq_true]
  rfl

/-- **What the check asks of one entry.** -/
theorem checkEntry_ok {value : TupleValue} : checkEntry c claims key value = .ok () ↔
    ∃ name text, consults (key, value) = some (name, text) ∧ Discloses claims name text := by
  cases value with
  | text value =>
    rw [checkEntry, disclosed_ok]
    constructor
    · intro h
      exact ⟨key, value, rfl, h⟩
    · intro ⟨name, text, hconsults, h⟩
      cases hconsults
      exact h
  | membership b =>
    rw [checkEntry]
    cases hsplit : splitOnce ':' key with
    | none => simp [consults, hsplit]
    | some pair =>
      obtain ⟨name, text⟩ := pair
      dsimp only
      unfold containsMember
      rw [disclosed_ok]
      constructor
      · intro h
        exact ⟨name, text, hsplit, h⟩
      · intro ⟨name', text', hconsults, h⟩
        rw [consults, hsplit] at hconsults
        cases hconsults
        exact h

theorem checkContract_ok : checkContract c claims contract = .ok () ↔
    ∀ entry ∈ contract, checkEntry c claims entry.1 entry.2 = .ok () := by
  induction contract with
  | nil => simp [checkContract, pure_ok]
  | cons entry rest ih =>
    obtain ⟨key, value⟩ := entry
    rw [checkContract, bind_ok, List.forall_mem_cons, ← ih]
    constructor
    · intro ⟨_, hentry, hrest⟩
      exact ⟨hentry, hrest⟩
    · intro ⟨hentry, hrest⟩
      exact ⟨(), hentry, hrest⟩

theorem checkContract_ok_iff : checkContract c claims contract = .ok () ↔
    ∀ entry ∈ contract, ∃ name text, consults entry = some (name, text) ∧
      Discloses claims name text := by
  rw [checkContract_ok]
  exact forall₂_congr fun entry _ => checkEntry_ok

/-! ## More claims, more entries -/

theorem Discloses.mono (h : Discloses claims key text)
    (hmore : ∀ name value, claims.lookup name = some value → claims'.lookup name = some value) :
    Discloses claims' key text := by
  obtain ⟨disclosed, hlookup, hdisclosed⟩ := h
  exact ⟨disclosed, hmore key disclosed hlookup, hdisclosed⟩

theorem checkContract_more_claims
    (hmore : ∀ name value, claims.lookup name = some value → claims'.lookup name = some value)
    (h : checkContract c claims contract = .ok ()) : checkContract c claims' contract = .ok () := by
  rw [checkContract_ok_iff] at h ⊢
  intro entry hentry
  obtain ⟨name, text, hconsults, hdiscloses⟩ := h entry hentry
  exact ⟨name, text, hconsults, hdiscloses.mono hmore⟩

theorem checkContract_more_entries {more : List (String × TupleValue)} (hsub : contract ⊆ more)
    (h : checkContract c claims more = .ok ()) : checkContract c claims contract = .ok () := by
  rw [checkContract_ok] at h ⊢
  intro entry hentry
  exact h entry (hsub hentry)

/-! ## Where the colon is -/

theorem consults_member (h : ':' ∉ key.toList) (b : Bool) :
    consults (key ++ ":" ++ text, .membership b) = some (key, text) :=
  splitOnce_append h text rfl

theorem exists_consults {contract : LogicalContract} {entry : String × TupleValue}
    (h : entry ∈ contract.denormalise) : ∃ name text, consults entry = some (name, text) := by
  obtain ⟨⟨key, value⟩, -, hentry⟩ := List.mem_flatMap.mp h
  cases value with
  | one value =>
    obtain rfl := List.mem_singleton.mp hentry
    exact ⟨key, value, rfl⟩
  | many members =>
    obtain ⟨m, -, rfl⟩ := List.mem_map.mp hentry
    exact splitOnce_isSome (by simp)

theorem notMem_of_consults {contract : LogicalContract} {entry : String × TupleValue}
    {name text : String} (h : entry ∈ contract.denormalise)
    (hconsults : consults entry = some (name, text)) :
    ':' ∉ name.toList ∨ (name, .one text) ∈ contract.entries := by
  obtain ⟨⟨key, value⟩, hmem, hentry⟩ := List.mem_flatMap.mp h
  cases value with
  | one value =>
    obtain rfl := List.mem_singleton.mp hentry
    cases hconsults
    exact Or.inr hmem
  | many members =>
    obtain ⟨m, -, rfl⟩ := List.mem_map.mp hentry
    exact Or.inl (notMem_of_splitOnce hconsults)

theorem faithful_of_unambiguous {contract : LogicalContract} (h : contract.Unambiguous) :
    Faithful c contract := by
  intro claims
  rw [checkContract_ok_iff]
  constructor
  · intro hall entry hentry text htext
    obtain ⟨key, value⟩ := entry
    cases value with
    | one value =>
      obtain rfl := List.mem_singleton.mp htext
      obtain ⟨name, text', hconsults, hdiscloses⟩ :=
        hall (key, .text text) (List.mem_flatMap.mpr ⟨_, hentry, List.mem_singleton_self _⟩)
      cases hconsults
      exact hdiscloses
    | many members =>
      have hplain := h key members hentry (List.ne_nil_of_mem htext)
      obtain ⟨name, text', hconsults, hdiscloses⟩ := hall (key ++ ":" ++ text, .membership true)
        (List.mem_flatMap.mpr ⟨_, hentry, List.mem_map.mpr ⟨text, htext, rfl⟩⟩)
      rw [consults_member hplain] at hconsults
      cases hconsults
      exact hdiscloses
  · intro hconforms entry hentry
    obtain ⟨⟨key, value⟩, hmem, hentry⟩ := List.mem_flatMap.mp hentry
    cases value with
    | one value =>
      obtain rfl := List.mem_singleton.mp hentry
      exact ⟨key, value, rfl, hconforms _ hmem value (List.mem_singleton_self _)⟩
    | many members =>
      obtain ⟨m, hm, rfl⟩ := List.mem_map.mp hentry
      exact ⟨key, m, consults_member (h key members hmem (List.ne_nil_of_mem hm)) true,
        hconforms _ hmem m hm⟩

/-! ## A map that satisfies the check alone -/

/-- Claims that say every text under every name that is asked for. -/
def saying (needs : List (String × String)) : Map Value :=
  insertAll ∅ (needs.map fun p => (p.1, .array (needs.map fun q => .string q.2)))

theorem lookup_saying {needs : List (String × String)} {name : String} {value : Value}
    (h : (saying needs).lookup name = some value) : name ∈ needs.map Prod.fst := by
  by_contra hnot
  rw [saying, lookup_insertAll_of_notMem (by simpa using hnot), Finmap.lookup_empty] at h
  cases h

theorem discloses_saying {needs : List (String × String)} {name text : String}
    (h : (name, text) ∈ needs) : Discloses (saying needs) name text := by
  have hlookup : (saying needs).lookup name = some (.array (needs.map fun q => .string q.2)) := by
    rw [saying, lookup_insertAll]
    cases hfind : (needs.map fun p =>
        (p.1, Value.array (needs.map fun q => .string q.2))).reverse.find?
          fun p => p.1 = name with
    | none =>
      rw [List.find?_eq_none] at hfind
      have hnot := hfind (name, .array (needs.map fun q => .string q.2))
        (List.mem_reverse.mpr (List.mem_map.mpr ⟨(name, text), h, rfl⟩))
      simp at hnot
    | some p =>
      obtain ⟨q, -, rfl⟩ := List.mem_map.mp (List.mem_reverse.mp (List.mem_of_find?_eq_some hfind))
      rfl
  refine ⟨_, hlookup, Or.inr ⟨_, rfl, List.mem_map.mpr ⟨(name, text), h, rfl⟩⟩⟩

/-- A collection under a key with a colon is not looked up there. -/
theorem unambiguous_of_faithful {contract : LogicalContract} (h : Faithful c contract) :
    contract.Unambiguous := by
  intro key members hentry hne hcolon
  obtain ⟨m, hm⟩ := List.exists_mem_of_ne_nil members hne
  let needs := contract.denormalise.filterMap consults
  have hcheck : checkContract c (saying needs) contract.denormalise = .ok () := by
    rw [checkContract_ok_iff]
    intro entry hin
    obtain ⟨name, text, hconsults⟩ := exists_consults hin
    exact ⟨name, text, hconsults, discloses_saying (List.mem_filterMap.mpr ⟨entry, hin, hconsults⟩)⟩
  obtain ⟨disclosed, hlookup, -⟩ := (h (saying needs)).mp hcheck _ hentry m hm
  obtain ⟨⟨name, text⟩, hneed, rfl⟩ := List.mem_map.mp (lookup_saying hlookup)
  obtain ⟨entry, hin, hconsults⟩ := List.mem_filterMap.mp hneed
  rcases notMem_of_consults hin hconsults with hplain | hone
  · exact hplain hcolon
  · -- A key has one value, so it is not also the key of a text.
    have heq := List.inj_on_of_nodup_map contract.distinct hentry hone rfl
    cases heq

/-- **Contract conformance is faithful to the logical contract** exactly when no collection with
members is under a key with a colon. For every contract, disclosing more claims keeps a success and
asking for more keeps a failure. -/
theorem conformance_faithful (c : Crates) (contract : LogicalContract) :
    (Faithful c contract ↔ contract.Unambiguous) ∧
    (∀ claims claims' : Map Value,
      (∀ name value, claims.lookup name = some value → claims'.lookup name = some value) →
      checkContract c claims contract.denormalise = .ok () →
      checkContract c claims' contract.denormalise = .ok ()) ∧
    ∀ (more : LogicalContract) (claims : Map Value), contract.entries ⊆ more.entries →
      checkContract c claims contract.denormalise ≠ .ok () →
      checkContract c claims more.denormalise ≠ .ok () := by
  refine ⟨⟨unambiguous_of_faithful, faithful_of_unambiguous⟩, ?_, ?_⟩
  · intro claims claims' hmore h
    exact checkContract_more_claims hmore h
  · intro more claims hsub hfails h
    refine hfails (checkContract_more_entries (fun entry hentry => ?_) h)
    obtain ⟨logical, hlogical, hin⟩ := List.mem_flatMap.mp hentry
    exact List.mem_flatMap.mpr ⟨logical, hsub hlogical, hin⟩

/-! ### A key that is a URN -/

/-- A collection of departments, under a key that is a URN. -/
def urnContract : LogicalContract where
  entries := [("urn:acme:departments", .many ["engineering"])]
  distinct := by decide

/-- The claim the contract asks for. -/
def urnClaims : Map Value :=
  insertAll ∅ [("urn:acme:departments", .array [.string "engineering"])]

/-- A workload that discloses exactly what the contract says is refused: the check looks for a
claim `urn`. -/
theorem urn_contract_refused : urnContract.Conforms urnClaims ∧
    checkContract testCrates urnClaims urnContract.denormalise =
      .error (.missing "urn" "acme:departments:engineering") := by
  have hsplit : splitOnce ':' "urn:acme:departments:engineering" =
      some ("urn", "acme:departments:engineering") := by decide
  have hlookup : urnClaims.lookup "urn" = none := by
    simp [urnClaims, insertAll, Finmap.lookup_insert_of_ne]
  constructor
  · intro entry hentry text htext
    obtain rfl := List.mem_singleton.mp hentry
    obtain rfl := List.mem_singleton.mp htext
    exact ⟨.array [.string "engineering"], by simp [urnClaims, insertAll],
      Or.inr ⟨_, rfl, List.mem_singleton_self _⟩⟩
  · show checkContract testCrates urnClaims
      [("urn:acme:departments:engineering", .membership true)] = _
    simp only [checkContract, checkEntry, hsplit, hlookup, okOr]
    rfl

end PicX.Realm
