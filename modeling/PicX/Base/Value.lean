import Mathlib.Data.Finmap
import PicX.Base.Text

/-!
# JSON values

A JSON value as a program handles it after parsing: numbers keep whether they fit a machine
integer, and an object is read through the map its members make, where the last member of a name
wins. Two maps with the same entries are equal, in whatever order these were inserted.
`Value.get`, `Value.asStr` and `Value.asI64` are how a program looks into a value.

* `lookup_insertAll`, `lookup_insertAll_iff` — what a map holds after inserting members.
* `Value.get_object` — the last member of a name is the one that is read.
-/

namespace PicX

/-- A map from texts. -/
abbrev Map (β : Type) := Finmap fun _ : String => β

/-- A number of a JSON text: a `u64`, a negative `i64`, or what only a float can hold. -/
inductive Number where
  | posInt (n : Nat)
  | negInt (n : Int)
  | float (value : Rat)
  deriving DecidableEq, Repr

def Number.asI64 : Number → Option Int
  | .posInt n => if n < 2 ^ 63 then some n else none
  | .negInt n => some n
  | .float _ => none

inductive Value where
  | null
  | bool (b : Bool)
  | number (n : Number)
  | string (s : String)
  | array (values : List Value)
  | object (members : List (String × Value))
  deriving Repr

/-! ## Inserting members -/

section Members

variable {β : Type} {m : Map β} {members : List (String × β)} {name : String} {b : β}

/-- A map with more members: a later member of a name replaces an earlier one. -/
def insertAll (m : Map β) (members : List (String × β)) : Map β :=
  members.foldl (fun m p => m.insert p.1 p.2) m

/-- The map some members make. -/
def ofMembers (members : List (String × β)) : Map β := insertAll ∅ members

theorem lookup_insertAll : (insertAll m members).lookup name =
    ((members.reverse.find? fun p => p.1 = name).map Prod.snd).or (m.lookup name) := by
  induction members generalizing m with
  | nil => rfl
  | cons p members ih =>
    show (insertAll (m.insert p.1 p.2) members).lookup name = _
    rw [ih, List.reverse_cons, List.find?_append]
    cases (members.reverse.find? fun p => p.1 = name) with
    | some q => rfl
    | none =>
      by_cases h : p.1 = name
      · subst h
        simp
      · simp [h, Finmap.lookup_insert_of_ne _ (Ne.symm h)]

theorem lookup_insertAll_of_notMem (h : name ∉ members.map Prod.fst) :
    (insertAll m members).lookup name = m.lookup name := by
  have hnone : (members.reverse.find? fun p => p.1 = name) = none := by
    rw [List.find?_eq_none]
    intro p hp
    have hmem : p.1 ∈ members.map Prod.fst := List.mem_map_of_mem (List.mem_reverse.mp hp)
    simpa using fun heq : p.1 = name => h (heq ▸ hmem)
  rw [lookup_insertAll, hnone]
  rfl

theorem lookup_insertAll_of_mem (hnodup : (members.map Prod.fst).Nodup)
    (h : (name, b) ∈ members) : (insertAll m members).lookup name = some b := by
  induction members generalizing m with
  | nil => simp at h
  | cons p members ih =>
    rw [List.map_cons, List.nodup_cons] at hnodup
    show (insertAll (m.insert p.1 p.2) members).lookup name = _
    rcases List.mem_cons.mp h with rfl | h
    · rw [lookup_insertAll_of_notMem hnodup.1, Finmap.lookup_insert]
    · exact ih hnodup.2 h

/-- Under new names, members are added and nothing else changes. -/
theorem lookup_insertAll_iff (hnodup : (members.map Prod.fst).Nodup)
    (hfresh : ∀ p ∈ members, p.1 ∉ m) :
    (insertAll m members).lookup name = some b ↔ m.lookup name = some b ∨ (name, b) ∈ members := by
  by_cases h : name ∈ members.map Prod.fst
  · obtain ⟨p, hp, rfl⟩ := List.mem_map.mp h
    have hnone : m.lookup p.1 = none := Finmap.lookup_eq_none.mpr (hfresh p hp)
    have hsome : (insertAll m members).lookup p.1 = some p.2 := lookup_insertAll_of_mem hnodup hp
    rw [hsome, hnone]
    constructor
    · intro heq
      obtain rfl := Option.some.inj heq
      exact Or.inr hp
    · intro hor
      have hmem := hor.resolve_left (by simp)
      rw [← hsome, lookup_insertAll_of_mem hnodup hmem]
  · rw [lookup_insertAll_of_notMem h]
    constructor
    · exact Or.inl
    · intro hor
      exact hor.resolve_right fun hmem => h (List.mem_map_of_mem hmem)

theorem lookup_ofMembers : (ofMembers members).lookup name =
    (members.reverse.find? fun p => p.1 = name).map Prod.snd := by
  rw [ofMembers, lookup_insertAll, Finmap.lookup_empty, Option.or_none]

end Members

namespace Value

def asStr : Value → Option String
  | .string s => some s
  | _ => none

def asI64 : Value → Option Int
  | .number n => n.asI64
  | _ => none

def asArray : Value → Option (List Value)
  | .array values => some values
  | _ => none

def asObject : Value → Option (Map Value)
  | .object members => some (ofMembers members)
  | _ => none

/-- A member of an object; nothing else has members. -/
def get (v : Value) (name : String) : Option Value := v.asObject.bind fun m => m.lookup name

/-- The text a member holds. -/
def getStr (v : Value) (name : String) : Option String := (v.get name).bind asStr

theorem asStr_eq_some {v : Value} {s : String} : v.asStr = some s ↔ v = .string s := by
  cases v <;> simp [asStr]

theorem asArray_eq_some {v : Value} {values : List Value} :
    v.asArray = some values ↔ v = .array values := by
  cases v <;> simp [asArray]

theorem getStr_eq_some {v : Value} {name s : String} :
    v.getStr name = some s ↔ v.get name = some (.string s) := by
  simp [getStr, Option.bind_eq_some_iff, asStr_eq_some]

/-- The member of an object literal. -/
theorem get_object {members : List (String × Value)} {name : String} :
    (object members).get name = (members.reverse.find? fun p => p.1 = name).map Prod.snd :=
  lookup_ofMembers

end Value

/-! ## Signed 64-bit numbers -/

/-- The `i64` with the bits of a number (`as i64`). -/
def toI64 (n : Nat) : Int := (n : Int).bmod (2 ^ 64)

/-- `i64::checked_add`. -/
def checkedAddI64 (a b : Int) : Option Int :=
  if -2 ^ 63 ≤ a + b ∧ a + b < 2 ^ 63 then some (a + b) else none

end PicX
