import Mathlib.Data.List.Basic
import Mathlib.Tactic.SplitIfs
import PicX.Base.Text

/-!
# Compact JSON

Writers for the pieces a JSON text is made of, and readers that undo them: literals, strings with
their escapes, natural numbers, and members that are left out when there is nothing to write.
Every reader takes what its writer wrote from the front of a text and leaves the rest.

* `readString_writeString`, `readNat_writeNat`, `readOptional_writeOptional` — the round trips.
* `oneLine_writeString` — a written string has no control characters.
* `Settled` — a reader that found its value finds the same one when the text goes on
  (`readString_more`, `readNat_more`, `readOptional_more`).
-/

namespace PicX.Json

open PicX

variable {α β : Type}

theorem some_bind (a : α) (k : α → Option β) : (some a >>= k) = k a := rfl

/-! ## Literals -/

/-- Take a literal from the front of a text. -/
def expect (lit s : List Char) : Option (List Char) :=
  if lit.isPrefixOf s then some (s.drop lit.length) else none

theorem expect_append (lit s : List Char) : expect lit (lit ++ s) = some s := by
  simp [expect]

theorem expect_bind (lit s : List Char) (k : List Char → Option β) :
    (expect lit (lit ++ s) >>= k) = k s := by
  rw [expect_append, some_bind]

/-- Two literals neither of which starts with the other. -/
def Diverge (lit lit' : List Char) : Prop := ¬lit <+: lit' ∧ ¬lit' <+: lit

instance (lit lit' : List Char) : Decidable (Diverge lit lit') :=
  inferInstanceAs (Decidable (_ ∧ _))

theorem expect_of_diverge {lit lit' : List Char} (h : Diverge lit lit') (s : List Char) :
    expect lit (lit' ++ s) = none := by
  rw [expect, if_neg]
  rw [List.isPrefixOf_iff_prefix]
  intro hpre
  rcases List.prefix_or_prefix_of_prefix hpre (List.prefix_append lit' s) with h' | h'
  · exact h.1 h'
  · exact h.2 h'

/-! ## Strings -/

/-- A character inside a string. -/
def escape (ch : Char) : List Char :=
  if ch = '"' then ['\\', '"']
  else if ch = '\\' then ['\\', '\\']
  else if ch = '\x08' then ['\\', 'b']
  else if ch = '\t' then ['\\', 't']
  else if ch = '\n' then ['\\', 'n']
  else if ch = '\x0c' then ['\\', 'f']
  else if ch = '\r' then ['\\', 'r']
  else if ch.toNat < 0x20 then
    ['\\', 'u', '0', '0', Nat.digitChar (ch.toNat / 16), Nat.digitChar (ch.toNat % 16)]
  else [ch]

def writeString (s : String) : List Char := '"' :: s.toList.flatMap escape ++ ['"']

/-- The value of a lowercase hex digit. -/
def hexValue (ch : Char) : Nat :=
  if ch.isDigit then ch.toNat - '0'.toNat else ch.toNat - 'a'.toNat + 10

/-- The character a one-letter escape stands for. -/
def unescape (ch : Char) : Option Char :=
  if ch = '"' ∨ ch = '\\' ∨ ch = '/' then some ch
  else if ch = 'b' then some '\x08'
  else if ch = 't' then some '\t'
  else if ch = 'n' then some '\n'
  else if ch = 'f' then some '\x0c'
  else if ch = 'r' then some '\r'
  else none

/-- The characters up to the closing quote. -/
def readChars : List Char → Option (List Char × List Char)
  | [] => none
  | '"' :: s => some ([], s)
  | '\\' :: 'u' :: '0' :: '0' :: a :: b :: s =>
    (readChars s).map fun r => (Char.ofNat (hexValue a * 16 + hexValue b) :: r.1, r.2)
  | '\\' :: ch :: s => (unescape ch).bind fun ch => (readChars s).map fun r => (ch :: r.1, r.2)
  | ch :: s => if ch.toNat < 0x20 then none else (readChars s).map fun r => (ch :: r.1, r.2)

def readString : List Char → Option (String × List Char)
  | '"' :: s => (readChars s).map fun r => (String.ofList r.1, r.2)
  | _ => none

theorem hexValue_digitChar : ∀ n < 16, hexValue (Nat.digitChar n) = n := by decide

theorem readChars_escape (ch : Char) (s : List Char) :
    readChars (escape ch ++ s) = (readChars s).map fun r => (ch :: r.1, r.2) := by
  unfold escape
  split_ifs with h1 h2 h3 h4 h5 h6 h7 h8
  · subst h1; simp [readChars, unescape]
  · subst h2; simp [readChars, unescape]
  · subst h3; simp [readChars, unescape]
  · subst h4; simp [readChars, unescape]
  · subst h5; simp [readChars, unescape]
  · subst h6; simp [readChars, unescape]
  · subst h7; simp [readChars, unescape]
  · have hval : Char.ofNat (hexValue (Nat.digitChar (ch.toNat / 16)) * 16 +
        hexValue (Nat.digitChar (ch.toNat % 16))) = ch := by
      rw [hexValue_digitChar _ (by omega), hexValue_digitChar _ (by omega), Nat.div_add_mod']
      exact Char.ofNat_toNat ch
    simp only [List.cons_append, List.nil_append, readChars, hval]
  · rw [List.cons_append, List.nil_append, readChars]
    · rw [if_neg h8]
    all_goals simp_all

theorem readChars_flatMap (cs : List Char) (s : List Char) :
    readChars (cs.flatMap escape ++ '"' :: s) = some (cs, s) := by
  induction cs with
  | nil => simp [readChars]
  | cons ch cs ih => rw [List.flatMap_cons, List.append_assoc, readChars_escape, ih]; rfl

theorem readString_writeString (t : String) (s : List Char) :
    readString (writeString t ++ s) = some (t, s) := by
  simp [writeString, readString, readChars_flatMap]

theorem readString_bind (t : String) (s : List Char) (k : String × List Char → Option β) :
    (readString (writeString t ++ s) >>= k) = k (t, s) := by
  rw [readString_writeString, some_bind]

theorem oneLine_escape (ch : Char) : ∀ b ∈ escape ch, 0x20 ≤ b.toNat := by
  have hdigit : ∀ n < 16, 0x20 ≤ (Nat.digitChar n).toNat := by decide
  unfold escape
  split_ifs with h1 h2 h3 h4 h5 h6 h7 h8
  iterate 7 simp
  · simp only [List.forall_mem_cons]
    exact ⟨by decide, by decide, by decide, by decide, hdigit _ (by omega), hdigit _ (by omega),
      by simp⟩
  · simpa using h8

theorem oneLine_writeString (t : String) : ∀ ch ∈ writeString t, 0x20 ≤ ch.toNat := by
  intro ch h
  simp only [writeString, List.cons_append, List.mem_cons, List.mem_append, List.mem_flatMap,
    List.not_mem_nil, or_false] at h
  rcases h with rfl | ⟨a, -, ha⟩ | rfl
  · decide
  · exact oneLine_escape a ch ha
  · decide

/-! ## Numbers -/

def writeNat (n : Nat) : List Char := Nat.toDigits 10 n

def readNat (s : List Char) : Option (Nat × List Char) :=
  (parseDigits (s.takeWhile Char.isDigit)).map fun n => (n, s.dropWhile Char.isDigit)

/-- A number ends where the text goes on with something that is not a digit. -/
theorem readNat_writeNat (n : Nat) (ch : Char) (s : List Char) (h : ch.isDigit = false) :
    readNat (writeNat n ++ ch :: s) = some (n, ch :: s) := by
  have hall : ∀ d ∈ writeNat n, Char.isDigit d = true := fun d hd =>
    Nat.isDigit_of_mem_toDigits (by decide) (by decide) hd
  have hp : parseDigits (Nat.toDigits 10 n) = some n := by
    simpa [padded] using parseDigits_padded 0 n
  rw [readNat, List.takeWhile_append_of_pos hall, List.dropWhile_append_of_pos hall]
  simp [h, hp, writeNat]

theorem oneLine_writeNat (n : Nat) : ∀ ch ∈ writeNat n, 0x20 ≤ ch.toNat := by
  intro ch hch
  have : ch.isDigit := Nat.isDigit_of_mem_toDigits (by decide) (by decide) hch
  simp only [Char.isDigit, Bool.and_eq_true, decide_eq_true_eq] at this
  exact Nat.le_trans (by decide) (UInt32.le_iff_toNat_le.mp this.1)

/-! ## Members that may be left out -/

def writeOptional (lit : List Char) (write : α → List Char) : Option α → List Char
  | none => []
  | some a => lit ++ write a

def readOptional (lit : List Char) (read : List Char → Option (α × List Char)) (s : List Char) :
    Option (Option α × List Char) :=
  match expect lit s with
  | none => some (none, s)
  | some s => (read s).map fun r => (some r.1, r.2)

theorem readOptional_writeOptional {lit : List Char} {write : α → List Char}
    {read : List Char → Option (α × List Char)} {s : List Char}
    (hread : ∀ a, read (write a ++ s) = some (a, s)) (hnone : expect lit s = none) (o : Option α) :
    readOptional lit read (writeOptional lit write o ++ s) = some (o, s) := by
  cases o with
  | none => simp [writeOptional, readOptional, hnone]
  | some a =>
    rw [writeOptional, List.append_assoc, readOptional, expect_append]
    simp [hread]

theorem expect_writeOptional {lit lit' : List Char} (h : Diverge lit lit') {write : α → List Char}
    {s : List Char} (hs : expect lit s = none) (o : Option α) :
    expect lit (writeOptional lit' write o ++ s) = none := by
  cases o with
  | none => exact hs
  | some a =>
    rw [writeOptional, List.append_assoc]
    exact expect_of_diverge h _

theorem oneLine_writeOptional {lit : List Char} {write : α → List Char}
    (hlit : ∀ ch ∈ lit, 0x20 ≤ ch.toNat) (hwrite : ∀ a, ∀ ch ∈ write a, 0x20 ≤ ch.toNat)
    (o : Option α) : ∀ ch ∈ writeOptional lit write o, 0x20 ≤ ch.toNat := by
  cases o with
  | none => simp [writeOptional]
  | some a =>
    intro ch h
    rcases List.mem_append.mp h with h | h
    · exact hlit ch h
    · exact hwrite a ch h

/-! ## Texts that go on -/

theorem expect_eq_some {lit s rest : List Char} (h : expect lit s = some rest) :
    s = lit ++ rest := by
  unfold expect at h
  split_ifs at h with hlit
  obtain ⟨t, rfl⟩ := List.isPrefixOf_iff_prefix.mp hlit
  obtain rfl : t = rest := by simpa using h
  rfl

/-- A reader that found its value finds the same one when the text goes on. -/
def Settled (read : List Char → Option (α × List Char)) : Prop :=
  ∀ {s a rest}, read s = some (a, rest) → ∀ t, read (s ++ t) = some (a, rest ++ t)

theorem expect_more {lit s rest : List Char} (h : expect lit s = some rest) (t : List Char) :
    expect lit (s ++ t) = some (rest ++ t) := by
  rw [expect_eq_some h, List.append_assoc, expect_append]

theorem readChars_more (s : List Char) : ∀ {cs rest}, readChars s = some (cs, rest) → ∀ t,
    readChars (s ++ t) = some (cs, rest ++ t) := by
  fun_induction readChars s with
  | case1 => simp
  | case2 s =>
    intro cs rest h t
    simp only [Option.some.injEq, Prod.mk.injEq] at h
    obtain ⟨rfl, rfl⟩ := h
    simp [readChars]
  | case3 a b s ih =>
    intro cs rest h t
    obtain ⟨⟨cs', rest'⟩, hr, heq⟩ := Option.map_eq_some_iff.mp h
    simp only [Prod.mk.injEq] at heq
    obtain ⟨rfl, rfl⟩ := heq
    simp [readChars, ih hr t]
  | case4 ch s hne ih =>
    intro cs rest h t
    obtain ⟨ch', hch, h⟩ := Option.bind_eq_some_iff.mp h
    obtain ⟨⟨cs', rest'⟩, hr, heq⟩ := Option.map_eq_some_iff.mp h
    simp only [Prod.mk.injEq] at heq
    obtain ⟨rfl, rfl⟩ := heq
    have hu : ch ≠ 'u' := by
      rintro rfl
      simp [unescape] at hch
    rw [List.cons_append, List.cons_append, readChars]
    · simp [hch, ih hr t]
    · rintro a b s' rfl
      exact absurd rfl hu
  | case5 ch s h1 h2 h3 h4 =>
    intro cs rest h t
    simp at h
  | case6 ch s h1 h2 h3 hlow ih =>
    intro cs rest h t
    obtain ⟨⟨cs', rest'⟩, hr, heq⟩ := Option.map_eq_some_iff.mp h
    simp only [Prod.mk.injEq] at heq
    obtain ⟨rfl, rfl⟩ := heq
    have hback : ch ≠ '\\' := by
      rintro rfl
      cases s with
      | nil => simp [readChars] at hr
      | cons ch' s' => exact h3 ch' s' rfl rfl
    rw [List.cons_append, readChars]
    · simp [hlow, ih hr t]
    · exact h1
    · exact fun _ _ _ heq _ => hback heq
    · exact fun _ _ heq _ => hback heq

theorem readString_more : Settled readString := by
  intro s a rest h t
  unfold readString at h
  split at h
  · rename_i s
    obtain ⟨⟨cs, rest'⟩, hr, heq⟩ := Option.map_eq_some_iff.mp h
    simp only [Prod.mk.injEq] at heq
    obtain ⟨rfl, rfl⟩ := heq
    simp [readString, readChars_more s hr t]
  · simp at h

theorem readNat_more {s rest : List Char} {n : Nat} {ch : Char}
    (h : readNat s = some (n, ch :: rest)) (t : List Char) :
    readNat (s ++ t) = some (n, ch :: rest ++ t) := by
  unfold readNat at h ⊢
  obtain ⟨n', hn, heq⟩ := Option.map_eq_some_iff.mp h
  obtain ⟨rfl, hdrop⟩ := Prod.mk.injEq _ _ _ _ ▸ heq
  have hlength : (s.takeWhile Char.isDigit).length ≠ s.length := by
    have hsplit :=
      congrArg List.length (List.takeWhile_append_dropWhile (p := Char.isDigit) (l := s))
    rw [List.length_append, hdrop, List.length_cons] at hsplit
    omega
  rw [List.takeWhile_append, if_neg hlength, List.dropWhile_append, hdrop, hn]
  rfl

/-- A text that opens with one of these literals. -/
def Opens (lits : List (List Char)) (s : List Char) : Prop := ∃ lit ∈ lits, ∃ rest, s = lit ++ rest

theorem opens_of_expect {lit s rest : List Char} (h : expect lit s = some rest) : Opens [lit] s :=
  ⟨lit, List.mem_singleton_self lit, rest, expect_eq_some h⟩

/-- A member that may be missing, before what opens with one of `lits`: with it or without it. -/
theorem readOptional_opens {lits : List (List Char)} {lit : List Char}
    {read : List Char → Option (α × List Char)} {s rest : List Char} {o : Option α}
    (h : readOptional lit read s = some (o, rest)) (hrest : Opens lits rest) :
    Opens (lit :: lits) s := by
  unfold readOptional at h
  cases hlit : expect lit s with
  | none =>
    rw [hlit] at h
    obtain ⟨-, rfl⟩ := Prod.mk.inj (Option.some.inj h)
    obtain ⟨lit', hmem, rest', heq⟩ := hrest
    exact ⟨lit', List.mem_cons_of_mem lit hmem, rest', heq⟩
  | some s' => exact ⟨lit, List.mem_cons_self, s', expect_eq_some hlit⟩

/-- A member that is missing is still missing when the text goes on, as what opens the rest cannot
be it. -/
theorem readOptional_more {lits : List (List Char)} {lit : List Char}
    {read : List Char → Option (α × List Char)} (hread : Settled read) {s rest : List Char}
    {o : Option α} (h : readOptional lit read s = some (o, rest)) (hrest : Opens lits rest)
    (hdiverge : ∀ lit' ∈ lits, Diverge lit lit') (t : List Char) :
    readOptional lit read (s ++ t) = some (o, rest ++ t) := by
  unfold readOptional at h ⊢
  cases hlit : expect lit s with
  | none =>
    rw [hlit] at h
    obtain ⟨rfl, rfl⟩ := Prod.mk.inj (Option.some.inj h)
    obtain ⟨lit', hmem, rest', rfl⟩ := hrest
    rw [List.append_assoc, expect_of_diverge (hdiverge lit' hmem)]
  | some s' =>
    rw [hlit] at h
    obtain ⟨⟨a, rest'⟩, hr, heq⟩ := Option.map_eq_some_iff.mp h
    obtain ⟨rfl, rfl⟩ := Prod.mk.inj heq
    rw [expect_more hlit]
    simp [hread hr]

end PicX.Json
