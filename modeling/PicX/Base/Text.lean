import Mathlib.Algebra.Group.Nat.Defs
import Mathlib.Data.List.Basic

/-!
# Text as bytes, lines and digits

A file is a list of bytes; a program reads it as lines of UTF-8 text. `chunks` cuts the bytes
after every line feed and `lineOf` decodes one piece and drops its line ending, so a text without
control characters comes back whole from the file it was appended to (`lines_text`). What comes
after a text in a longer one is a text of its own (`exists_append_of_utf8`).

Decimal numbers are written with leading zeroes up to a width (`padded`), read back by `parseDigits`
and ordered as their texts (`padded_lt`). Bytes are written as lowercase hex (`hex_injective`).
-/

namespace PicX

/-- The bytes of a file or of a message. -/
abbrev Bytes := List UInt8

/-! ## UTF-8 -/

/-- The bytes of a text. -/
def utf8 (s : String) : Bytes := s.toList.flatMap String.utf8EncodeChar

/-- The text of a sequence of bytes, when it is UTF-8. -/
def fromUtf8 (b : Bytes) : Option String :=
  (ByteArray.mk b.toArray).utf8Decode?.map fun cs => String.ofList cs.toList

theorem utf8_toArray (s : String) : ByteArray.mk (utf8 s).toArray = s.toList.utf8Encode := by
  apply ByteArray.ext
  simp [utf8, List.utf8Encode]

theorem fromUtf8_utf8 (s : String) : fromUtf8 (utf8 s) = some s := by
  simp [fromUtf8, utf8_toArray, -String.utf8Encode_toList]

theorem utf8_injective : Function.Injective utf8 := fun s t h => by
  have := congrArg fromUtf8 h
  simpa [fromUtf8_utf8] using this

@[simp] theorem utf8_append (s t : String) : utf8 (s ++ t) = utf8 s ++ utf8 t := by
  simp [utf8]

theorem utf8_of_fromUtf8 {b : Bytes} {s : String} (h : fromUtf8 b = some s) : utf8 s = b := by
  unfold fromUtf8 at h
  obtain ⟨cs, hcs, rfl⟩ := Option.map_eq_some_iff.mp h
  have hsome : (ByteArray.mk b.toArray).utf8Decode?.isSome := by simp [hcs]
  have henc := ByteArray.utf8Encode_get_utf8Decode? (b := ByteArray.mk b.toArray) (h := hsome)
  have hget : (ByteArray.mk b.toArray).utf8Decode?.get hsome = cs := by simp [hcs]
  rw [hget, ← String.toList_ofList (l := cs.toList), ← utf8_toArray] at henc
  have := congrArg (fun a : ByteArray => a.data.toList) henc
  simpa using this

/-- What comes after a text in UTF-8 is UTF-8. -/
theorem exists_append_of_utf8 {s t : String} {r : Bytes} (h : utf8 t = utf8 s ++ r) :
    ∃ u, t = s ++ u := by
  have hvalid : ∀ (l : List Char) (b : ByteArray), (l.utf8Encode ++ b).IsValidUTF8 →
      b.IsValidUTF8 := by
    intro l
    induction l with
    | nil => intro b hb; simpa using hb
    | cons ch l ih =>
      intro b hb
      rw [← List.singleton_append, List.utf8Encode_append, ByteArray.append_assoc,
        ByteArray.isValidUTF8_utf8Encode_singleton_append_iff] at hb
      exact ih b hb
  have hr : (ByteArray.mk r.toArray).IsValidUTF8 := by
    refine hvalid s.toList _ ?_
    have : s.toList.utf8Encode ++ ByteArray.mk r.toArray = t.toList.utf8Encode := by
      rw [← utf8_toArray, ← utf8_toArray, h]
      apply ByteArray.ext
      simp
    rw [this]
    exact ByteArray.isValidUTF8_utf8Encode
  obtain ⟨l, hl⟩ := hr
  refine ⟨String.ofList l, utf8_injective ?_⟩
  have hu := utf8_toArray (String.ofList l)
  rw [String.toList_ofList, ← hl] at hu
  have hr : utf8 (String.ofList l) = r := by
    simpa using congrArg (fun a : ByteArray => a.data.toList) hu
  rw [utf8_append, h, hr]

theorem length_utf8_le (l : List Char) : (utf8 (String.ofList l)).length ≤ 4 * l.length := by
  rw [utf8, String.toList_ofList]
  induction l with
  | nil => simp
  | cons ch l ih =>
    have hch : (String.utf8EncodeChar ch).length ≤ 4 := by
      rw [String.length_utf8EncodeChar]
      exact Char.utf8Size_le_four ch
    rw [List.flatMap_cons, List.length_append, List.length_cons]
    omega

/-- An ASCII byte encodes the character with its number, and no other. -/
theorem toNat_of_mem_utf8EncodeChar {c : Char} {b : UInt8} (hb : b < 128)
    (h : b ∈ String.utf8EncodeChar c) : c.toNat = b.toNat := by
  have hb' : b.toNat < 128 := hb
  show c.val.toNat = b.toNat
  unfold String.utf8EncodeChar at h
  dsimp only at h
  split_ifs at h <;>
    simp only [List.mem_cons, List.not_mem_nil, or_false, ← UInt8.toNat_inj,
      UInt8.toNat_ofNat'] at h <;> omega

/-- A text without an ASCII character has no byte with its number. -/
theorem byte_notMem_utf8 {s : String} {ch : Char} {b : UInt8} (hb : b < 128)
    (hch : ch.toNat = b.toNat) (h : ch ∉ s.toList) : b ∉ utf8 s := by
  intro hmem
  obtain ⟨c, hc, hbyte⟩ := List.mem_flatMap.mp hmem
  have heq : c = ch := Char.toNat_inj.mp ((toNat_of_mem_utf8EncodeChar hb hbyte).trans hch.symm)
  exact h (heq ▸ hc)

/-- A text without the bytes of a character does not have it. -/
theorem notMem_of_byte_notMem {s : String} {ch : Char} {b : UInt8}
    (hch : b ∈ String.utf8EncodeChar ch) (h : b ∉ utf8 s) : ch ∉ s.toList :=
  fun hmem => h (List.mem_flatMap.mpr ⟨ch, hmem, hch⟩)

theorem lineFeed_notMem_utf8 {s : String} (h : '\n' ∉ s.toList) : (10 : UInt8) ∉ utf8 s :=
  byte_notMem_utf8 (by decide) rfl h

/-! ## Lines -/

/-- The pieces of a file, each ending with its line feed; the last one may have none. -/
def chunks : Bytes → List Bytes
  | [] => []
  | b :: bs =>
    if b = 10 then [b] :: chunks bs
    else match chunks bs with
      | [] => [[b]]
      | c :: cs => (b :: c) :: cs

/-- A text without the line feed, or the carriage return and line feed, that ends it. -/
def dropLineEnding (s : String) : String :=
  match s.toList.reverse with
  | '\n' :: '\r' :: cs => String.ofList cs.reverse
  | '\n' :: cs => String.ofList cs.reverse
  | _ => s

/-- One line of a file, `none` when it is not UTF-8. -/
def lineOf (chunk : Bytes) : Option String := (fromUtf8 chunk).map dropLineEnding

/-- The lines of a file. -/
def lines (b : Bytes) : List (Option String) := (chunks b).map lineOf

/-- A text that holds no control character, so it stays on one line. -/
def OneLine (s : String) : Prop := ∀ c ∈ s.toList, 0x20 ≤ c.toNat

theorem OneLine.notMem {s : String} (h : OneLine s) {c : Char} (hc : c.toNat < 0x20) :
    c ∉ s.toList := fun hmem => by
  have := h c hmem
  omega

theorem chunks_append {l : Bytes} (h : (10 : UInt8) ∉ l) (rest : Bytes) :
    chunks (l ++ 10 :: rest) = (l ++ [10]) :: chunks rest := by
  induction l with
  | nil => simp [chunks]
  | cons b l ih =>
    simp only [List.mem_cons, not_or] at h
    rw [List.cons_append, chunks, if_neg (Ne.symm h.1), ih h.2]
    rfl

theorem chunks_of_notMem {l : Bytes} (h : (10 : UInt8) ∉ l) (hne : l ≠ []) : chunks l = [l] := by
  induction l with
  | nil => exact absurd rfl hne
  | cons b l ih =>
    simp only [List.mem_cons, not_or] at h
    rw [chunks, if_neg (Ne.symm h.1)]
    cases l with
    | nil => rfl
    | cons b' l => rw [ih h.2 (by simp)]

theorem dropLineEnding_append {s : String} (h : s.toList.getLast? ≠ some '\r') :
    dropLineEnding (s ++ "\n") = s := by
  have hs : (s ++ "\n").toList.reverse = '\n' :: s.toList.reverse := by simp
  unfold dropLineEnding
  rw [hs]
  split
  · next cs heq =>
    have hlast : s.toList.getLast? = some '\r' := by
      rw [← List.head?_reverse, (List.cons.inj heq).2]
      rfl
    exact absurd hlast h
  · next cs _ heq =>
    rw [← (List.cons.inj heq).2]
    simp
  · next h₁ h₂ => exact absurd rfl (h₂ s.toList.reverse)

theorem dropLineEnding_newline {s : String} (h : OneLine s) : dropLineEnding (s ++ "\n") = s := by
  apply dropLineEnding_append
  intro hlast
  exact h.notMem (by decide) (List.mem_of_getLast? hlast)

theorem dropLineEnding_of_oneLine {s : String} (h : OneLine s) : dropLineEnding s = s := by
  have hn : '\n' ∉ s.toList := h.notMem (by decide)
  unfold dropLineEnding
  split
  · next cs heq => exact absurd (by rw [← List.mem_reverse, heq]; exact List.mem_cons_self) hn
  · next cs _ heq => exact absurd (by rw [← List.mem_reverse, heq]; exact List.mem_cons_self) hn
  · rfl

/-- A line that was appended to a file reads back as it was. -/
theorem lines_text {s : String} (h : OneLine s) (rest : Bytes) :
    lines (utf8 s ++ 10 :: rest) = some s :: lines rest := by
  have hnl : (10 : UInt8) ∉ utf8 s := lineFeed_notMem_utf8 (h.notMem (by decide))
  have hbytes : utf8 s ++ [10] = utf8 (s ++ "\n") := by
    rw [utf8_append]
    rfl
  rw [lines, chunks_append hnl, List.map_cons, lineOf, hbytes, fromUtf8_utf8, Option.map_some,
    dropLineEnding_newline h]
  rfl

/-- A last line without its line feed reads back too. -/
theorem lines_unterminated {s : String} (h : OneLine s) (hne : s ≠ "") :
    lines (utf8 s) = [some s] := by
  have hnl : (10 : UInt8) ∉ utf8 s := lineFeed_notMem_utf8 (h.notMem (by decide))
  have hne' : utf8 s ≠ [] := fun h0 => hne (utf8_injective (h0.trans (by rfl : [] = utf8 "")))
  rw [lines, chunks_of_notMem hnl hne', List.map_singleton, lineOf, fromUtf8_utf8,
    Option.map_some, dropLineEnding_of_oneLine h]

/-- The characters Unicode calls white space. -/
def isWhitespace (c : Char) : Bool :=
  let n := c.toNat
  (0x9 ≤ n && n ≤ 0xd) || n == 0x20 || n == 0x85 || n == 0xa0 || n == 0x1680 ||
    (0x2000 ≤ n && n ≤ 0x200a) || n == 0x2028 || n == 0x2029 || n == 0x202f || n == 0x205f ||
    n == 0x3000

/-- The pieces of a text, each ending with its line feed; the last one may have none. -/
def textPieces : List Char → List (List Char)
  | [] => []
  | c :: cs =>
    if c = '\n' then [c] :: textPieces cs
    else match textPieces cs with
      | [] => [[c]]
      | piece :: rest => (c :: piece) :: rest

/-- The lines of a text (`str::lines`). -/
def textLines (s : String) : List String :=
  (textPieces s.toList).map fun piece => dropLineEnding (String.ofList piece)

/-- A line with nothing on it. -/
def blank (s : String) : Bool := s.toList.all isWhitespace

/-! ## Pieces -/

/-- The pieces of a text between the separators (`str::split`). -/
def split (separator : Char) (s : String) : List String :=
  (s.toList.splitOn separator).map String.ofList

theorem split_of_notMem {separator : Char} {s : String} (h : separator ∉ s.toList) :
    split separator s = [s] := by
  rw [split, List.splitOn_eq_singleton h, List.map_singleton, String.ofList_toList]

/-- What stands before the first separator is the first piece. -/
theorem split_append {separator : Char} {s t : String} (h : separator ∉ s.toList)
    (rest : String) (ht : t.toList = [separator]) :
    split separator (s ++ t ++ rest) = s :: split separator rest := by
  rw [split, String.toList_append, String.toList_append, ht, List.append_assoc,
    List.singleton_append, List.splitOn_append_cons_self_of_not_mem h, List.map_cons,
    String.ofList_toList]
  rfl

/-- For a text that is written out. -/
theorem notMem_of_all {separator : Char} {l : List Char} (h : l.all (· ≠ separator) = true) :
    separator ∉ (String.ofList l).toList := by
  rw [String.toList_ofList]
  intro hmem
  simpa using List.all_eq_true.mp h separator hmem

/-- The words of a text (`str::split_whitespace`). -/
def splitWhitespace (s : String) : List String :=
  ((s.toList.splitOnP isWhitespace).filter fun word => !word.isEmpty).map String.ofList

/-- What stands before and after the first separator (`str::split_once`). -/
def splitOnce (separator : Char) (s : String) : Option (String × String) :=
  match s.toList.dropWhile (· ≠ separator) with
  | [] => none
  | _ :: rest => some (String.ofList (s.toList.takeWhile (· ≠ separator)), String.ofList rest)

theorem splitOnce_append {separator : Char} {s t : String} (h : separator ∉ s.toList)
    (rest : String) (ht : t.toList = [separator]) :
    splitOnce separator (s ++ t ++ rest) = some (s, rest) := by
  have hall : ∀ ch ∈ s.toList, decide (ch ≠ separator) = true := by
    intro ch hch
    simpa using fun heq : ch = separator => h (heq ▸ hch)
  have hdrop : (s ++ t ++ rest).toList.dropWhile (· ≠ separator) = separator :: rest.toList := by
    rw [String.toList_append, String.toList_append, ht, List.append_assoc,
      List.dropWhile_append_of_pos hall]
    simp
  have htake : (s ++ t ++ rest).toList.takeWhile (· ≠ separator) = s.toList := by
    rw [String.toList_append, String.toList_append, ht, List.append_assoc,
      List.takeWhile_append_of_pos hall]
    simp
  rw [splitOnce, hdrop, htake]
  simp

/-- What stands before the first separator has none. -/
theorem notMem_of_splitOnce {separator : Char} {s before after : String}
    (h : splitOnce separator s = some (before, after)) : separator ∉ before.toList := by
  unfold splitOnce at h
  split at h
  · cases h
  · cases h
    intro hmem
    rw [String.toList_ofList] at hmem
    have hpos := List.all_eq_true.mp List.all_takeWhile separator hmem
    simp at hpos

theorem splitOnce_isSome {separator : Char} {s : String} (h : separator ∈ s.toList) :
    ∃ before after, splitOnce separator s = some (before, after) := by
  obtain ⟨before, after, hs, hbefore⟩ := List.eq_append_cons_of_mem h
  have heq : s = String.ofList before ++ String.ofList [separator] ++ String.ofList after := by
    apply String.toList_injective
    simp [hs]
  refine ⟨String.ofList before, String.ofList after, ?_⟩
  rw [heq]
  exact splitOnce_append (by simpa using hbefore) _ (by simp)

theorem splitOnce_eq_none {separator : Char} {s : String} (h : separator ∉ s.toList) :
    splitOnce separator s = none := by
  have hall : ∀ ch ∈ s.toList, decide (ch ≠ separator) = true := by
    intro ch hch
    simpa using fun heq : ch = separator => h (heq ▸ hch)
  have hdrop : s.toList.dropWhile (· ≠ separator) = [] := by
    have happend : (s.toList ++ []).dropWhile (· ≠ separator) = [].dropWhile (· ≠ separator) :=
      List.dropWhile_append_of_pos hall
    simpa using happend
  rw [splitOnce, hdrop]

/-- What stands before and after the first separator makes up the text with it. -/
theorem eq_of_splitOnce {separator : Char} {s before after : String}
    (h : splitOnce separator s = some (before, after)) :
    s = before ++ String.singleton separator ++ after := by
  by_cases hmem : separator ∈ s.toList
  · obtain ⟨l, r, hs, hl⟩ := List.eq_append_cons_of_mem hmem
    have heq : s = String.ofList l ++ String.singleton separator ++ String.ofList r := by
      apply String.toList_injective
      simp [hs]
    have hsplit : splitOnce separator s = some (String.ofList l, String.ofList r) := by
      rw [heq]
      exact splitOnce_append (by simpa using hl) _ (by simp)
    cases hsplit.symm.trans h
    exact heq
  · cases (splitOnce_eq_none hmem).symm.trans h

/-! ## Names -/

/-- `Path::join`. -/
def join (directory name : String) : String :=
  match directory.toList.getLast? with
  | none => name
  | some '/' => directory ++ name
  | some _ => directory ++ "/" ++ name

/-- The rest of a text after `p`, when it starts with it. -/
def stripPrefix (p s : String) : Option String :=
  if p.toList.isPrefixOf s.toList then some (String.ofList (s.toList.drop p.toList.length))
  else none

/-- The text before `p`, when it ends with it. -/
def stripSuffix (p s : String) : Option String :=
  if p.toList.isSuffixOf s.toList then
    some (String.ofList (s.toList.take (s.toList.length - p.toList.length)))
  else none

theorem stripPrefix_append (p s : String) : stripPrefix p (p ++ s) = some s := by
  simp [stripPrefix]

theorem stripSuffix_append (p s : String) : stripSuffix p (s ++ p) = some s := by
  simp [stripSuffix]

theorem stripPrefix_some {p s rest : String} (h : stripPrefix p s = some rest) : s = p ++ rest := by
  unfold stripPrefix at h
  split_ifs at h with hprefix
  cases h
  obtain ⟨l, hl⟩ := List.isPrefixOf_iff_prefix.mp hprefix
  apply String.toList_injective
  rw [← hl]
  simp

theorem stripSuffix_some {p s rest : String} (h : stripSuffix p s = some rest) : s = rest ++ p := by
  unfold stripSuffix at h
  split_ifs at h with hsuffix
  cases h
  obtain ⟨l, hl⟩ := List.isSuffixOf_iff_suffix.mp hsuffix
  apply String.toList_injective
  rw [← hl]
  simp

/-! ## Decimal numbers -/

/-- A number in decimal, with zeroes before it up to `width` digits. -/
def padded (width n : Nat) : List Char :=
  List.replicate (width - (Nat.toDigits 10 n).length) '0' ++ Nat.toDigits 10 n

/-- Read a non-empty run of decimal digits. -/
def parseDigits (cs : List Char) : Option Nat :=
  if cs ≠ [] ∧ cs.all Char.isDigit then some (Nat.ofDigitChars 10 cs 0) else none

theorem isDigit_of_mem_padded {width n : Nat} {c : Char} (h : c ∈ padded width n) :
    c.isDigit := by
  rcases List.mem_append.mp h with h | h
  · rw [List.eq_of_mem_replicate h]
    rfl
  · exact Nat.isDigit_of_mem_toDigits (by decide) (by decide) h

theorem parseDigits_padded (width n : Nat) : parseDigits (padded width n) = some n := by
  have hall : (padded width n).all Char.isDigit = true :=
    List.all_eq_true.mpr fun c hc => isDigit_of_mem_padded hc
  have hne : padded width n ≠ [] := fun h =>
    Nat.toDigits_ne_nil (List.append_eq_nil_iff.mp h).2
  rw [parseDigits, if_pos ⟨hne, hall⟩, padded, Nat.ofDigitChars_append]
  simp

theorem padded_of_lt_ten (width : Nat) {n : Nat} (h : n < 10) :
    padded (width + 1) n = List.replicate width '0' ++ [Nat.digitChar n] := by
  rw [padded, Nat.toDigits_of_lt_base h]
  rfl

/-- The last digit of a number, after those of the rest of it. -/
theorem padded_succ (width n : Nat) :
    padded (width + 2) n = padded (width + 1) (n / 10) ++ [Nat.digitChar (n % 10)] := by
  by_cases h : n < 10
  · have hzero : n / 10 = 0 := by omega
    have hmod : n % 10 = n := by omega
    rw [hzero, hmod, padded_of_lt_ten _ h, padded_of_lt_ten _ (by decide), List.replicate_succ']
    rfl
  · have hdigits : Nat.toDigits 10 n = Nat.toDigits 10 (n / 10) ++ [Nat.digitChar (n % 10)] :=
      Nat.toDigits_of_base_le (by decide) (by omega)
    rw [padded, padded, hdigits, List.length_append, List.length_singleton, ← List.append_assoc]
    congr 3
    omega

theorem length_padded {width n : Nat} (h : n < 10 ^ (width + 1)) :
    (padded (width + 1) n).length = width + 1 := by
  induction width generalizing n with
  | zero =>
    rw [padded_of_lt_ten 0 (by simpa using h)]
    rfl
  | succ width ih =>
    rw [Nat.pow_succ] at h
    rw [padded_succ, List.length_append, ih (by omega)]
    rfl

/-- Texts of one length are ordered by the first place they differ in. -/
theorem append_lt_append {l l' : List Char} (r r' : List Char) (hlength : l.length = l'.length)
    (h : l < l') : l ++ r < l' ++ r' := by
  induction l generalizing l' with
  | nil =>
    cases l' with
    | nil => exact absurd h (List.lt_irrefl _)
    | cons c l' => cases hlength
  | cons c l ih =>
    cases l' with
    | nil => cases hlength
    | cons c' l' =>
      rw [List.cons_append, List.cons_append, List.cons_lt_cons_iff] at *
      rcases h with h | ⟨rfl, h⟩
      · exact Or.inl h
      · exact Or.inr ⟨rfl, ih (Nat.succ.inj hlength) h⟩

/-- Numbers of one width are ordered as texts. -/
theorem padded_lt {width n m : Nat} (hlt : n < m) (h : m < 10 ^ (width + 1)) :
    padded (width + 1) n < padded (width + 1) m := by
  have hdigit : ∀ b < 10, ∀ a < b, Nat.digitChar a < Nat.digitChar b := by decide
  induction width generalizing n m with
  | zero =>
    have hm : m < 10 := by simpa using h
    rw [padded_of_lt_ten 0 (by omega), padded_of_lt_ten 0 hm]
    exact List.cons_lt_cons_iff.mpr (Or.inl (hdigit m hm n hlt))
  | succ width ih =>
    rw [Nat.pow_succ] at h
    rw [padded_succ, padded_succ]
    by_cases hrest : n / 10 < m / 10
    · refine append_lt_append _ _ ?_ (ih hrest (by omega))
      rw [length_padded (by omega), length_padded (by omega)]
    · have heq : n / 10 = m / 10 := by omega
      rw [heq]
      refine List.append_left_lt ?_
      exact List.cons_lt_cons_iff.mpr (Or.inl (hdigit _ (by omega) _ (by omega)))

/-! ## Hex -/

/-- The two digits of a byte. -/
def hexPair (b : UInt8) : List Char := [Nat.digitChar (b.toNat / 16), Nat.digitChar (b.toNat % 16)]

/-- Bytes as lowercase hex. -/
def hex (bytes : Bytes) : String := String.ofList (bytes.flatMap hexPair)

theorem digitChar_inj : ∀ m < 16, ∀ n < 16, Nat.digitChar m = Nat.digitChar n → m = n := by
  decide

theorem hexPair_append_inj {a b : UInt8} {l l' : List Char}
    (h : hexPair a ++ l = hexPair b ++ l') : a = b ∧ l = l' := by
  simp only [hexPair, List.cons_append, List.nil_append, List.cons.injEq] at h
  obtain ⟨hhigh, hlow, hl⟩ := h
  have ha := a.toNat_lt
  have hb := b.toNat_lt
  have h1 := digitChar_inj _ (by omega) _ (by omega) hhigh
  have h2 := digitChar_inj _ (by omega) _ (by omega) hlow
  exact ⟨UInt8.toNat_inj.mp (by omega), hl⟩

theorem hex_injective : Function.Injective hex := by
  have key : ∀ a b : Bytes, a.flatMap hexPair = b.flatMap hexPair → a = b := by
    intro a
    induction a with
    | nil =>
      rintro (_ | ⟨b, bs⟩) h
      · rfl
      · simp [hexPair] at h
    | cons a as ih =>
      rintro (_ | ⟨b, bs⟩) h
      · simp [hexPair] at h
      · rw [List.flatMap_cons, List.flatMap_cons] at h
        obtain ⟨rfl, hrest⟩ := hexPair_append_inj h
        rw [ih bs hrest]
  exact fun a b h => key a b (String.ofList_injective h)

end PicX
