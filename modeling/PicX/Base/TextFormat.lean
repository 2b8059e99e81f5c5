import PicX.Base.Json
import PicX.Base.Trim

/-!
# The text format of a scrape

Lines of series, each a name, label pairs in braces and a number, with comment lines that describe a
name. A label value is quoted, and what would end it early is escaped. Names are plain: letters,
digits and underscores.

* `Line.write`, `readLine` — a line and its text.
* `readQuoted_flatMap` — a quoted value stops at its own quote, whatever it holds.
* `read_write` — the reader recovers every line that was written, in order, and no other.
-/

namespace PicX.TextFormat

open PicX.Json

/-- A line of the format. -/
inductive Line where
  /-- What a name is about. The text stands as it is on the line. -/
  | help (name text : String)
  /-- The kind of a name. -/
  | type (name kind : String)
  /-- A series and its number. -/
  | series (name : String) (labels : List (String × String)) (value : String)
  deriving DecidableEq, Repr

/-! ## Names -/

def isNameChar (ch : Char) : Bool := ch.isAlphanum || ch == '_'

/-- A plain identifier. -/
def Plain (name : String) : Prop := name ≠ "" ∧ ∀ ch ∈ name.toList, isNameChar ch = true

instance (name : String) : Decidable (Plain name) :=
  decidable_of_iff (name ≠ "" ∧ name.toList.all isNameChar = true) (by simp [Plain])

theorem Plain.notMem {name : String} (h : Plain name) {ch : Char} (hch : isNameChar ch = false) :
    ch ∉ name.toList := by
  intro hmem
  rw [h.2 ch hmem] at hch
  cases hch

/-- A name ends where a character that no name has comes. -/
theorem Plain.takeWhile {name : String} (h : Plain name) {ch : Char} (hch : isNameChar ch = false)
    (rest : List Char) :
    (name.toList ++ ch :: rest).takeWhile isNameChar = name.toList := by
  rw [List.takeWhile_append_of_pos h.2, List.takeWhile_cons, hch]
  simp

theorem Plain.dropWhile {name : String} (h : Plain name) {ch : Char} (hch : isNameChar ch = false)
    (rest : List Char) : (name.toList ++ ch :: rest).dropWhile isNameChar = ch :: rest := by
  rw [List.dropWhile_append_of_pos h.2, List.dropWhile_cons, hch]
  rfl

/-! ## Quoted values -/

/-- What a character of a label value is written as. -/
def escape (ch : Char) : List Char :=
  if ch = '\\' then ['\\', '\\']
  else if ch = '"' then ['\\', '"']
  else if ch = '\n' then ['\\', 'n']
  else [ch]

/-- What a backslash and a character stand for. -/
def unescape (ch : Char) : Option Char :=
  if ch = '\\' ∨ ch = '"' then some ch
  else if ch = 'n' then some '\n'
  else none

/-- The characters up to the closing quote. -/
def readQuoted : List Char → Option (List Char × List Char)
  | [] => none
  | '"' :: rest => some ([], rest)
  | '\\' :: ch :: rest =>
    (unescape ch).bind fun ch => (readQuoted rest).map fun r => (ch :: r.1, r.2)
  | ch :: rest => (readQuoted rest).map fun r => (ch :: r.1, r.2)

theorem readQuoted_escape (ch : Char) (rest : List Char) :
    readQuoted (escape ch ++ rest) = (readQuoted rest).map fun r => (ch :: r.1, r.2) := by
  unfold escape
  split_ifs with hbackslash hquote hnewline
  · subst hbackslash
    simp [readQuoted, unescape]
  · subst hquote
    simp [readQuoted, unescape]
  · subst hnewline
    simp [readQuoted, unescape]
  · rw [List.cons_append, List.nil_append, readQuoted]
    all_goals simp_all

/-- A quoted value stops at its own quote, whatever it holds. -/
theorem readQuoted_flatMap (chars rest : List Char) :
    readQuoted (chars.flatMap escape ++ '"' :: rest) = some (chars, rest) := by
  induction chars with
  | nil => rfl
  | cons ch chars ih =>
    rw [List.flatMap_cons, List.append_assoc, readQuoted_escape, ih]
    rfl

/-- No newline is left in a value. -/
theorem newline_notMem_flatMap (chars : List Char) : '\n' ∉ chars.flatMap escape := by
  intro hmem
  obtain ⟨ch, -, hch⟩ := List.mem_flatMap.mp hmem
  unfold escape at hch
  split_ifs at hch with hbackslash hquote hnewline
  · simp at hch
  · simp at hch
  · simp at hch
  · exact hnewline (List.mem_singleton.mp hch).symm

theorem flatMap_escape_of_plain {chars : List Char}
    (h : ∀ ch ∈ chars, ch ≠ '\\' ∧ ch ≠ '"' ∧ ch ≠ '\n') : chars.flatMap escape = chars := by
  induction chars with
  | nil => rfl
  | cons ch chars ih =>
    obtain ⟨hbackslash, hquote, hnewline⟩ := h ch List.mem_cons_self
    rw [List.flatMap_cons, ih fun c hc => h c (List.mem_cons_of_mem ch hc), escape,
      if_neg hbackslash, if_neg hquote, if_neg hnewline]
    rfl

/-! ## Labels -/

/-- A name and its quoted value. -/
def writeLabel (label : String × String) : List Char :=
  label.1.toList ++ '=' :: '"' :: label.2.toList.flatMap escape ++ ['"']

/-- Label pairs, separated by commas and closed by a brace. -/
def writeLabels : List (String × String) → List Char
  | [] => ['}']
  | [label] => writeLabel label ++ ['}']
  | label :: label' :: rest => writeLabel label ++ ',' :: writeLabels (label' :: rest)

def readLabel (text : List Char) : Option ((String × String) × List Char) := do
  let rest ← expect ['=', '"'] (text.dropWhile isNameChar)
  let (value, rest) ← readQuoted rest
  some ((String.ofList (text.takeWhile isNameChar), String.ofList value), rest)

/-- Label pairs up to the closing brace; the number bounds how many. -/
def readLabels : Nat → List Char → Option (List (String × String) × List Char)
  | 0, _ => none
  | bound + 1, text =>
    match text with
    | '}' :: rest => some ([], rest)
    | _ => (readLabel text).bind fun (label, rest) =>
      match rest with
      | '}' :: rest => some ([label], rest)
      | ',' :: rest => (readLabels bound rest).map fun r => (label :: r.1, r.2)
      | _ => none

theorem readLabel_writeLabel {label : String × String} (h : Plain label.1) (rest : List Char) :
    readLabel (writeLabel label ++ rest) = some (label, rest) := by
  have htext : writeLabel label ++ rest = label.1.toList ++
      '=' :: ('"' :: (label.2.toList.flatMap escape ++ '"' :: rest)) := by
    simp [writeLabel]
  have hexpect : ∀ s, expect ['=', '"'] ('=' :: '"' :: s) = some s := expect_append ['=', '"']
  rw [readLabel, htext, h.dropWhile (by decide), h.takeWhile (by decide), hexpect, some_bind,
    readQuoted_flatMap, some_bind, String.ofList_toList]
  show some ((label.1, String.ofList label.2.toList), rest) = some (label, rest)
  rw [String.ofList_toList]

/-- A label does not start with the closing brace. -/
theorem readLabels_step {label : String × String} (h : Plain label.1) (bound : Nat)
    (rest : List Char) : readLabels (bound + 1) (writeLabel label ++ rest) =
      match rest with
      | '}' :: rest => some ([label], rest)
      | ',' :: rest => (readLabels bound rest).map fun r => (label :: r.1, r.2)
      | _ => none := by
  obtain ⟨ch, chars, hname⟩ := List.exists_cons_of_ne_nil
    (fun hnil => h.1 (String.toList_injective hnil) : label.1.toList ≠ [])
  have hread := readLabel_writeLabel h rest
  have htext : ∃ tail, writeLabel label ++ rest = ch :: tail := ⟨_, by rw [writeLabel, hname]; rfl⟩
  obtain ⟨tail, htext⟩ := htext
  have hbrace : ch ≠ '}' := by
    rintro rfl
    have hnot : '}' ∉ label.1.toList := h.notMem (by decide)
    exact hnot (hname ▸ List.mem_cons_self)
  rw [htext] at hread ⊢
  rw [readLabels]
  · rw [hread]
    rfl
  · intro rest' heq
    exact hbrace (List.cons.inj heq).1

theorem readLabels_writeLabels {labels : List (String × String)}
    (h : ∀ label ∈ labels, Plain label.1) {bound : Nat} (hbound : labels.length < bound)
    (rest : List Char) :
    readLabels bound (writeLabels labels ++ rest) = some (labels, rest) := by
  induction labels generalizing bound with
  | nil =>
    obtain ⟨bound, rfl⟩ := Nat.exists_eq_succ_of_ne_zero (by omega : bound ≠ 0)
    rfl
  | cons label labels ih =>
    obtain ⟨bound, rfl⟩ := Nat.exists_eq_succ_of_ne_zero (by omega : bound ≠ 0)
    have hname := h label List.mem_cons_self
    cases labels with
    | nil => rw [writeLabels, List.append_assoc, readLabels_step hname]; rfl
    | cons label' rest' =>
      rw [List.length_cons] at hbound
      rw [writeLabels, List.append_assoc, readLabels_step hname, List.cons_append]
      show (readLabels bound (writeLabels (label' :: rest') ++ rest)).map _ = _
      rw [ih (fun l hl => h l (List.mem_cons_of_mem _ hl)) (by omega)]
      rfl

/-! ## Lines -/

/-- Where the labels of a series stand in its line: nowhere when it has none. -/
def writeLabelSet (labels : List (String × String)) : List Char :=
  if labels = [] then [] else '{' :: writeLabels labels

/-- How the line that says what a name is about starts. -/
def HELP : List Char := ['#', ' ', 'H', 'E', 'L', 'P', ' ']

/-- How the line with the kind of a name starts. -/
def TYPE : List Char := ['#', ' ', 'T', 'Y', 'P', 'E', ' ']

def Line.write : Line → List Char
  | .help name text => HELP ++ name.toList ++ ' ' :: text.toList
  | .type name kind => TYPE ++ name.toList ++ ' ' :: kind.toList
  | .series name labels value => name.toList ++ writeLabelSet labels ++ ' ' :: value.toList

/-- What can be written on one line: plain names, and no newline in what stands as it is. -/
def Line.Sound : Line → Prop
  | .help name text => Plain name ∧ '\n' ∉ text.toList
  | .type name kind => Plain name ∧ '\n' ∉ kind.toList
  | .series name labels value =>
    Plain name ∧ (∀ label ∈ labels, Plain label.1) ∧ '\n' ∉ value.toList

/-- A name, and what comes after the blank. -/
def readNamed (rest : List Char) : Option (String × String) :=
  (expect [' '] (rest.dropWhile isNameChar)).map fun text =>
    (String.ofList (rest.takeWhile isNameChar), String.ofList text)

def readSeries (line : List Char) : Option Line :=
  let name := String.ofList (line.takeWhile isNameChar)
  match line.dropWhile isNameChar with
  | '{' :: rest => do
    let (labels, rest) ← readLabels rest.length rest
    let value ← expect [' '] rest
    some (.series name labels (String.ofList value))
  | ' ' :: value => some (.series name [] (String.ofList value))
  | _ => none

def readLine (line : List Char) : Option Line :=
  match expect HELP line with
  | some rest => (readNamed rest).map fun (name, text) => .help name text
  | none => match expect TYPE line with
    | some rest => (readNamed rest).map fun (name, kind) => .type name kind
    | none => readSeries line

/-- A text, line by line. An empty line says nothing. -/
def read (text : List Char) : Option (List Line) :=
  ((text.splitOn '\n').filter (· ≠ [])).mapM readLine

theorem readNamed_append {name : String} (h : Plain name) (text : String) :
    readNamed (name.toList ++ ' ' :: text.toList) = some (name, text) := by
  have hexpect : ∀ s, expect [' '] (' ' :: s) = some s := expect_append [' ']
  rw [readNamed, h.dropWhile (by decide), h.takeWhile (by decide), hexpect, Option.map_some,
    String.ofList_toList, String.ofList_toList]

theorem length_lt_writeLabels {labels : List (String × String)} (h : labels ≠ []) :
    labels.length < (writeLabels labels).length := by
  induction labels with
  | nil => exact absurd rfl h
  | cons label labels ih =>
    have hlabel : 0 < (writeLabel label).length := by
      rw [writeLabel, List.length_append, List.length_singleton]
      omega
    cases labels with
    | nil =>
      rw [writeLabels, List.length_append, List.length_singleton, List.length_singleton]
      omega
    | cons label' rest =>
      have hrest := ih (by simp)
      rw [writeLabels, List.length_append, List.length_cons (a := label),
        List.length_cons (a := ',')]
      omega

theorem readSeries_write {name value : String} {labels : List (String × String)}
    (hname : Plain name) (hlabels : ∀ label ∈ labels, Plain label.1) :
    readSeries (Line.write (.series name labels value)) = some (.series name labels value) := by
  have hexpect : ∀ s, expect [' '] (' ' :: s) = some s := expect_append [' ']
  by_cases hnil : labels = []
  · subst hnil
    have htext : Line.write (.series name [] value) = name.toList ++ ' ' :: value.toList := by
      simp [Line.write, writeLabelSet]
    simp only [readSeries, htext, hname.dropWhile (show isNameChar ' ' = false by decide),
      hname.takeWhile (show isNameChar ' ' = false by decide), String.ofList_toList]
  · have htext : Line.write (.series name labels value) =
        name.toList ++ '{' :: (writeLabels labels ++ ' ' :: value.toList) := by
      simp [Line.write, writeLabelSet, hnil]
    have hbound : labels.length < (writeLabels labels ++ ' ' :: value.toList).length := by
      rw [List.length_append]
      have := length_lt_writeLabels hnil
      omega
    simp only [readSeries, htext, hname.dropWhile (show isNameChar '{' = false by decide),
      hname.takeWhile (show isNameChar '{' = false by decide), String.ofList_toList,
      readLabels_writeLabels hlabels hbound, Option.bind_eq_bind, Option.bind_some, hexpect]

/-- A line is read back from its text. -/
theorem readLine_write {line : Line} (h : line.Sound) : readLine line.write = some line := by
  cases line with
  | help name text =>
    rw [Line.write, List.append_assoc, readLine, expect_append]
    show (readNamed _).map _ = _
    rw [readNamed_append h.1]
    rfl
  | type name kind =>
    rw [Line.write, List.append_assoc, readLine, expect_of_diverge (by decide), expect_append]
    show (readNamed _).map _ = _
    rw [readNamed_append h.1]
    rfl
  | series name labels value =>
    obtain ⟨ch, chars, hchars⟩ := List.exists_cons_of_ne_nil
      (fun hnil => h.1.1 (String.toList_injective hnil) : name.toList ≠ [])
    have hhash : ch ≠ '#' := by
      rintro rfl
      have hnot : '#' ∉ name.toList := h.1.notMem (by decide)
      exact hnot (hchars ▸ List.mem_cons_self)
    have hcomment : ∀ lit, expect ('#' :: lit) (Line.write (.series name labels value)) = none := by
      intro lit
      rw [Line.write, hchars, expect, if_neg]
      simp [Ne.symm hhash]
    rw [readLine, HELP, hcomment, TYPE, hcomment]
    exact readSeries_write h.1 h.2.1

theorem newline_notMem_writeLabel {label : String × String} (h : Plain label.1) :
    '\n' ∉ writeLabel label := by
  simp only [writeLabel, List.mem_append, List.mem_cons, not_or]
  exact ⟨⟨h.notMem (by decide), by decide, by decide, newline_notMem_flatMap _⟩, by decide⟩

theorem newline_notMem_writeLabels {labels : List (String × String)}
    (h : ∀ label ∈ labels, Plain label.1) : '\n' ∉ writeLabels labels := by
  induction labels with
  | nil => decide
  | cons label labels ih =>
    have hrest := ih fun l hl => h l (List.mem_cons_of_mem _ hl)
    have hfirst := newline_notMem_writeLabel (h label List.mem_cons_self)
    cases labels with
    | nil => simp [writeLabels, hfirst]
    | cons label' rest => simp [writeLabels, hfirst, hrest]

/-- A line has no newline on it. -/
theorem Line.newline_notMem {line : Line} (h : line.Sound) : '\n' ∉ line.write := by
  have hname : ∀ {name : String}, Plain name → '\n' ∉ name.toList := fun hplain =>
    hplain.notMem (by decide)
  cases line with
  | help name text => simp [Line.write, HELP, hname h.1, h.2]
  | type name kind => simp [Line.write, TYPE, hname h.1, h.2]
  | series name labels value =>
    have hset : '\n' ∉ writeLabelSet labels := by
      unfold writeLabelSet
      split_ifs
      · simp
      · simp [newline_notMem_writeLabels h.2.1]
    simp [Line.write, hname h.1, hset, h.2.2]

theorem Line.write_ne_nil (line : Line) : line.write ≠ [] := by
  cases line <;> simp [Line.write]

/-- The text of some lines, each ended by its newline. -/
def write (lines : List Line) : List Char := lines.flatMap fun line => line.write ++ ['\n']

@[simp] theorem write_nil : write [] = [] := rfl

@[simp] theorem write_cons (line : Line) (lines : List Line) :
    write (line :: lines) = line.write ++ '\n' :: write lines := by
  simp [write]

@[simp] theorem write_append (lines later : List Line) :
    write (lines ++ later) = write lines ++ write later := List.flatMap_append

/-- **The reader recovers every line that was written, in order, and no other.** -/
theorem read_write {lines : List Line} (h : ∀ line ∈ lines, line.Sound) :
    read (write lines) = some lines := by
  induction lines with
  | nil => rfl
  | cons line lines ih =>
    have hline := h line List.mem_cons_self
    rw [read, write_cons, List.splitOn_append_cons_self_of_not_mem (line.newline_notMem hline),
      List.filter_cons_of_pos (by simpa using line.write_ne_nil), List.mapM_cons,
      readLine_write hline]
    have hrest := ih fun l hl => h l (List.mem_cons_of_mem _ hl)
    rw [read] at hrest
    rw [hrest]
    rfl

end PicX.TextFormat
