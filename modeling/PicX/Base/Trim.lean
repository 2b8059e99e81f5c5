import Mathlib.Data.List.DropRight
import PicX.Base.Text

/-!
# Trimming, and reading a word

What a setting is read with: `str::trim` and its variants, the last separator of a text, and the
unsigned integers of the standard library.

* `trim_padded`: white space around a piece of text is what `trim` removes.
* `split_eq_iff`: the pieces of a text are what joins to it.
* `trim_joinWith`: a text with one line that is not blank is that line.
* `parseUnsigned`: `u8`, `u32` and `u64` from text, by the number of values of the type.
-/

namespace PicX

/-! ## Trimming -/

/-- A text without the white space around it (`str::trim`). -/
def trim (s : String) : String :=
  String.ofList ((s.toList.dropWhile isWhitespace).rdropWhile isWhitespace)

/-- A text without the leading characters that match (`str::trim_start_matches`). -/
def trimStartMatches (p : Char → Bool) (s : String) : String :=
  String.ofList (s.toList.dropWhile p)

/-- A text without the trailing characters that match (`str::trim_end_matches`). -/
def trimEndMatches (p : Char → Bool) (s : String) : String :=
  String.ofList (s.toList.rdropWhile p)

/-- `str::to_ascii_lowercase`. -/
def toAsciiLowercase (s : String) : String := String.ofList (s.toList.map Char.toLower)

/-- What stands before and after the last separator (`str::rsplit_once`). -/
def rsplitOnce (separator : Char) (s : String) : Option (String × String) :=
  match s.toList.rdropWhile (· ≠ separator) with
  | [] => none
  | l => some (String.ofList l.dropLast, String.ofList (s.toList.rtakeWhile (· ≠ separator)))

theorem rdropWhile_append_of_all {p : Char → Bool} (l : List Char) {t : List Char}
    (ht : ∀ c ∈ t, p c = true) : (l ++ t).rdropWhile p = l.rdropWhile p := by
  rw [List.rdropWhile, List.reverse_append, List.dropWhile_append_of_pos, List.rdropWhile]
  intro c hc
  exact ht c (List.mem_reverse.mp hc)

/-- White space around a piece of text is what `trim` removes. -/
theorem trim_padded {before after : List Char} (l : List Char)
    (hb : ∀ c ∈ before, isWhitespace c = true) (ha : ∀ c ∈ after, isWhitespace c = true) :
    trim (String.ofList (before ++ l ++ after)) = trim (String.ofList l) := by
  rw [trim, trim, String.toList_ofList, String.toList_ofList, List.append_assoc,
    List.dropWhile_append_of_pos hb]
  by_cases hl : ∀ c ∈ l, isWhitespace c = true
  · rw [List.dropWhile_append_of_pos hl, List.dropWhile_eq_nil_iff.mpr ha,
      List.dropWhile_eq_nil_iff.mpr hl]
  · have hne : l.dropWhile isWhitespace ≠ [] := fun h => hl (List.dropWhile_eq_nil_iff.mp h)
    rw [List.dropWhile_append, if_neg (by simpa using hne), rdropWhile_append_of_all _ ha]

/-- A text that starts and ends with something visible stays as it is. -/
theorem trim_of_visible {s : String} (hne : s.toList ≠ [])
    (hhead : isWhitespace (s.toList.head hne) = false)
    (hlast : isWhitespace (s.toList.getLast hne) = false) : trim s = s := by
  have hdrop : s.toList.dropWhile isWhitespace = s.toList := by
    rw [List.dropWhile_eq_self_iff]
    intro hpos
    rw [← List.head_eq_getElem hne, hhead]
    simp
  have hrdrop : s.toList.rdropWhile isWhitespace = s.toList := by
    rw [List.rdropWhile_eq_self_iff]
    intro _
    rw [hlast]
    simp
  rw [trim, hdrop, hrdrop, String.ofList_toList]

/-- Nothing is left of a text exactly when it is blank. -/
theorem trim_eq_empty_iff (s : String) : trim s = "" ↔ blank s = true := by
  rw [trim, blank, List.all_eq_true]
  constructor
  · intro h
    have hnil : (s.toList.dropWhile isWhitespace).rdropWhile isWhitespace = [] := by
      simpa using congrArg String.toList h
    have hall := List.rdropWhile_eq_nil_iff.mp hnil
    by_contra hnot
    have hne : s.toList.dropWhile isWhitespace ≠ [] := fun h0 =>
      hnot (List.dropWhile_eq_nil_iff.mp h0)
    have hhead := List.head_dropWhile_not isWhitespace hne
    rw [hall _ (List.head_mem hne)] at hhead
    cases hhead
  · intro h
    rw [List.dropWhile_eq_nil_iff.mpr h]
    rfl

/-- A text is what `trim` leaves, with white space around it. -/
theorem exists_padding (s : String) : ∃ before after : List Char,
    s.toList = before ++ (trim s).toList ++ after ∧
      (∀ c ∈ before, isWhitespace c = true) ∧ ∀ c ∈ after, isWhitespace c = true := by
  refine ⟨s.toList.takeWhile isWhitespace,
    (s.toList.dropWhile isWhitespace).rtakeWhile isWhitespace, ?_, ?_, ?_⟩
  · rw [trim, String.toList_ofList, List.append_assoc, List.rdropWhile, List.rtakeWhile,
      ← List.reverse_append, List.takeWhile_append_dropWhile, List.reverse_reverse,
      List.takeWhile_append_dropWhile]
  · intro c hc
    exact List.mem_takeWhile_imp hc
  · intro c hc
    exact List.mem_rtakeWhile_imp hc

theorem trim_trim (s : String) : trim (trim s) = trim s := by
  obtain ⟨before, after, hs, hb, ha⟩ := exists_padding s
  have hpadded := trim_padded (trim s).toList hb ha
  rw [← hs, String.ofList_toList, String.ofList_toList] at hpadded
  exact hpadded.symm

/-- The last separator is the one with none after it. -/
theorem rsplitOnce_append {separator : Char} {s : String} {l t : List Char}
    (hs : s.toList = l ++ separator :: t) (ht : separator ∉ t) :
    rsplitOnce separator s = some (String.ofList l, String.ofList t) := by
  have hall : ∀ c ∈ t, decide (c ≠ separator) = true := by
    intro c hc
    exact decide_eq_true fun h => ht (h ▸ hc)
  have hcons : l ++ separator :: t = (l ++ [separator]) ++ t := by simp
  have hdrop : s.toList.rdropWhile (· ≠ separator) = l ++ [separator] := by
    rw [hs, hcons, rdropWhile_append_of_all _ hall, List.rdropWhile_concat_neg _ _ _ (by simp)]
  have htake : s.toList.rtakeWhile (· ≠ separator) = t := by
    rw [hs, List.rtakeWhile, List.reverse_append, List.reverse_cons, List.append_assoc,
      List.takeWhile_append_of_pos (by simpa using hall)]
    simp
  rw [rsplitOnce, hdrop, htake]
  cases l with
  | nil => rfl
  | cons c l =>
    simp only [List.cons_append]
    rw [← List.cons_append, List.dropLast_concat]

/-! ## Lines between separators -/

/-- Texts with a separator between them (`[String]::join`). -/
def joinWith (separator : String) : List String → String
  | [] => ""
  | [s] => s
  | s :: t :: rest => s ++ separator ++ joinWith separator (t :: rest)

theorem split_append_separator (separator : Char) (s t : String) :
    split separator (s ++ String.singleton separator ++ t) =
      split separator s ++ split separator t := by
  simp [split, List.splitOn_append_cons_self]

/-- Cutting joined texts cuts each of them. -/
theorem split_joinWith (separator : Char) (s : String) (rest : List String) :
    split separator (joinWith (String.singleton separator) (s :: rest)) =
      (s :: rest).flatMap (split separator) := by
  induction rest generalizing s with
  | nil => simp [joinWith]
  | cons t rest ih =>
    rw [joinWith, split_append_separator, ih]
    rfl

theorem textPieces_append {l : List Char} (h : '\n' ∉ l) (rest : List Char) :
    textPieces (l ++ '\n' :: rest) = (l ++ ['\n']) :: textPieces rest := by
  induction l with
  | nil => simp [textPieces]
  | cons c l ih =>
    simp only [List.mem_cons, not_or] at h
    rw [List.cons_append, textPieces, if_neg (Ne.symm h.1), ih h.2]
    rfl

theorem textPieces_of_notMem {l : List Char} (h : '\n' ∉ l) (hne : l ≠ []) :
    textPieces l = [l] := by
  induction l with
  | nil => exact absurd rfl hne
  | cons c l ih =>
    simp only [List.mem_cons, not_or] at h
    rw [textPieces, if_neg (Ne.symm h.1)]
    cases l with
    | nil => rfl
    | cons c' l => rw [ih h.2 (by simp)]

/-- The texts with something in them, trimmed. -/
def words (pieces : List String) : List String := (pieces.map trim).filter (· ≠ "")

theorem words_append (l l' : List String) : words (l ++ l') = words l ++ words l' := by
  simp [words]

theorem lineFeed_whitespace : ∀ c ∈ ['\n'], isWhitespace c = true :=
  List.forall_mem_singleton.mpr rfl

theorem trim_dropLineEnding (s : String) : trim (dropLineEnding s) = trim s := by
  have hws' : ∀ c ∈ ['\r', '\n'], isWhitespace c = true :=
    List.forall_mem_cons.mpr ⟨rfl, lineFeed_whitespace⟩
  unfold dropLineEnding
  split
  · next cs heq =>
    have hs : s.toList = [] ++ cs.reverse ++ ['\r', '\n'] := by
      rw [← List.reverse_reverse s.toList, heq]
      simp
    rw [← trim_padded cs.reverse (List.forall_mem_nil _) hws', ← hs, String.ofList_toList]
  · next cs _ heq =>
    have hs : s.toList = [] ++ cs.reverse ++ ['\n'] := by
      rw [← List.reverse_reverse s.toList, heq]
      simp
    rw [← trim_padded cs.reverse (List.forall_mem_nil _) lineFeed_whitespace, ← hs,
      String.ofList_toList]
  · rfl

theorem words_cons (s : String) (l : List String) : words (s :: l) = words [s] ++ words l :=
  words_append [s] l

/-- The line feed that ends a piece is no part of its words. -/
theorem words_lineFeed (l : List Char) :
    words [String.ofList (l ++ ['\n'])] = words [String.ofList l] := by
  have h : trim (String.ofList ([] ++ l ++ ['\n'])) = trim (String.ofList l) :=
    trim_padded l (List.forall_mem_nil _) lineFeed_whitespace
  simp only [words, List.map_cons, List.map_nil]
  rw [← h, List.nil_append]

theorem modifyHead_nil_append (l : List (List Char)) : l.modifyHead ([] ++ ·) = l := by
  cases l <;> rfl

/-- The pieces are cut one by one; `pre` is what has been read of the first. -/
theorem words_textPieces (l pre : List Char) (hpre : '\n' ∉ pre) :
    words ((textPieces (pre ++ l)).map String.ofList) =
      words (((l.splitOn '\n').modifyHead (pre ++ ·)).map String.ofList) := by
  induction l generalizing pre with
  | nil =>
    by_cases hnil : pre = []
    · rw [hnil]
      rfl
    · rw [List.append_nil, textPieces_of_notMem hpre hnil, List.splitOn_nil, List.modifyHead_cons,
        List.append_nil]
  | cons c l ih =>
    by_cases hc : c = '\n'
    · subst hc
      have htail := ih [] (by simp)
      rw [List.nil_append, modifyHead_nil_append] at htail
      rw [textPieces_append hpre, List.splitOn_cons_eq_if_modifyHead, if_pos (by simp),
        List.modifyHead_cons, List.append_nil, List.map_cons, List.map_cons, words_cons,
        words_lineFeed, htail, ← words_cons]
    · have hpre' : '\n' ∉ pre ++ [c] := by
        simp only [List.mem_append, List.mem_singleton, not_or]
        exact ⟨hpre, Ne.symm hc⟩
      have h := ih (pre ++ [c]) hpre'
      rw [List.append_assoc, List.singleton_append] at h
      rw [h, List.splitOn_cons_eq_if_modifyHead, if_neg (by simpa using hc),
        List.modifyHead_modifyHead]
      have hfun : ((pre ++ ·) ∘ List.cons c : List Char → List Char) = (pre ++ [c] ++ ·) := by
        funext t
        simp
      rw [hfun]

/-- Reading lines and cutting at line feeds leave the same words. -/
theorem words_textLines (s : String) : words (textLines s) = words (split '\n' s) := by
  have hmap : (textLines s).map trim = ((textPieces s.toList).map String.ofList).map trim := by
    rw [textLines, List.map_map, List.map_map]
    exact List.map_congr_left fun piece _ => trim_dropLineEnding _
  have h := words_textPieces s.toList [] (by simp)
  rw [List.nil_append, modifyHead_nil_append] at h
  rw [words, hmap]
  exact h

theorem words_flatMap (f : String → List String) (l : List String) :
    words (l.flatMap f) = l.flatMap fun s => words (f s) := by
  induction l with
  | nil => rfl
  | cons s l ih => rw [List.flatMap_cons, words_append, ih, List.flatMap_cons]

theorem joinWith_append_cons (separator s t : String) (rest : List String) :
    joinWith separator ((s ++ t) :: rest) = s ++ joinWith separator (t :: rest) := by
  cases rest with
  | nil => rfl
  | cons r rest => simp only [joinWith, String.append_assoc]

/-- Joining the pieces of a text gives it back. -/
theorem joinWith_split (separator : Char) (s : String) :
    joinWith (String.singleton separator) (split separator s) = s := by
  have key : ∀ l : List Char, joinWith (String.singleton separator)
      ((l.splitOn separator).map String.ofList) = String.ofList l := by
    intro l
    induction l with
    | nil => rfl
    | cons c l ih =>
      obtain ⟨first, rest, hsplit⟩ := List.exists_cons_of_ne_nil (List.splitOn_ne_nil separator l)
      rw [hsplit, List.map_cons] at ih
      rw [List.splitOn_cons_eq_if_modifyHead, hsplit]
      by_cases hc : c = separator
      · rw [if_pos (by simpa using hc), List.map_cons, List.map_cons, joinWith, ih, hc]
        apply String.toList_injective
        simp
      · have hcons : String.ofList (c :: first) = String.ofList [c] ++ String.ofList first := by
          apply String.toList_injective
          simp
        rw [if_neg (by simpa using hc), List.modifyHead_cons, List.map_cons, hcons,
          joinWith_append_cons, ih]
        apply String.toList_injective
        simp
  rw [split, key, String.ofList_toList]

/-- A piece has no separator in it. -/
theorem notMem_of_mem_split {separator : Char} {s piece : String} (h : piece ∈ split separator s) :
    separator ∉ piece.toList := by
  obtain ⟨l, hl, rfl⟩ := List.mem_map.mp h
  rw [String.toList_ofList]
  have key : ∀ cs l : List Char, l ∈ cs.splitOn separator → separator ∉ l := by
    intro cs
    induction cs with
    | nil =>
      intro l hl
      rw [List.splitOn_nil, List.mem_singleton] at hl
      simp [hl]
    | cons c cs ih =>
      intro l hl
      rw [List.splitOn, List.splitOnP_cons_eq_if_modifyHead] at hl
      by_cases hc : c = separator
      · rw [if_pos (by simpa using hc), List.mem_cons] at hl
        rcases hl with rfl | hl
        · simp
        · exact ih l hl
      · rw [if_neg (by simpa using hc)] at hl
        obtain ⟨first, rest, hsplit⟩ : ∃ first rest, cs.splitOnP (· == separator) = first :: rest :=
          List.exists_cons_of_ne_nil (List.splitOnP_ne_nil _ _)
        have hpieces : cs.splitOn separator = first :: rest := hsplit
        rw [hsplit, List.modifyHead_cons, List.mem_cons] at hl
        rcases hl with rfl | hl
        · rw [List.mem_cons, not_or]
          exact ⟨Ne.symm hc, ih first (hpieces ▸ List.mem_cons_self)⟩
        · exact ih l (hpieces ▸ List.mem_cons_of_mem _ hl)
  exact key s.toList l hl

theorem split_ne_nil (separator : Char) (s : String) : split separator s ≠ [] := by
  rw [split, Ne, List.map_eq_nil_iff]
  exact List.splitOnP_ne_nil _ _

/-- The pieces of a text are the texts without a separator that join to it. -/
theorem split_eq_iff {separator : Char} {s first : String} {rest : List String} :
    split separator s = first :: rest ↔
      s = joinWith (String.singleton separator) (first :: rest) ∧
        ∀ piece ∈ first :: rest, separator ∉ piece.toList := by
  constructor
  · intro h
    refine ⟨?_, fun piece hpiece => notMem_of_mem_split (h ▸ hpiece)⟩
    rw [← h, joinWith_split]
  · intro ⟨hs, hpieces⟩
    rw [hs, split_joinWith]
    have hone : ∀ pieces : List String, (∀ piece ∈ pieces, separator ∉ piece.toList) →
        pieces.flatMap (split separator) = pieces := by
      intro pieces h
      induction pieces with
      | nil => rfl
      | cons piece pieces ih =>
        rw [List.flatMap_cons, split_of_notMem (h piece List.mem_cons_self),
          ih fun p hp => h p (List.mem_cons_of_mem _ hp)]
        rfl
    exact hone _ hpieces

theorem words_eq_nil_iff {l : List String} : words l = [] ↔ ∀ s ∈ l, blank s = true := by
  simp only [words, List.filter_eq_nil_iff, List.forall_mem_map, ← trim_eq_empty_iff]
  simp

/-- Blank texts with line feeds between them are blank. -/
theorem blank_joinWith {l : List String} (h : words l = []) : blank (joinWith "\n" l) = true := by
  rw [words_eq_nil_iff] at h
  induction l with
  | nil => rfl
  | cons s rest ih =>
    have hs := h s List.mem_cons_self
    cases rest with
    | nil => exact hs
    | cons t rest =>
      have hrest := ih fun r hr => h r (List.mem_cons_of_mem s hr)
      rw [joinWith, blank, String.toList_append, String.toList_append, List.all_append,
        List.all_append]
      simp only [blank] at hs hrest
      rw [hs, hrest]
      rfl

/-- The one text with something in it is what is left of them all. -/
theorem trim_joinWith {l : List String} {w : String} (h : words l = [w]) :
    trim (joinWith "\n" l) = w := by
  induction l with
  | nil => cases h
  | cons s rest ih =>
    cases rest with
    | nil =>
      have hmem : w ∈ words [s] := by rw [h]; exact List.mem_cons_self
      simp only [words, List.map_cons, List.map_nil, List.mem_filter, List.mem_singleton] at hmem
      exact hmem.1.symm
    | cons t rest =>
      rw [words_cons] at h
      by_cases hs : blank s = true
      · have hnil : words [s] = [] := words_eq_nil_iff.mpr (by simpa using hs)
        rw [hnil, List.nil_append] at h
        have hbefore : ∀ c ∈ s.toList ++ ['\n'], isWhitespace c = true := by
          intro c hc
          rcases List.mem_append.mp hc with hc | hc
          · exact List.all_eq_true.mp hs c hc
          · rw [List.mem_singleton.mp hc]
            rfl
        have hpad := trim_padded (joinWith "\n" (t :: rest)).toList hbefore (List.forall_mem_nil _)
        rw [String.ofList_toList, ih h] at hpad
        rw [joinWith, ← hpad]
        exact congrArg trim (String.toList_injective (by simp))
      · have hone : words [s] = [trim s] := by
          have : trim s ≠ "" := fun h0 => hs ((trim_eq_empty_iff s).mp h0)
          simp [words, this]
        rw [hone, List.singleton_append, List.cons.injEq] at h
        have hafter : ∀ c ∈ '\n' :: (joinWith "\n" (t :: rest)).toList, isWhitespace c = true := by
          intro c hc
          rcases List.mem_cons.mp hc with hc | hc
          · rw [hc]
            rfl
          · exact List.all_eq_true.mp (blank_joinWith h.2) c hc
        have hpad := trim_padded s.toList (List.forall_mem_nil _) hafter
        rw [String.ofList_toList, h.1] at hpad
        rw [joinWith, ← hpad]
        exact congrArg trim (String.toList_injective (by simp))

/-! ## Numbers -/

/-- An unsigned integer of a type with `limit` values (`str::parse`): digits, with at most one
`+` before them. -/
def parseUnsigned (limit : Nat) (s : String) : Option Nat :=
  let digits := match s.toList with
    | '+' :: rest => rest
    | cs => cs
  (parseDigits digits).bind fun n => if n < limit then some n else none

end PicX
