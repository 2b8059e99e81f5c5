import Mathlib.Algebra.Order.Ring.Rat
import PicX.Base.TextFormat
import PicX.Metrics.Core

/-!
# The exposition (`pic-x-telemetry/src/exposition.rs`)

Turning a snapshot into the text a scraper reads. What `Display` writes for a number that is not
whole is a parameter, `display`.

* `render` — the text, sample after sample, each name described when it comes up.
* `denoted` — the lines the samples stand for.
* `render_eq` — the text is those lines written out, whatever the label values are.
-/

namespace PicX.Metrics

open PicX.TextFormat (Line Plain writeLabel writeLabels writeLabelSet write HELP TYPE)

/-- An `f64`, as `Display` tells them apart. -/
inductive F64 where
  | finite (value : ℚ)
  | infinite (negative : Bool)
  | nan
  deriving DecidableEq, Repr

/-- Writes a number the way the format wants it: whole values without a decimal point. -/
def number (display : ℚ → String) : F64 → String
  | .finite value =>
    if value.isInt ∧ |value| < 10 ^ 15 then toString value.num else display value
  | .infinite negative => if negative then "-inf" else "inf"
  | .nan => "NaN"

def escapedChar : Char → List Char
  | '\\' => ['\\', '\\']
  | '"' => ['\\', '"']
  | '\n' => ['\\', 'n']
  | other => [other]

/-- Escapes what would otherwise end a line, or a quoted value, early. -/
def escaped (value : String) : String := String.ofList (value.toList.flatMap escapedChar)

/-- Writes the label set, with `le` appended when this is a bucket line. -/
def labels (labels : List Label) (le : Option String) : String :=
  if labels.isEmpty ∧ le.isNone then ""
  else
    "\x7b" ++ joinWith ","
      (labels.map fun (name, value) => name ++ "=\"" ++ escaped value ++ "\"") ++
      (match le with
        | some boundary => (if labels.isEmpty then "" else ",") ++ "le=\"" ++ boundary ++ "\""
        | none => "") ++
      "\x7d"

/-- The word the format uses for a kind. -/
def kind : Kind → String
  | .counter => "counter"
  | .gauge => "gauge"
  | .histogram => "histogram"

/-- The lines of one sample: three families when it is a histogram. -/
def renderReading (display : ℚ → String) (sample : Sample F64) : String :=
  let name := sample.metric.name
  match sample.reading with
  | .value value => name ++ labels sample.labels none ++ " " ++ number display value ++ "\n"
  | .distribution buckets count sum =>
    String.join (buckets.map fun (boundary, slot) =>
      name ++ "_bucket" ++ labels sample.labels (some (number display boundary)) ++ " " ++
        toString slot ++ "\n") ++
    (name ++ "_bucket" ++ labels sample.labels (some "+Inf") ++ " " ++ toString count ++ "\n") ++
    (name ++ "_sum" ++ labels sample.labels none ++ " " ++ number display sum ++ "\n") ++
    (name ++ "_count" ++ labels sample.labels none ++ " " ++ toString count ++ "\n")

/-- What the loop over the samples keeps. -/
structure Rendering where
  out : String
  /-- The name the last lines described. -/
  described : Option String

def renderSample (display : ℚ → String) (state : Rendering) (sample : Sample F64) : Rendering :=
  let name := sample.metric.name
  let state := if state.described ≠ some name then
      { out := state.out ++ "# HELP " ++ name ++ " " ++ escaped sample.metric.help ++ "\n" ++
          "# TYPE " ++ name ++ " " ++ kind sample.metric.kind ++ "\n"
        described := some name }
    else state
  { state with out := state.out ++ renderReading display sample }

/-- Renders samples as an exposition. They are expected grouped by metric name. -/
def render (display : ℚ → String) (samples : List (Sample F64)) : String :=
  (samples.foldl (renderSample display) { out := "", described := none }).out

/-! ## The lines samples denote -/

/-- What describes the name of a sample. -/
def Sample.describing {V : Type} (sample : Sample V) : List Line :=
  [.help sample.metric.name (escaped sample.metric.help),
    .type sample.metric.name (kind sample.metric.kind)]

/-- One bucket of a histogram. -/
def Sample.bucket {V : Type} (sample : Sample V) (le : String) (count : Nat) : Line :=
  .series (sample.metric.name ++ "_bucket") (sample.labels ++ [("le", le)]) (toString count)

/-- The series lines of a sample. -/
def Sample.lines (display : ℚ → String) (sample : Sample F64) : List Line :=
  let name := sample.metric.name
  match sample.reading with
  | .value value => [.series name sample.labels (number display value)]
  | .distribution buckets count sum =>
    (buckets.map fun b => sample.bucket (number display b.1) b.2) ++
      [sample.bucket "+Inf" count,
        .series (name ++ "_sum") sample.labels (number display sum),
        .series (name ++ "_count") sample.labels (toString count)]

/-- The lines of samples after a name that is described: each sample's own, after what describes its
name where that is another. -/
def denotedAfter (display : ℚ → String) : Option String → List (Sample F64) → List Line
  | _, [] => []
  | described, sample :: samples =>
    (if described = some sample.metric.name then [] else sample.describing) ++
      sample.lines display ++ denotedAfter display (some sample.metric.name) samples

/-- The lines samples denote. -/
def denoted (display : ℚ → String) (samples : List (Sample F64)) : List Line :=
  denotedAfter display none samples

/-- What `Display` writes of a finite number: digits, a point and a sign. -/
def Decimal (display : ℚ → String) : Prop :=
  ∀ value, ∀ ch ∈ (display value).toList, ch.isDigit = true ∨ ch = '.' ∨ ch = '-'

/-! ## Printed numbers -/

variable {display : ℚ → String}

theorem isDigit_of_mem_toString {n : Nat} {ch : Char} (h : ch ∈ (toString n).toList) :
    ch.isDigit = true := by
  rw [Nat.toString_eq_repr, Nat.repr, String.toList_ofList] at h
  exact Nat.isDigit_of_mem_toDigits (b := 10) (by decide) (by decide) h

theorem mem_toString_int {n : Int} {ch : Char} (h : ch ∈ (toString n).toList) :
    ch.isDigit = true ∨ ch = '-' := by
  cases n with
  | ofNat m => exact Or.inl (isDigit_of_mem_toString (n := m) h)
  | negSucc m =>
    have htext : (toString (Int.negSucc m)).toList = '-' :: (toString (m + 1)).toList := by
      show ("-" ++ toString (m + 1)).toList = _
      rw [String.toList_append]
      rfl
    rw [htext, List.mem_cons] at h
    exact h.elim Or.inr fun hmem => Or.inl (isDigit_of_mem_toString hmem)

/-- A printed number is made of letters, digits, points and minus signs. -/
theorem mem_number (hdisplay : Decimal display) {value : F64} {ch : Char}
    (h : ch ∈ (number display value).toList) : ch.isAlphanum = true ∨ ch = '.' ∨ ch = '-' := by
  have hdigit : ch.isDigit = true → ch.isAlphanum = true := fun hch => by
    simp [Char.isAlphanum, hch]
  cases value with
  | finite value =>
    rw [number] at h
    split_ifs at h
    · exact (mem_toString_int h).elim (Or.inl ∘ hdigit) (Or.inr ∘ Or.inr)
    · exact (hdisplay value ch h).imp_left hdigit
  | infinite negative =>
    cases negative with
    | false =>
      have hall : "inf".toList.all Char.isAlphanum = true := by decide
      exact Or.inl (List.all_eq_true.mp hall ch h)
    | true =>
      have hall : "inf".toList.all Char.isAlphanum = true := by decide
      have hchars : (number display (.infinite true)).toList = '-' :: "inf".toList := by
        simp [number]
      rw [hchars, List.mem_cons] at h
      exact h.elim (Or.inr ∘ Or.inr) fun hmem => Or.inl (List.all_eq_true.mp hall ch hmem)
  | nan =>
    have hall : "NaN".toList.all Char.isAlphanum = true := by decide
    exact Or.inl (List.all_eq_true.mp hall ch h)

theorem number_notMem (hdisplay : Decimal display) (value : F64) {ch : Char}
    (hch : (ch.isAlphanum || ch == '.' || ch == '-') = false) :
    ch ∉ (number display value).toList := by
  intro hmem
  rcases mem_number hdisplay hmem with h | rfl | rfl
  · simp [h] at hch
  · simp at hch
  · simp at hch

/-- No boundary prints as the one every observation is below. -/
theorem number_ne_inf (hdisplay : Decimal display) (value : F64) :
    number display value ≠ "+Inf" := by
  intro heq
  have hplus : '+' ∉ (number display value).toList := number_notMem hdisplay value (by decide)
  rw [heq] at hplus
  exact hplus (by decide)

/-! ## The text is the lines, written out -/

theorem escapedChar_eq (ch : Char) : escapedChar ch = TextFormat.escape ch := by
  unfold escapedChar TextFormat.escape
  split
  · rfl
  · rfl
  · rfl
  · next hbackslash hquote hnewline =>
    rw [if_neg hbackslash, if_neg hquote, if_neg hnewline]

theorem toList_escaped (value : String) :
    (escaped value).toList = value.toList.flatMap TextFormat.escape := by
  rw [escaped, String.toList_ofList]
  congr 1
  funext ch
  exact escapedChar_eq ch

/-- Help text stays on its line. -/
theorem newline_notMem_escaped (value : String) : '\n' ∉ (escaped value).toList := by
  rw [toList_escaped]
  exact TextFormat.newline_notMem_flatMap _

/-- A number needs no escape. -/
theorem escaped_of_plain {text : String}
    (h : ∀ ch ∈ text.toList, ch ≠ '\\' ∧ ch ≠ '"' ∧ ch ≠ '\n') : escaped text = text := by
  apply String.toList_injective
  rw [toList_escaped, TextFormat.flatMap_escape_of_plain h]

theorem escaped_number (hdisplay : Decimal display) (value : F64) :
    escaped (number display value) = number display value := by
  refine escaped_of_plain fun ch hch => ?_
  refine ⟨?_, ?_, ?_⟩ <;> rintro rfl
  · exact number_notMem hdisplay value (by decide) hch
  · exact number_notMem hdisplay value (by decide) hch
  · exact number_notMem hdisplay value (by decide) hch

/-- A label and its value, as the loop writes them. -/
def labelText (label : Label) : String := label.1 ++ "=\"" ++ escaped label.2 ++ "\""

theorem toList_labelText (label : Label) : (labelText label).toList = writeLabel label := by
  simp [labelText, writeLabel, toList_escaped]

theorem joinWith_concat (separator t : String) (l : List String) :
    joinWith separator (l ++ [t]) =
      if l = [] then t else joinWith separator l ++ separator ++ t := by
  induction l with
  | nil => rfl
  | cons s l ih =>
    cases l with
    | nil => rfl
    | cons r rest =>
      rw [List.cons_append, List.cons_append, joinWith, ← List.cons_append, ih]
      simp [joinWith, String.append_assoc]

theorem toList_joinWith (set : List Label) :
    (joinWith "," (set.map labelText)).toList ++ ['}'] = writeLabels set := by
  induction set with
  | nil => rfl
  | cons label set ih =>
    cases set with
    | nil => simp [joinWith, writeLabels, toList_labelText]
    | cons label' rest =>
      rw [writeLabels, ← ih]
      simp [joinWith, toList_labelText]

/-- The label set of a line, `le` being the last label when there is one. -/
theorem toList_labels (set : List Label) {le : Option String}
    (hle : ∀ boundary ∈ le, escaped boundary = boundary) :
    (labels set le).toList =
      writeLabelSet (set ++ le.toList.map fun boundary => ("le", boundary)) := by
  have hpairs : (set.map fun (name, value) => name ++ "=\"" ++ escaped value ++ "\"") =
      set.map labelText := rfl
  cases le with
  | none =>
    by_cases hset : set = []
    · subst hset
      rfl
    · rw [labels, hpairs, if_neg (by simp [hset])]
      simp [writeLabelSet, hset, ← toList_joinWith]
  | some boundary =>
    have hlast : (labelText ("le", boundary)).toList =
        'l' :: 'e' :: '=' :: '"' :: (boundary.toList ++ ['"']) := by
      rw [labelText, hle boundary rfl]
      simp
    have hwritten : writeLabelSet (set ++ [("le", boundary)]) =
        '{' :: ((joinWith "," (set.map labelText ++ [labelText ("le", boundary)])).toList ++
          ['}']) := by
      rw [writeLabelSet, if_neg (by simp), ← toList_joinWith, List.map_append, List.map_singleton]
    rw [labels, hpairs, if_neg (by simp)]
    show _ = writeLabelSet (set ++ [("le", boundary)])
    rw [hwritten, joinWith_concat]
    by_cases hset : set = []
    · subst hset
      simp [joinWith, hlast]
    · simp [hset, hlast]

/-- The lines of a sample, written out. -/
theorem toList_renderReading (hdisplay : Decimal display) (sample : Sample F64) :
    (renderReading display sample).toList = write (sample.lines display) := by
  have hnone : (labels sample.labels none).toList = writeLabelSet sample.labels := by
    have hset : (labels sample.labels none).toList = writeLabelSet (sample.labels ++ []) :=
      toList_labels sample.labels (by simp)
    rwa [List.append_nil] at hset
  have hbucket : ∀ boundary slot, escaped boundary = boundary →
      (sample.metric.name ++ "_bucket" ++ labels sample.labels (some boundary) ++ " " ++
        toString slot ++ "\n").toList = (sample.bucket boundary slot).write ++ ['\n'] := by
    intro boundary slot hboundary
    have hset : (labels sample.labels (some boundary)).toList =
        writeLabelSet (sample.labels ++ [("le", boundary)]) :=
      toList_labels sample.labels (by simpa using hboundary)
    simp [Sample.bucket, Line.write, hset]
  unfold renderReading Sample.lines
  cases sample.reading with
  | value value => simp [Line.write, hnone]
  | distribution buckets count sum =>
    have hbuckets : (buckets.map fun (boundary, slot) =>
        sample.metric.name ++ "_bucket" ++ labels sample.labels (some (number display boundary)) ++
          " " ++ toString slot ++ "\n").flatMap String.toList =
        write (buckets.map fun b => sample.bucket (number display b.1) b.2) := by
      rw [write, List.flatMap_map, List.flatMap_map]
      congr 1
      funext b
      exact hbucket _ _ (escaped_number hdisplay b.1)
    have hinf := hbucket "+Inf" count (escaped_of_plain (by simp))
    show (String.join (buckets.map _) ++ _ ++ _ ++ _).toList = _
    rw [String.toList_append, String.toList_append, String.toList_append, String.toList_join,
      hbuckets, hinf]
    simp [Line.write, hnone]

/-- One step of the loop writes what its sample denotes. -/
theorem toList_renderSample (hdisplay : Decimal display) (state : Rendering) (sample : Sample F64) :
    (renderSample display state sample).out.toList = state.out.toList ++
      write ((if state.described = some sample.metric.name then [] else sample.describing) ++
        sample.lines display) ∧
    (renderSample display state sample).described = some sample.metric.name := by
  unfold renderSample
  by_cases hsame : state.described = some sample.metric.name
  · simp [hsame, toList_renderReading hdisplay]
  · simp [hsame, toList_renderReading hdisplay, Sample.describing, Line.write, HELP, TYPE]

/-- **The text is the lines the samples denote**, written out, whatever the label values are. -/
theorem render_eq (hdisplay : Decimal display) (samples : List (Sample F64)) :
    (render display samples).toList = write (denoted display samples) := by
  suffices hfold : ∀ state : Rendering, (samples.foldl (renderSample display) state).out.toList =
      state.out.toList ++ write (denotedAfter display state.described samples) by
    exact (hfold ⟨"", none⟩).trans (List.nil_append _)
  induction samples with
  | nil => exact fun state => (List.append_nil _).symm
  | cons sample samples ih =>
    intro state
    have hstep := toList_renderSample hdisplay state sample
    rw [List.foldl_cons, ih, hstep.1, hstep.2, denotedAfter, List.append_assoc,
      ← TextFormat.write_append]

end PicX.Metrics
