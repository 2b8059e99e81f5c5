import PicX.Metrics.Counting
import PicX.Metrics.Exposition

/-!
# The exposition cannot be broken out of

What a reader of the text format finds in the text of some samples.

* `Named`, `Grouped` — plain names, and samples grouped by name, as a snapshot's are.
* `scrape_exact` — the reader finds the lines the samples denote, each name described once and one
  `+Inf` bucket for each histogram, and a label value never changes more than itself.
* `grouped_snapshot` — a snapshot of the registry is grouped.
-/

namespace PicX.Metrics

open PicX.TextFormat (Line Plain write)

/-- The names of metrics and labels are plain identifiers. -/
def Named (samples : List (Sample F64)) : Prop :=
  ∀ sample ∈ samples, Plain sample.metric.name ∧ ∀ label ∈ sample.labels, Plain label.1

/-- Between two places of a name there is no other. -/
def Grouped (names : List String) : Prop :=
  ∀ before between after name, names = before ++ name :: between ++ name :: after →
    ∀ other ∈ between, other = name

/-- A reading with other numbers. -/
def Reading.map {V W : Type} (f : V → W) : Reading V → Reading W
  | .value v => .value (f v)
  | .distribution buckets count sum =>
    .distribution (buckets.map fun b => (f b.1, b.2)) count (f sum)

/-- What a sample shows: its name, its labels, and its reading with the numbers as they print. -/
def Sample.shown (display : ℚ → String) (sample : Sample F64) :
    String × List Label × Reading String :=
  (sample.metric.name, sample.labels, sample.reading.map (number display))

/-- What samples show of the names that come up: the first of a name its help and its kind. -/
def descriptions : Option String → List (Sample F64) → List (String × String × Kind)
  | _, [] => []
  | described, sample :: samples =>
    (if described = some sample.metric.name then []
      else [(sample.metric.name, sample.metric.help, sample.metric.kind)]) ++
      descriptions (some sample.metric.name) samples

/-- The same sample but for the values of its labels. -/
structure Sample.Relabelled (sample sample' : Sample F64) : Prop where
  metric : sample.metric = sample'.metric
  reading : sample.reading = sample'.reading
  labels : sample.labels.map Prod.fst = sample'.labels.map Prod.fst

/-! ## Kinds of lines -/

def helpOf : Line → Option String
  | .help name _ => some name
  | _ => none

def typeOf : Line → Option String
  | .type name _ => some name
  | _ => none

def isSeries : Line → Bool
  | .series _ _ _ => true
  | _ => false

/-- The bucket of a name that every observation is below. -/
def isInf (name : String) : Line → Bool
  | .series series labels _ =>
    series = name ++ "_bucket" ∧ labels.getLast? = some ("le", "+Inf")
  | _ => false

/-- The same line but for the values of its labels. -/
def Alike : Line → Line → Prop
  | .series name labels value, .series name' labels' value' =>
    name = name' ∧ labels.map Prod.fst = labels'.map Prod.fst ∧ value = value'
  | line, line' => line = line'

theorem Alike.refl (line : Line) : Alike line line := by
  cases line with
  | help name text => exact rfl
  | type name kind => exact rfl
  | series name labels value => exact ⟨rfl, rfl, rfl⟩

variable {display : ℚ → String} {sample sample' : Sample F64} {samples samples' : List (Sample F64)}
variable {before : Option String}

/-! ## The lines of a sample -/

theorem lines_value {v : F64} (h : sample.reading = .value v) : sample.lines display =
    [.series sample.metric.name sample.labels (number display v)] := by
  unfold Sample.lines
  rw [h]

theorem lines_distribution {buckets : List (F64 × Nat)} {count : Nat} {sum : F64}
    (h : sample.reading = .distribution buckets count sum) : sample.lines display =
      (buckets.map fun b => sample.bucket (number display b.1) b.2) ++
        [sample.bucket "+Inf" count,
          .series (sample.metric.name ++ "_sum") sample.labels (number display sum),
          .series (sample.metric.name ++ "_count") sample.labels (toString count)] := by
  unfold Sample.lines
  rw [h]

/-- The first line of a histogram is a bucket. -/
theorem lines_head (display : ℚ → String) {buckets : List (F64 × Nat)} {count : Nat} {sum : F64}
    (h : sample.reading = .distribution buckets count sum) : ∃ le slot rest,
      sample.lines display = sample.bucket le slot :: rest := by
  rw [lines_distribution h]
  cases buckets with
  | nil => exact ⟨_, _, _, rfl⟩
  | cons b buckets => exact ⟨_, _, _, rfl⟩

theorem isSeries_of_mem_lines {line : Line} (h : line ∈ sample.lines display) :
    isSeries line = true := by
  cases hreading : sample.reading with
  | value v =>
    rw [lines_value hreading] at h
    rw [List.mem_singleton.mp h]
    rfl
  | distribution buckets count sum =>
    rw [lines_distribution hreading] at h
    simp only [List.mem_append, List.mem_map, List.mem_cons, List.not_mem_nil, or_false] at h
    rcases h with ⟨b, -, rfl⟩ | rfl | rfl | rfl
    · rfl
    · rfl
    · rfl
    · rfl

/-- A sample denotes a line. -/
theorem exists_lines_cons (display : ℚ → String) (sample : Sample F64) :
    ∃ line rest, sample.lines display = line :: rest ∧ isSeries line = true := by
  have hcons : ∃ line rest, sample.lines display = line :: rest := by
    cases hreading : sample.reading with
    | value v => exact ⟨_, _, lines_value hreading⟩
    | distribution buckets count sum =>
      obtain ⟨le, slot, rest, heq⟩ := lines_head display hreading
      exact ⟨_, _, heq⟩
  obtain ⟨line, rest, heq⟩ := hcons
  exact ⟨line, rest, heq, isSeries_of_mem_lines (heq ▸ List.mem_cons_self)⟩

/-! ## Every line can be read -/

theorem plain_append {name suffix : String} (h : Plain name) (hsuffix : Plain suffix) :
    Plain (name ++ suffix) := by
  refine ⟨?_, fun ch hch => ?_⟩
  · intro hempty
    rw [String.append_eq_empty_iff] at hempty
    exact h.1 hempty.1
  · rw [String.toList_append, List.mem_append] at hch
    exact hch.elim (h.2 ch) (hsuffix.2 ch)

theorem newline_notMem_toString (n : Nat) : '\n' ∉ (toString n).toList := by
  intro hmem
  have hdigit := isDigit_of_mem_toString hmem
  revert hdigit
  decide

theorem sound_bucket (hname : Plain sample.metric.name)
    (hlabels : ∀ label ∈ sample.labels, Plain label.1) (le : String) (count : Nat) :
    (sample.bucket le count).Sound := by
  refine ⟨plain_append hname (by decide), fun label hlabel => ?_, newline_notMem_toString count⟩
  cases List.mem_append.mp hlabel with
  | inl hmem => exact hlabels label hmem
  | inr hmem =>
    rw [List.mem_singleton.mp hmem]
    exact (by decide : Plain "le")

theorem sound_lines (hdisplay : Decimal display) (hname : Plain sample.metric.name)
    (hlabels : ∀ label ∈ sample.labels, Plain label.1) :
    ∀ line ∈ sample.lines display, line.Sound := by
  have hnumber : ∀ value, '\n' ∉ (number display value).toList := fun value =>
    number_notMem hdisplay value (by decide)
  intro line hline
  cases hreading : sample.reading with
  | value v =>
    rw [lines_value hreading] at hline
    rw [List.mem_singleton.mp hline]
    exact ⟨hname, hlabels, hnumber v⟩
  | distribution buckets count sum =>
    rw [lines_distribution hreading] at hline
    simp only [List.mem_append, List.mem_map, List.mem_cons, List.not_mem_nil, or_false] at hline
    rcases hline with ⟨b, -, rfl⟩ | rfl | rfl | rfl
    · exact sound_bucket hname hlabels _ _
    · exact sound_bucket hname hlabels _ _
    · exact ⟨plain_append hname (by decide), hlabels, hnumber sum⟩
    · exact ⟨plain_append hname (by decide), hlabels, newline_notMem_toString count⟩

theorem sound_describing (hname : Plain sample.metric.name) :
    ∀ line ∈ sample.describing, line.Sound := by
  have hkind : ∀ k : Kind, '\n' ∉ (kind k).toList := by
    intro k
    cases k <;> decide
  intro line hline
  simp only [Sample.describing, List.mem_cons, List.not_mem_nil, or_false] at hline
  rcases hline with rfl | rfl
  · exact ⟨hname, newline_notMem_escaped _⟩
  · exact ⟨hname, hkind _⟩

theorem sound_denotedAfter (hdisplay : Decimal display) (hnamed : Named samples) :
    ∀ line ∈ denotedAfter display before samples, line.Sound := by
  induction samples generalizing before with
  | nil => simp [denotedAfter]
  | cons sample samples ih =>
    obtain ⟨hname, hlabels⟩ := hnamed sample List.mem_cons_self
    have hrest : ∀ line ∈ denotedAfter display (some sample.metric.name) samples, line.Sound :=
      ih fun s hs => hnamed s (List.mem_cons_of_mem _ hs)
    intro line hline
    rw [denotedAfter, List.mem_append, List.mem_append] at hline
    rcases hline with (hhead | hown) | hlater
    · split_ifs at hhead
      · cases hhead
      · exact sound_describing hname line hhead
    · exact sound_lines hdisplay hname hlabels line hown
    · exact hrest line hlater

/-- **The reader recovers the lines the samples denote.** -/
theorem read_render (hdisplay : Decimal display) (hnamed : Named samples) :
    TextFormat.read (render display samples).toList = some (denoted display samples) := by
  rw [render_eq hdisplay]
  exact TextFormat.read_write (sound_denotedAfter hdisplay hnamed)

/-! ## Described once -/

/-- The names that are described: each that is not the one before it. -/
def described (before : Option String) : List String → List String
  | [] => []
  | name :: names => (if before = some name then [] else [name]) ++ described (some name) names

/-- What picks one line of those that describe a name, and no series, finds the names described. -/
theorem filterMap_denotedAfter {pick : Line → Option String}
    (hdescribing : ∀ sample : Sample F64, sample.describing.filterMap pick = [sample.metric.name])
    (hseries : ∀ line, isSeries line = true → pick line = none) (before : Option String)
    (samples : List (Sample F64)) : (denotedAfter display before samples).filterMap pick =
      described before (samples.map fun s => s.metric.name) := by
  induction samples generalizing before with
  | nil => rfl
  | cons sample samples ih =>
    have hown : (sample.lines display).filterMap pick = [] :=
      List.filterMap_eq_nil_iff.mpr fun line hline => hseries line (isSeries_of_mem_lines hline)
    rw [denotedAfter, List.filterMap_append, List.filterMap_append, hown, ih, List.append_nil,
      List.map_cons, described]
    split_ifs
    · rfl
    · rw [hdescribing]

theorem pick_series {pick : Line → Option String} (h : ∀ name labels value,
    pick (.series name labels value) = none) (line : Line) (hline : isSeries line = true) :
    pick line = none := by
  cases line with
  | help name text => cases hline
  | type name kind => cases hline
  | series name labels value => exact h name labels value

theorem Grouped.tail {name : String} {names : List String} (h : Grouped (name :: names)) :
    Grouped names := by
  intro before between after other heq
  exact h (name :: before) between after other (by rw [heq]; rfl)

/-- A name that another follows does not come again. -/
theorem Grouped.notMem {name other : String} {names : List String}
    (h : Grouped (name :: other :: names)) (hne : other ≠ name) : name ∉ other :: names := by
  intro hmem
  cases hmem with
  | head => exact hne rfl
  | tail _ hlater =>
    obtain ⟨between, after, heq⟩ := List.append_of_mem hlater
    exact hne (h [] (other :: between) after name (by rw [heq]; rfl) other List.mem_cons_self)

theorem described_of_grouped {name : String} {names : List String} (h : Grouped (name :: names)) :
    described (some name) names = (names.filter fun other => !other == name).eraseDups := by
  induction names generalizing name with
  | nil => rfl
  | cons other names ih =>
    by_cases heq : other = name
    · subst heq
      rw [described, if_pos rfl, List.nil_append, ih h.tail, List.filter_cons_of_neg (by simp)]
    · have hfresh := h.notMem heq
      have hkeep : (other :: names).filter (fun n => !n == name) = other :: names := by
        refine List.filter_eq_self.mpr fun n hn => ?_
        simpa using fun heq : n = name => hfresh (heq ▸ hn)
      rw [hkeep, described, if_neg (by simpa using fun heq' => heq heq'.symm), ih h.tail,
        List.eraseDups_cons]
      rfl

/-- Where the names are grouped, each is described once, where it first comes up. -/
theorem described_eq_eraseDups {names : List String} (h : Grouped names) :
    described none names = names.eraseDups := by
  cases names with
  | nil => rfl
  | cons name names =>
    rw [described, if_neg (by simp), described_of_grouped h, List.eraseDups_cons]
    rfl

/-- Names in order are grouped. -/
theorem grouped_of_pairwise {names : List String} (h : names.Pairwise (· ≤ ·)) : Grouped names := by
  intro before between after name heq other hother
  rw [heq, List.append_assoc, List.pairwise_append, List.cons_append, List.pairwise_cons,
    List.pairwise_append] at h
  obtain ⟨-, ⟨hfirst, -, -, hlast⟩, -⟩ := h
  exact le_antisymm (hlast other hother name List.mem_cons_self)
    (hfirst other (List.mem_append_left _ hother))

/-! ## The series lines -/

/-- The series lines are those of the samples, in order. -/
theorem series_denotedAfter (display : ℚ → String) (before : Option String)
    (samples : List (Sample F64)) :
    (denotedAfter display before samples).filter isSeries =
      samples.flatMap (Sample.lines display) := by
  induction samples generalizing before with
  | nil => rfl
  | cons sample samples ih =>
    have hhead : (if before = some sample.metric.name then [] else
        sample.describing).filter isSeries = [] := by
      split_ifs
      · rfl
      · rfl
    have hown : (sample.lines display).filter isSeries = sample.lines display :=
      List.filter_eq_self.mpr fun line => isSeries_of_mem_lines
    rw [denotedAfter, List.filter_append, List.filter_append, hhead, hown, ih, List.flatMap_cons]
    rfl

theorem append_ne_append {name s t : String} (h : s ≠ t) : name ++ s ≠ name ++ t := by
  intro heq
  apply h
  have hlists := congrArg String.toList heq
  rw [String.toList_append, String.toList_append] at hlists
  exact String.toList_injective (List.append_cancel_left hlists)

/-- A histogram has one bucket that every observation is below. -/
theorem filter_isInf (hdisplay : Decimal display) {buckets : List (F64 × Nat)} {count : Nat}
    {sum : F64} (h : sample.reading = .distribution buckets count sum) :
    (sample.lines display).filter (isInf sample.metric.name) = [sample.bucket "+Inf" count] := by
  have hbuckets : (buckets.map fun b => sample.bucket (number display b.1) b.2).filter
      (isInf sample.metric.name) = [] := by
    rw [List.filter_eq_nil_iff]
    intro line hline
    obtain ⟨b, -, rfl⟩ := List.mem_map.mp hline
    simp [Sample.bucket, isInf, number_ne_inf hdisplay]
  have hsum : sample.metric.name ++ "_sum" ≠ sample.metric.name ++ "_bucket" :=
    append_ne_append (by decide)
  have hcount : sample.metric.name ++ "_count" ≠ sample.metric.name ++ "_bucket" :=
    append_ne_append (by decide)
  rw [lines_distribution h, List.filter_append, hbuckets]
  simp [Sample.bucket, isInf, hsum, hcount]

/-! ## The text says what was rendered -/

theorem toString_injective {n m : Nat} (h : toString n = toString m) : n = m := by
  have hdigits : Nat.toDigits 10 n = Nat.toDigits 10 m := String.ofList_injective h
  have hn := Json.readNat_writeNat n ',' [] (by decide)
  have hm := Json.readNat_writeNat m ',' [] (by decide)
  unfold Json.writeNat at hn hm
  rw [hdigits, hm] at hn
  exact (congrArg Prod.fst (Option.some.inj hn)).symm

theorem bucket_inj {le le' : String} {count count' : Nat}
    (h : sample.bucket le count = sample'.bucket le' count') :
    sample.labels = sample'.labels ∧ le = le' ∧ count = count' := by
  injection h with _ hlabels hcount
  obtain ⟨hown, hlast⟩ := List.append_inj' hlabels rfl
  injection hlast with hpair _
  exact ⟨hown, congrArg Prod.snd hpair, toString_injective hcount⟩

/-- The buckets of a histogram are cut off where `+Inf` stands. -/
theorem buckets_inj (hdisplay : Decimal display) {buckets buckets' : List (F64 × Nat)}
    {count count' : Nat} {rest rest' : List Line}
    (h : (buckets.map fun b => sample.bucket (number display b.1) b.2) ++
        sample.bucket "+Inf" count :: rest =
      (buckets'.map fun b => sample'.bucket (number display b.1) b.2) ++
        sample'.bucket "+Inf" count' :: rest') :
    sample.labels = sample'.labels ∧
      (buckets.map fun b => (number display b.1, b.2)) =
        (buckets'.map fun b => (number display b.1, b.2)) ∧
      count = count' ∧ rest = rest' := by
  induction buckets generalizing buckets' with
  | nil =>
    cases buckets' with
    | nil =>
      obtain ⟨hbucket, hrest⟩ := List.cons.inj h
      obtain ⟨hlabels, -, hcount⟩ := bucket_inj hbucket
      exact ⟨hlabels, rfl, hcount, hrest⟩
    | cons b' buckets' =>
      obtain ⟨-, hle, -⟩ := bucket_inj (List.cons.inj h).1
      exact absurd hle.symm (number_ne_inf hdisplay b'.1)
  | cons b buckets ih =>
    cases buckets' with
    | nil =>
      obtain ⟨-, hle, -⟩ := bucket_inj (List.cons.inj h).1
      exact absurd hle (number_ne_inf hdisplay b.1)
    | cons b' buckets' =>
      obtain ⟨hbucket, hmore⟩ := List.cons.inj h
      obtain ⟨-, hle, hslot⟩ := bucket_inj hbucket
      obtain ⟨hlabels, hbuckets, hcount, hrest⟩ := ih hmore
      refine ⟨hlabels, ?_, hcount, hrest⟩
      rw [List.map_cons, List.map_cons, hle, hslot, hbuckets]

theorem ne_append {name suffix : String} (h : suffix ≠ "") : name ≠ name ++ suffix := by
  intro heq
  have happend : name ++ "" ≠ name ++ suffix := append_ne_append h.symm
  rw [String.append_empty] at happend
  exact happend heq

/-- A number's line is not the first of a histogram. -/
theorem lines_ne (hname : sample.metric.name = sample'.metric.name) {v : F64}
    (hvalue : sample.reading = .value v) {buckets : List (F64 × Nat)} {count : Nat} {sum : F64}
    (hdistribution : sample'.reading = .distribution buckets count sum) (rest rest' : List Line) :
    sample.lines display ++ rest ≠ sample'.lines display ++ rest' := by
  intro heq
  obtain ⟨le, slot, more, hlines⟩ := lines_head display hdistribution
  rw [lines_value hvalue, hlines] at heq
  injection heq with hfirst _
  injection hfirst with hnames _ _
  exact ne_append (by decide) (hnames.trans (congrArg (· ++ "_bucket") hname.symm))

/-- The lines of two samples of one name show the same, and what follows them is the same. -/
theorem lines_inj (hdisplay : Decimal display) (hname : sample.metric.name = sample'.metric.name)
    {rest rest' : List Line}
    (h : sample.lines display ++ rest = sample'.lines display ++ rest') :
    sample.shown display = sample'.shown display ∧ rest = rest' := by
  cases hreading : sample.reading with
  | value v =>
    cases hreading' : sample'.reading with
    | value v' =>
      rw [lines_value hreading, lines_value hreading'] at h
      injection h with hfirst hrest
      injection hfirst with _ hlabels hnumber
      refine ⟨?_, hrest⟩
      simp only [Sample.shown, hreading, hreading', hname, hlabels, Reading.map, hnumber]
    | distribution buckets' count' sum' =>
      exact absurd h (lines_ne hname hreading hreading' rest rest')
  | distribution buckets count sum =>
    cases hreading' : sample'.reading with
    | value v' => exact absurd h.symm (lines_ne hname.symm hreading' hreading rest' rest)
    | distribution buckets' count' sum' =>
      rw [lines_distribution hreading, lines_distribution hreading', List.append_assoc,
        List.append_assoc] at h
      obtain ⟨hlabels, hbuckets, hcount, htotals⟩ := buckets_inj hdisplay h
      injection htotals with hsum hmore
      injection hsum with _ _ hnumber
      injection hmore with _ hrest
      refine ⟨?_, hrest⟩
      simp only [Sample.shown, hreading, hreading', hname, hlabels, Reading.map, hbuckets, hcount,
        hnumber]

/-- Two texts that are escaped alike are the same. -/
theorem escaped_injective : Function.Injective escaped := by
  intro text text' h
  have hquoted := TextFormat.readQuoted_flatMap text.toList []
  rw [← toList_escaped, h, toList_escaped, TextFormat.readQuoted_flatMap] at hquoted
  exact (String.toList_injective (congrArg Prod.fst (Option.some.inj hquoted))).symm

theorem kind_injective : Function.Injective kind := by
  intro k k' h
  cases k <;> cases k' <;> first | rfl | exact absurd h (by decide)

/-- What comes first says whether a name is described there, and what of it. -/
theorem denotedAfter_cons_inj (hdisplay : Decimal display)
    (h : denotedAfter display before (sample :: samples) =
      denotedAfter display before (sample' :: samples')) :
    sample.shown display = sample'.shown display ∧
      (before ≠ some sample.metric.name → sample.metric.help = sample'.metric.help ∧
        sample.metric.kind = sample'.metric.kind) ∧
      denotedAfter display (some sample.metric.name) samples =
        denotedAfter display (some sample'.metric.name) samples' := by
  have hmixed : ∀ {s t : Sample F64} {rest rest' : List Line},
      s.lines display ++ rest ≠ t.describing ++ rest' := by
    intro s t rest rest' heq
    obtain ⟨line, more, hlines, hseries⟩ := exists_lines_cons display s
    rw [hlines] at heq
    rw [(List.cons.inj heq).1] at hseries
    cases hseries
  rw [denotedAfter, denotedAfter, List.append_assoc, List.append_assoc] at h
  by_cases hs : before = some sample.metric.name
  · by_cases ht : before = some sample'.metric.name
    · rw [if_pos hs, if_pos ht] at h
      obtain ⟨hshown, hrest⟩ := lines_inj hdisplay (Option.some.inj (hs.symm.trans ht)) h
      exact ⟨hshown, fun hnot => absurd hs hnot, hrest⟩
    · rw [if_pos hs, if_neg ht] at h
      exact absurd h hmixed
  · by_cases ht : before = some sample'.metric.name
    · rw [if_neg hs, if_pos ht] at h
      exact absurd h.symm hmixed
    · rw [if_neg hs, if_neg ht] at h
      injection h with hhelp hmore
      injection hmore with htype hlines
      injection hhelp with hname htext
      injection htype with _ hkind
      obtain ⟨hshown, hrest⟩ := lines_inj hdisplay hname hlines
      exact ⟨hshown, fun _ => ⟨escaped_injective htext, kind_injective hkind⟩, hrest⟩

theorem denotedAfter_cons_ne_nil : denotedAfter display before (sample :: samples) ≠ [] := by
  intro hnil
  obtain ⟨line, rest, hlines, -⟩ := exists_lines_cons display sample
  rw [denotedAfter, hlines] at hnil
  simp at hnil

/-- **The lines say what was rendered**: every sample's name, labels and printed reading, and the
help and the kind of every name. -/
theorem shown_of_denotedAfter (hdisplay : Decimal display)
    (h : denotedAfter display before samples = denotedAfter display before samples') :
    samples.map (Sample.shown display) = samples'.map (Sample.shown display) ∧
      descriptions before samples = descriptions before samples' := by
  induction samples generalizing before samples' with
  | nil =>
    cases samples' with
    | nil => exact ⟨rfl, rfl⟩
    | cons sample' samples' => exact absurd h.symm denotedAfter_cons_ne_nil
  | cons sample samples ih =>
    cases samples' with
    | nil => exact absurd h denotedAfter_cons_ne_nil
    | cons sample' samples' =>
      obtain ⟨hshown, hdescribed, hrest⟩ := denotedAfter_cons_inj hdisplay h
      have hname : sample.metric.name = sample'.metric.name := congrArg Prod.fst hshown
      rw [hname] at hrest
      obtain ⟨hmore, hdescriptions⟩ := ih hrest
      refine ⟨by rw [List.map_cons, List.map_cons, hshown, hmore], ?_⟩
      rw [descriptions, descriptions, hname, hdescriptions]
      by_cases hsame : before = some sample'.metric.name
      · rw [if_pos hsame, if_pos hsame]
      · obtain ⟨hhelp, hkind⟩ := hdescribed (hname ▸ hsame)
        rw [hhelp, hkind]

/-! ## Other label values -/

theorem alike_refl (lines : List Line) : List.Forall₂ Alike lines lines :=
  List.forall₂_same.mpr fun line _ => Alike.refl line

theorem alike_bucket (h : Sample.Relabelled sample sample') (le : String) (count : Nat) :
    Alike (sample.bucket le count) (sample'.bucket le count) := by
  refine ⟨congrArg (fun metric : Metric F64 => metric.name ++ "_bucket") h.metric, ?_, rfl⟩
  rw [List.map_append, List.map_append, h.labels]

theorem alike_lines (display : ℚ → String) (h : Sample.Relabelled sample sample') :
    List.Forall₂ Alike (sample.lines display) (sample'.lines display) := by
  have hname : ∀ suffix, sample.metric.name ++ suffix = sample'.metric.name ++ suffix := by
    intro suffix
    rw [h.metric]
  cases hreading : sample.reading with
  | value v =>
    rw [lines_value hreading, lines_value (h.reading ▸ hreading)]
    exact .cons ⟨congrArg Metric.name h.metric, h.labels, rfl⟩ .nil
  | distribution buckets count sum =>
    rw [lines_distribution hreading, lines_distribution (h.reading ▸ hreading)]
    refine List.rel_append ?_ (.cons (alike_bucket h _ _) (.cons ?_ (.cons ?_ .nil)))
    · rw [List.forall₂_map_left_iff, List.forall₂_map_right_iff, List.forall₂_same]
      exact fun b _ => alike_bucket h _ _
    · exact ⟨hname _, h.labels, rfl⟩
    · exact ⟨hname _, h.labels, rfl⟩

/-- A label value adds, removes and alters no line but for its own place in it. -/
theorem alike_denotedAfter (display : ℚ → String) (before : Option String)
    (h : List.Forall₂ Sample.Relabelled samples samples') :
    List.Forall₂ Alike (denotedAfter display before samples)
      (denotedAfter display before samples') := by
  induction h generalizing before with
  | nil => exact .nil
  | cons hsample _ ih =>
    rw [denotedAfter, denotedAfter, Sample.describing, Sample.describing, hsample.metric]
    exact List.rel_append (List.rel_append (alike_refl _) (alike_lines display hsample)) (ih _)

theorem Named.relabelled (hnamed : Named samples)
    (h : List.Forall₂ Sample.Relabelled samples samples') : Named samples' := by
  induction h with
  | nil => exact hnamed
  | cons hsample _ ih =>
    obtain ⟨hname, hlabels⟩ := hnamed _ List.mem_cons_self
    have hrest := ih fun s hs => hnamed s (List.mem_cons_of_mem _ hs)
    intro t ht
    cases ht with
    | head =>
      refine ⟨hsample.metric ▸ hname, fun label hlabel => ?_⟩
      have hfirst := List.mem_map_of_mem (f := Prod.fst) hlabel
      rw [← hsample.labels] at hfirst
      obtain ⟨own, hown, heq⟩ := List.mem_map.mp hfirst
      exact heq ▸ hlabels own hown
    | tail _ hlater => exact hrest t hlater

/-! ## The whole text -/

/-- **The exposition cannot be broken out of.** A reader of the text of some samples finds the lines
they denote: their series in order with their labels and printed numbers, what describes a name once
where it first comes up, and one `+Inf` bucket for each histogram. The text says what was rendered,
and other label values change nothing but themselves. -/
theorem scrape_exact (hdisplay : Decimal display) (hnamed : Named samples)
    (hgrouped : Grouped (samples.map fun s => s.metric.name)) :
    ∃ lines, TextFormat.read (render display samples).toList = some lines ∧
      lines.filter isSeries = samples.flatMap (Sample.lines display) ∧
      lines.filterMap helpOf = (samples.map fun s => s.metric.name).eraseDups ∧
      lines.filterMap typeOf = (samples.map fun s => s.metric.name).eraseDups ∧
      (∀ s ∈ samples, ∀ buckets count sum, s.reading = .distribution buckets count sum →
        (s.lines display).filter (isInf s.metric.name) = [s.bucket "+Inf" count]) ∧
      (∀ samples', Named samples' → render display samples' = render display samples →
        samples'.map (Sample.shown display) = samples.map (Sample.shown display) ∧
          descriptions none samples' = descriptions none samples) ∧
      ∀ samples', List.Forall₂ Sample.Relabelled samples samples' → ∃ lines',
        TextFormat.read (render display samples').toList = some lines' ∧
          List.Forall₂ Alike lines lines' := by
  have honce := described_eq_eraseDups hgrouped
  refine ⟨denoted display samples, read_render hdisplay hnamed,
    series_denotedAfter display none samples, ?_, ?_, ?_, ?_, ?_⟩
  · rw [← honce]
    exact filterMap_denotedAfter (fun _ => rfl) (pick_series fun _ _ _ => rfl) none samples
  · rw [← honce]
    exact filterMap_denotedAfter (fun _ => rfl) (pick_series fun _ _ _ => rfl) none samples
  · exact fun s _ buckets count sum hreading => filter_isInf hdisplay hreading
  · intro samples' hnamed' heq
    have hread := read_render hdisplay hnamed'
    rw [heq, read_render hdisplay hnamed] at hread
    exact shown_of_denotedAfter hdisplay (Option.some.inj hread).symm
  · intro samples' hrelabelled
    exact ⟨_, read_render hdisplay (hnamed.relabelled hrelabelled),
      alike_denotedAfter display none hrelabelled⟩

/-- What `Display` writes of a number that has one decimal. -/
def tenths (value : ℚ) : String :=
  (if value < 0 then "-" else "") ++ toString (value.num.natAbs / value.den) ++ "." ++
    toString (value.num.natAbs * 10 / value.den % 10)

/-- A histogram, and a counter with a label that tries to forge a series. -/
def forged : List (Sample F64) :=
  [⟨.histogram "latency_seconds" "How long." [.finite (1 / 2)], [],
      .distribution [(.finite (1 / 2), 3)] 4 (.finite (7 / 2))⟩,
    ⟨.counter "requests_total" "Requests served.",
      [("outcome", "x\" \x7d 999\nrequests_total\x7boutcome=\"forged")], .value (.finite 1)⟩,
    ⟨.counter "requests_total" "Requests served.", [("outcome", "ok")], .value (.finite 7)⟩]

theorem decimal_tenths : Decimal tenths := by
  intro value ch hch
  have hsign : ∀ c ∈ (if value < 0 then "-" else "").toList, c = '-' := by
    split_ifs
    · simp
    · simp
  simp only [tenths, String.toList_append, List.mem_append] at hch
  rcases hch with ((hch | hch) | hch) | hch
  · exact Or.inr (Or.inr (hsign ch hch))
  · exact Or.inl (isDigit_of_mem_toString hch)
  · exact Or.inr (Or.inl (List.mem_singleton.mp hch))
  · exact Or.inl (isDigit_of_mem_toString hch)

theorem scrape_exact_forged : ∃ lines,
    TextFormat.read (render tenths forged).toList = some lines ∧
      lines.filter isSeries = forged.flatMap (Sample.lines tenths) ∧
      lines.filterMap helpOf = ["latency_seconds", "requests_total"] := by
  have hgrouped : Grouped (forged.map fun s => s.metric.name) :=
    grouped_of_pairwise (by decide +kernel)
  have hnamed : Named forged := by
    unfold Named
    decide +kernel
  obtain ⟨lines, hread, hseries, hhelp, -⟩ := scrape_exact decimal_tenths hnamed hgrouped
  exact ⟨lines, hread, hseries, hhelp⟩

/-! ## Snapshots are grouped -/

/-- A snapshot of the registry has the samples of one name next to each other. -/
theorem grouped_snapshot {calls : List Call} (hone : OneDeclaration (observations calls)) :
    Grouped ((run calls).snapshot.map fun s => s.metric.name) := by
  apply grouped_of_pairwise
  refine List.pairwise_map.mpr ((run_holds hone).snapshot_sorted.imp fun {s t} hlt => ?_)
  rcases Prod.Lex.lt_iff.mp hlt with hname | hname
  · exact hname.le
  · exact hname.1.le

end PicX.Metrics
