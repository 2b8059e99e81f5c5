import PicX.Audit.Names
import PicX.Audit.Verify
import PicX.Base.Fallible
import PicX.Base.Machine

/-!
# Checking a trail in either build (`audit/civil.rs`, `audit/file.rs`)

The calendar computes in `i64`, and takes the year of a file name as it comes. Where a sum leaves
the type, a build without overflow checks goes on with a day that wrapped around, as `Civil.daysOf`
and `Civil.dateOf` do; a build with them panics, and `verify` with it.

* `daysOfIn_of_fits` — with overflow checks a date has a day number when that fits.
* `dateOfIn_of_fits` — the date of such a day is found in either build.
* `verifyIn_eq` — **`verify` panics on a name with a far-off date, in a build with overflow checks,
  and nowhere else**.
-/

namespace PicX.Civil

open PicX.Machine (Build i64_of_mem)

/-! ## The calendar -/

/-- What an era is divided out of. -/
def dividend (b : Build) (n less : Int) : Option Int := if n ≥ 0 then some n else b.i64 (n - less)

/-- The date of a day number. -/
def dateOfIn (b : Build) (days : Int) : Option Date := do
  let shifted ← b.i64 (days + EPOCH_SHIFT)
  let era := (← dividend b shifted 146096).tdiv 146097
  let dayOfEra ← b.i64 (shifted - era * 146097)
  let yearOfEra :=
    (dayOfEra - dayOfEra.tdiv 1460 + dayOfEra.tdiv 36524 - dayOfEra.tdiv 146096).tdiv 365
  let year := yearOfEra + era * 400
  let dayOfYear := dayOfEra - (365 * yearOfEra + yearOfEra.tdiv 4 - yearOfEra.tdiv 100)
  let shiftedMonth := (5 * dayOfYear + 2).tdiv 153
  let day := (dayOfYear - (153 * shiftedMonth + 2).tdiv 5 + 1).toNat
  let month := (if shiftedMonth < 10 then shiftedMonth + 3 else shiftedMonth - 9).toNat
  some { year := if month ≤ 2 then year + 1 else year, month, day }

/-- The year of a date, when years start in March. -/
def marchYearIn (b : Build) (date : Date) : Option Int :=
  if date.month ≤ 2 then b.i64 (date.year - 1) else some date.year

/-- The day number of a date. -/
def daysOfIn (b : Build) (date : Date) : Option Int := do
  let year ← marchYearIn b date
  let era := (← dividend b year 399).tdiv 400
  let yearOfEra ← b.i64 (year - era * 400)
  let shiftedMonth := if date.month > 2 then (date.month : Int) - 3 else (date.month : Int) + 9
  let dayOfYear := (153 * shiftedMonth + 2).tdiv 5 + (date.day : Int) - 1
  let dayOfEra := yearOfEra * 365 + yearOfEra.tdiv 4 - yearOfEra.tdiv 100 + dayOfYear
  let days ← b.i64 (era * 146097)
  let days ← b.i64 (days + dayOfEra)
  b.i64 (days - EPOCH_SHIFT)

variable {b : Build} {date : Date} {days : Int}

theorem i64_wrapping (n : Int) : Build.wrapping.i64 n = some (wrap n) := rfl

theorem dividend_wrapping (n less : Int) :
    dividend .wrapping n less = some (if n ≥ 0 then n else wrap (n - less)) := by
  unfold dividend
  split_ifs <;> rfl

theorem dividend_of_le (b : Build) {n less : Int} (hless : 0 ≤ less)
    (hlow : -2 ^ 63 ≤ n - less) : dividend b n less = some (if n ≥ 0 then n else n - less) := by
  unfold dividend
  split_ifs
  · rfl
  · exact i64_of_mem b (by omega)

/-- Without overflow checks there is always a date, -/
theorem dateOfIn_wrapping (days : Int) : dateOfIn .wrapping days = some (dateOf days) := by
  unfold dateOfIn dateOf
  simp only [i64_wrapping, dividend_wrapping, Option.bind_eq_bind, Option.bind_some]

/-- and the date of a day that fits is found in either build. -/
theorem dateOfIn_of_fits (b : Build) (h : Fits days) : dateOfIn b days = some (dateOf days) := by
  obtain ⟨hlow, hhigh⟩ := h
  have hshift : EPOCH_SHIFT = 719468 := rfl
  have hsame : ∀ {n}, -2 ^ 63 ≤ n ∧ n < 2 ^ 63 → b.i64 n = Build.wrapping.i64 n := by
    intro n hn
    rw [i64_of_mem b hn, i64_of_mem .wrapping hn]
  have hfirst : -2 ^ 63 ≤ days + EPOCH_SHIFT ∧ days + EPOCH_SHIFT < 2 ^ 63 := by omega
  have hera := tdiv_floor (days + EPOCH_SHIFT) (k := 146097) (m := 146096) (by decide) rfl
  have hdividend : ∀ b, dividend b (days + EPOCH_SHIFT) 146096 = _ := fun b =>
    dividend_of_le b (by decide) (by omega)
  rw [← dateOfIn_wrapping]
  unfold dateOfIn
  simp only [i64_of_mem _ hfirst, Option.bind_eq_bind, Option.bind_some, hdividend, hera]
  rw [hsame (by omega)]

section Read

variable (hyear : 0 ≤ date.year ∧ date.year < 2 ^ 63)
  (hmonth : 1 ≤ date.month ∧ date.month ≤ 12) (hday : 1 ≤ date.day ∧ date.day ≤ 31)
include hyear hmonth hday

/-- The sums of a day number, for a date that was read. -/
theorem daysOfIn_eq :
    ∃ start rest : Int, -146097 ≤ start ∧ 0 ≤ rest ∧
      start + rest = date.number + EPOCH_SHIFT ∧ ∀ b, daysOfIn b date =
        (b.i64 start).bind fun n => (b.i64 (n + rest)).bind fun n => b.i64 (n - EPOCH_SHIFT) := by
  obtain ⟨year, hmarch⟩ : ∃ year, date.marchYear = year := ⟨_, rfl⟩
  have hyr : ∀ b : Build, marchYearIn b date = some year := by
    intro b
    unfold Date.marchYear at hmarch
    unfold marchYearIn
    split_ifs at hmarch ⊢
    · rw [hmarch]
      exact i64_of_mem b (by omega)
    · rw [hmarch]
  have hbounds : -1 ≤ year ∧ year < 2 ^ 63 := by
    unfold Date.marchYear at hmarch
    split_ifs at hmarch <;> omega
  have hdividend : ∀ b, dividend b year 399 = _ := fun b =>
    dividend_of_le b (by decide) (by omega)
  have hera := tdiv_floor year (k := 400) (m := 399) (by decide) rfl
  have hera0 : 0 ≤ year - year / 400 * 400 ∧ year - year / 400 * 400 ≤ 399 := by omega
  have hmonth0 : 0 ≤ date.marchMonth ∧ date.marchMonth ≤ 11 := by
    unfold Date.marchMonth
    split_ifs <;> omega
  refine ⟨year / 400 * 146097, (year - year / 400 * 400) * 365 + (year - year / 400 * 400) / 4 -
    (year - year / 400 * 400) / 100 + date.marchDay, by omega, ?_, ?_, fun b => ?_⟩
  · unfold Date.marchDay
    omega
  · rw [Date.number, hmarch, yearStart]
    omega
  · unfold daysOfIn
    simp only [hyr, hdividend, hera, Option.bind_eq_bind, Option.bind_some]
    rw [i64_of_mem b (by omega)]
    simp only [Option.bind_some]
    rw [Int.tdiv_eq_ediv_of_nonneg hera0.1, Int.tdiv_eq_ediv_of_nonneg hera0.1,
      Int.tdiv_eq_ediv_of_nonneg (by unfold Date.marchMonth at hmonth0; omega)]
    rfl

/-- **With overflow checks a date that was read has a day number when that fits**, -/
theorem daysOfIn_of_fits (hfits : Fits date.number) :
    daysOfIn .checked date = some date.number := by
  obtain ⟨start, rest, hstart, hrest, hsum, hdays⟩ := daysOfIn_eq hyear hmonth hday
  have hshift : EPOCH_SHIFT = 719468 := rfl
  obtain ⟨hlow, hhigh⟩ := hfits
  rw [hdays, i64_of_mem .checked (by omega), Option.bind_some, i64_of_mem .checked (by omega),
    Option.bind_some, i64_of_mem .checked (by omega), hsum, Int.add_sub_cancel]

/-- and no other date has. -/
theorem daysOfIn_of_not_fits (hfits : ¬Fits date.number) : daysOfIn .checked date = none := by
  obtain ⟨start, rest, hstart, hrest, hsum, hdays⟩ := daysOfIn_eq hyear hmonth hday
  have hshift : EPOCH_SHIFT = 719468 := rfl
  have hlate : 2 ^ 63 ≤ start + rest := by
    unfold Fits at hfits
    omega
  -- It leaves the type at one of the two sums.
  rw [hdays]
  by_cases hera : start < 2 ^ 63
  · rw [i64_of_mem .checked (by omega), Option.bind_some, Build.i64, if_neg (by omega)]
    rfl
  · rw [Build.i64, if_neg (by omega)]
    rfl

theorem daysOfIn_wrapping : daysOfIn .wrapping date = some (daysOf date) := by
  obtain ⟨start, rest, -, -, hsum, hdays⟩ := daysOfIn_eq hyear hmonth hday
  have hnumber : daysOf date = wrap date.number := by
    refine daysOf_number ?_ ?_ <;>
      · unfold Date.marchYear
        split_ifs <;> omega
  have hwrap :
      wrap (wrap (wrap start + rest) - EPOCH_SHIFT) = wrap (start + rest - EPOCH_SHIFT) := by
    unfold wrap
    rw [Int.bmod_add_bmod, Int.bmod_sub_bmod]
  rw [hdays]
  show some (wrap (wrap (wrap start + rest) - EPOCH_SHIFT)) = _
  rw [hwrap, hsum, Int.add_sub_cancel, hnumber]

end Read

end PicX.Civil

namespace PicX.Audit

open PicX.Machine (Build)

/-! ## The checker -/

/-- Why a command has no result. -/
inductive Failure where
  | error (text : String)
  | panicked
  deriving DecidableEq, Repr

abbrev Result (α : Type) := Except Failure α

/-- The date in the name of a file of records. -/
def dateOfFile (name : String) : Option Civil.Date := do
  let date ← stripPrefix PREFIX name
  let date ← stripSuffix SUFFIX date
  Civil.Date.fromIso date

/-- Which day a file holds records for, or nothing when it is not one of ours. -/
def dayOfFileIn (b : Build) (name : String) : Result (Option Int) :=
  match dateOfFile name with
  | none => .ok none
  | some date => (okOr (Civil.daysOfIn b date) .panicked).map some

/-- The days a directory holds records for, oldest first. -/
def daysIn (b : Build) (names : List String) : Result (List Int) := do
  let days ← names.mapM (dayOfFileIn b)
  pure (sortUnstable (days.filterMap id))

/-- Something done with a file of a day, whose name takes its date. -/
def dated {α : Type} (b : Build) (day : Int) (x : Except VerifyError α) : Result α := do
  let _ ← okOr (Civil.dateOfIn b day) .panicked
  mapErr (fun e => .error e.message) x

variable (c : Crates) (b : Build)

/-- Reads a whole trail and checks that nothing in it has been altered. -/
def verifyIn (path : String) (directory : Option Directory) : Result Verification := do
  match directory with
  | none => .error (.error (VerifyError.reading path).message)
  | some d =>
    let days ← daysIn b d.keys
    let seals ← days.foldlM (fun seals day => dated b day (readSeal c path d seals day)) ∅
    let p ← days.foldlM (fun p day => dated b day (checkDay c path d seals p day)) Progress.start
    match seals.toList.find? (fun entry => p.records < entry.1) with
    | some (_, s) => .error (.error (VerifyError.truncated s p.records).message)
    | none => .ok ⟨p.records, days.length, p.expectedPrevious, p.checked⟩

/-- A name whose date is beyond the days of the type. -/
def FarOff (name : String) : Prop :=
  ∃ text date, name = PREFIX ++ text ++ SUFFIX ∧ Civil.Date.fromIso text = some date ∧
    ¬Civil.Fits date.number

/-- A directory with such a name, in a build with overflow checks. -/
def Overflows (directory : Option Directory) : Prop :=
  b = .checked ∧ ∃ d, directory = some d ∧ ∃ name ∈ d.keys, FarOff name

variable {c b} {name : String} {names : List String} {date : Civil.Date} {path : String}
  {directory : Option Directory}

theorem dateOfFile_iff : dateOfFile name = some date ↔
    ∃ text, name = PREFIX ++ text ++ SUFFIX ∧ Civil.Date.fromIso text = some date := by
  constructor
  · intro h
    obtain ⟨rest, hrest, h⟩ := Option.bind_eq_some_iff.mp h
    obtain ⟨text, htext, h⟩ := Option.bind_eq_some_iff.mp h
    refine ⟨text, ?_, h⟩
    rw [stripPrefix_some hrest, stripSuffix_some htext, String.append_assoc]
  · intro ⟨text, hname, htext⟩
    rw [hname, dateOfFile, String.append_assoc, stripPrefix_append]
    show (stripSuffix SUFFIX (text ++ SUFFIX) >>= _) = _
    rw [stripSuffix_append]
    exact htext

theorem farOff_iff :
    FarOff name ↔ ∃ date, dateOfFile name = some date ∧ ¬Civil.Fits date.number := by
  constructor
  · rintro ⟨text, date, hname, htext, hfits⟩
    exact ⟨date, dateOfFile_iff.mpr ⟨text, hname, htext⟩, hfits⟩
  · rintro ⟨date, hdate, hfits⟩
    obtain ⟨text, hname, htext⟩ := dateOfFile_iff.mp hdate
    exact ⟨text, date, hname, htext, hfits⟩

theorem dayOfFile_eq (name : String) : dayOfFile name = (dateOfFile name).map Civil.daysOf := by
  unfold dayOfFile dateOfFile
  cases stripPrefix PREFIX name with
  | none => rfl
  | some rest => cases hrest : stripSuffix SUFFIX rest with
    | none => simp [hrest]
    | some text => simp [hrest]

theorem daysOf_of_fits (hyear : 0 ≤ date.year ∧ date.year < 2 ^ 63)
    (hfits : Civil.Fits date.number) : Civil.daysOf date = date.number := by
  have hshift : Civil.EPOCH_SHIFT = 719468 := rfl
  obtain ⟨hlow, hhigh⟩ := hfits
  rw [Civil.daysOf_number, Civil.wrap_of_mem (by omega)] <;>
    · unfold Civil.Date.marchYear
      split_ifs <;> omega

/-- A name is read as it is without overflow checks, unless it is far off. -/
theorem dayOfFileIn_eq (b : Build) (h : ¬(b = .checked ∧ FarOff name)) :
    dayOfFileIn b name = .ok (dayOfFile name) := by
  rw [dayOfFile_eq, dayOfFileIn]
  cases hdate : dateOfFile name with
  | none => rfl
  | some date =>
    obtain ⟨text, -, htext⟩ := dateOfFile_iff.mp hdate
    obtain ⟨hyear, hmonth, hday⟩ := fromIso_range htext
    cases b with
    | wrapping =>
      dsimp only
      rw [Civil.daysOfIn_wrapping hyear hmonth hday]
      rfl
    | checked =>
      have hfits : Civil.Fits date.number := by
        by_contra hfits
        exact h ⟨rfl, farOff_iff.mpr ⟨date, hdate, hfits⟩⟩
      dsimp only
      rw [Civil.daysOfIn_of_fits hyear hmonth hday hfits, Option.map_some,
        daysOf_of_fits hyear hfits]
      rfl

theorem dayOfFileIn_farOff (h : FarOff name) : dayOfFileIn .checked name = .error .panicked := by
  obtain ⟨date, hdate, hfits⟩ := farOff_iff.mp h
  obtain ⟨text, -, htext⟩ := dateOfFile_iff.mp hdate
  obtain ⟨hyear, hmonth, hday⟩ := fromIso_range htext
  rw [dayOfFileIn, hdate]
  dsimp only
  rw [Civil.daysOfIn_of_not_fits hyear hmonth hday hfits]
  rfl

theorem daysIn_eq (h : ∀ name ∈ names, ¬(b = .checked ∧ FarOff name)) :
    daysIn b names = .ok (daysOf names) := by
  have hall : names.mapM (dayOfFileIn b) = .ok (names.map dayOfFile) := by
    rw [mapM_ok, List.forall₂_map_right_iff, List.forall₂_same]
    exact fun name hname => dayOfFileIn_eq b (h name hname)
  unfold daysIn daysOf
  rw [hall]
  show Except.ok (sortUnstable ((names.map dayOfFile).filterMap id)) = _
  rw [List.filterMap_map, Function.id_comp]

theorem daysIn_farOff (h : ∃ name ∈ names, FarOff name) :
    daysIn .checked names = .error .panicked := by
  have hall : names.mapM (dayOfFileIn .checked) = .error .panicked := by
    induction names with
    | nil => simp at h
    | cons name names ih =>
      rw [List.mapM_cons]
      by_cases hfirst : FarOff name
      · rw [dayOfFileIn_farOff hfirst]
        rfl
      · have hrest : ∃ name ∈ names, FarOff name := by simpa [hfirst] using h
        rw [dayOfFileIn_eq .checked (fun hboth => hfirst hboth.2), ih hrest]
        rfl
  unfold daysIn
  rw [hall]
  rfl

theorem dateOfIn_of_mem (h : ∀ name ∈ names, ¬(b = .checked ∧ FarOff name)) :
    ∀ day ∈ daysOf names, Civil.dateOfIn b day = some (Civil.dateOf day) := by
  intro day hday
  cases b with
  | wrapping => exact Civil.dateOfIn_wrapping day
  | checked =>
    rw [daysOf, sortUnstable, (List.perm_insertionSort _ _).mem_iff, List.mem_filterMap] at hday
    obtain ⟨name, hname, hday⟩ := hday
    rw [dayOfFile_eq, Option.map_eq_some_iff] at hday
    obtain ⟨date, hdate, rfl⟩ := hday
    obtain ⟨text, -, htext⟩ := dateOfFile_iff.mp hdate
    have hfits : Civil.Fits date.number := by
      by_contra hfits
      exact h name hname ⟨rfl, farOff_iff.mpr ⟨date, hdate, hfits⟩⟩
    rw [daysOf_of_fits (fromIso_range htext).1 hfits]
    exact Civil.dateOfIn_of_fits .checked hfits

theorem foldlM_dated {β : Type} {f : β → Int → Except VerifyError β} {days : List Int} {s : β}
    (h : ∀ day ∈ days, Civil.dateOfIn b day = some (Civil.dateOf day)) :
    days.foldlM (fun s day => dated b day (f s day)) s =
      mapErr (fun e => .error e.message) (days.foldlM f s) := by
  induction days generalizing s with
  | nil => rfl
  | cons day days ih =>
    rw [List.forall_mem_cons] at h
    have hdated : dated b day (f s day) = mapErr (fun e => .error e.message) (f s day) := by
      unfold dated
      rw [h.1]
      rfl
    rw [List.foldlM_cons, List.foldlM_cons, hdated]
    cases f s day with
    | error e => rfl
    | ok s' => exact ih h.2

/-- **A trail is checked as it is without overflow checks**, -/
theorem verifyIn_eq (h : ¬Overflows b directory) : verifyIn c b path directory =
    mapErr (fun e => .error e.message) (verify c path directory) := by
  cases directory with
  | none => rfl
  | some d =>
    have hnames : ∀ name ∈ d.keys, ¬(b = .checked ∧ FarOff name) :=
      fun name hname hboth => h ⟨hboth.1, d, rfl, name, hname, hboth.2⟩
    have hdates := dateOfIn_of_mem hnames
    unfold verifyIn verify readSeals
    dsimp only
    rw [daysIn_eq hnames]
    show ((daysOf d.keys).foldlM (fun seals day => dated b day (readSeal c path d seals day)) ∅ >>=
      _) = _
    rw [foldlM_dated hdates]
    cases (daysOf d.keys).foldlM (readSeal c path d) ∅ with
    | error e => rfl
    | ok seals =>
      show ((daysOf d.keys).foldlM (fun p day => dated b day (checkDay c path d seals p day))
        Progress.start >>= _) = mapErr _ ((daysOf d.keys).foldlM (checkDay c path d seals)
          Progress.start >>= _)
      rw [foldlM_dated hdates]
      cases (daysOf d.keys).foldlM (checkDay c path d seals) Progress.start with
      | error e => rfl
      | ok p =>
        dsimp only [mapErr, bind, Except.bind]
        cases seals.toList.find? fun entry => p.records < entry.1 <;> rfl

/-- and the others are not. -/
theorem verifyIn_panics (h : Overflows b directory) :
    verifyIn c b path directory = .error .panicked := by
  obtain ⟨rfl, d, rfl, hfar⟩ := h
  unfold verifyIn
  dsimp only
  rw [daysIn_farOff hfar]
  rfl

end PicX.Audit
