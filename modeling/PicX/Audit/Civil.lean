import Mathlib.Tactic.Linarith
import Mathlib.Tactic.Ring
import Mathlib.Tactic.SplitIfs
import PicX.Base.Text

/-!
# The civil calendar (`audit/civil.rs`)

A day number becomes a date and back by Hinnant's algorithm: eras of 400 years, years that start
in March. The source computes in `i64`, where a sum that leaves the type wraps around; only those
that can leave it are wrapped here.

* `Fits`: the days whose dates are computed without leaving the type.
* `Found`, `dateOf_found`: the date the algorithm finds, by its era, year and day of the year.
* `Date.number`: the day number of a date, before any arithmetic of the machine.
* `daysOf_dateOf`: the day number of the date of such a day is that day.
* `fromIso_toIso`: a date from year 0 on reads back from its text.
-/

namespace PicX.Civil

open PicX

/-- How many seconds there are in a day. -/
def DAY : Int := 86400

/-- The day number of the Unix epoch in the algorithm's shifted era. -/
def EPOCH_SHIFT : Int := 719468

/-- A date, with no time and no zone. -/
structure Date where
  year : Int
  month : Nat
  day : Nat
  deriving DecidableEq, Repr

/-! ## Text -/

/-- `{:04}` of an `i64`: the sign counts towards the width. -/
def yearText (year : Int) : List Char :=
  if year < 0 then '-' :: padded 3 year.natAbs else padded 4 year.natAbs

def Date.toIso (date : Date) : String :=
  String.ofList (yearText date.year ++ '-' :: padded 2 date.month ++ '-' :: padded 2 date.day)

/-- `str::parse::<i64>`: an optional sign, digits, and a value in range. -/
def parseI64 (text : List Char) : Option Int :=
  let read := match text with
    | '-' :: digits => (parseDigits digits).map Int.negOfNat
    | '+' :: digits => (parseDigits digits).map Int.ofNat
    | digits => (parseDigits digits).map Int.ofNat
  read.filter fun n => -2 ^ 63 ≤ n ∧ n < 2 ^ 63

/-- `str::parse::<u32>`: an optional plus, digits, and a value in range. -/
def parseU32 (text : List Char) : Option Nat :=
  let read := match text with
    | '+' :: digits => parseDigits digits
    | digits => parseDigits digits
  read.filter fun n => n < 2 ^ 32

/-- Reads a date written as `YYYY-MM-DD`. The day of the month is not checked against the month,
and neither is the number of digits. -/
def Date.fromIso (text : String) : Option Date :=
  match text.toList.splitOn '-' with
  | year :: month :: day :: rest => do
    let year ← parseI64 year
    let month ← parseU32 month
    let day ← parseU32 day
    if rest ≠ [] ∨ ¬(1 ≤ month ∧ month ≤ 12) ∨ ¬(1 ≤ day ∧ day ≤ 31) then none
    else some { year, month, day }
  | _ => none

/-! ## Day numbers -/

/-- Which day a timestamp falls on, counting from the Unix epoch. -/
def dayOf (seconds : Int) : Int := seconds / DAY

/-- An `i64` after an operation that left the type. -/
def wrap (n : Int) : Int := n.bmod (2 ^ 64)

/-- The date of a day number. -/
def dateOf (days : Int) : Date :=
  let shifted := wrap (days + EPOCH_SHIFT)
  let era := (if shifted ≥ 0 then shifted else wrap (shifted - 146096)).tdiv 146097
  let dayOfEra := wrap (shifted - era * 146097)
  let yearOfEra :=
    (dayOfEra - dayOfEra.tdiv 1460 + dayOfEra.tdiv 36524 - dayOfEra.tdiv 146096).tdiv 365
  let year := yearOfEra + era * 400
  let dayOfYear := dayOfEra - (365 * yearOfEra + yearOfEra.tdiv 4 - yearOfEra.tdiv 100)
  -- March-based months, so that the leap day is the last day of the year.
  let shiftedMonth := (5 * dayOfYear + 2).tdiv 153
  let day := (dayOfYear - (153 * shiftedMonth + 2).tdiv 5 + 1).toNat
  let month := (if shiftedMonth < 10 then shiftedMonth + 3 else shiftedMonth - 9).toNat
  { year := if month ≤ 2 then year + 1 else year, month, day }

/-- The day number of a date. -/
def daysOf (date : Date) : Int :=
  let year := if date.month ≤ 2 then wrap (date.year - 1) else date.year
  let era := (if year ≥ 0 then year else wrap (year - 399)).tdiv 400
  let yearOfEra := wrap (year - era * 400)
  let shiftedMonth := if date.month > 2 then (date.month : Int) - 3 else (date.month : Int) + 9
  let dayOfYear := (153 * shiftedMonth + 2).tdiv 5 + (date.day : Int) - 1
  let dayOfEra := yearOfEra * 365 + yearOfEra.tdiv 4 - yearOfEra.tdiv 100 + dayOfYear
  wrap (era * 146097 + dayOfEra - EPOCH_SHIFT)

/-- A timestamp as RFC 3339 in UTC. -/
def toRfc3339 (seconds : Int) : String :=
  let date := dateOf (dayOf seconds)
  let time := (seconds % DAY).toNat
  date.toIso ++ "T" ++ String.ofList (padded 2 (time / 3600)) ++ ":" ++
    String.ofList (padded 2 (time % 3600 / 60)) ++ ":" ++
    String.ofList (padded 2 (time % 60)) ++ "Z"

/-! ## The era of a day -/

theorem wrap_of_mem {n : Int} (h : -2 ^ 63 ≤ n ∧ n < 2 ^ 63) : wrap n = n := by
  unfold wrap
  rw [Int.bmod_eq_of_le] <;> omega

/-- The days whose dates are computed without leaving the type. -/
def Fits (days : Int) : Prop := -2 ^ 63 ≤ days ∧ days + EPOCH_SHIFT < 2 ^ 63

theorem tdiv_floor (n : Int) {k m : Int} (hk : 0 < k) (hm : m = k - 1) :
    (if n ≥ 0 then n else n - m).tdiv k = n / k := by
  subst hm
  split_ifs with h
  · exact Int.tdiv_eq_ediv_of_nonneg h
  · have hneg : n - (k - 1) = -((-n) + (k - 1)) := by ring
    rw [hneg, Int.neg_tdiv, Int.tdiv_eq_ediv_of_nonneg (by omega)]
    have h1 := Int.emod_nonneg n hk.ne'
    have h2 := Int.emod_lt_of_pos n hk
    have h3 := Int.mul_ediv_add_emod n k
    -- `⌈-n / k⌉ = -⌊n / k⌋`.
    have : (-n + (k - 1)) / k = -(n / k) := by
      rw [Int.ediv_eq_iff_of_pos hk]
      constructor <;> nlinarith
    rw [this, neg_neg]

/-- Every day of a 400-year era falls in one of its 400 years, on a day of that year. -/
theorem yearOfEra_spec {doe yoe : Int} (h0 : 0 ≤ doe) (h1 : doe ≤ 146096)
    (hy : yoe = (doe - doe / 1460 + doe / 36524 - doe / 146096) / 365) :
    0 ≤ yoe ∧ yoe ≤ 399 ∧ 0 ≤ doe - (365 * yoe + yoe / 4 - yoe / 100) ∧
      doe - (365 * yoe + yoe / 4 - yoe / 100) ≤ 365 := by
  refine ⟨by omega, by omega, ?_⟩
  by_cases hlast : doe = 146096
  · subst hlast
    omega
  have hg : doe / 146096 = 0 := by omega
  rw [hg] at hy
  -- The century fixes `yoe / 100`; inside it, quadrennia of days and of years
  -- differ by at most one.
  have hf : doe / 36524 = 0 ∨ doe / 36524 = 1 ∨ doe / 36524 = 2 ∨ doe / 36524 = 3 := by omega
  rcases hf with hf | hf | hf | hf <;> rw [hf] at hy
  · have hd : yoe / 100 = 0 := by omega
    have hc : yoe / 4 ≤ doe / 1460 ∧ doe / 1460 ≤ yoe / 4 + 1 := by omega
    omega
  · have hd : yoe / 100 = 1 := by omega
    have hc : yoe / 4 ≤ doe / 1460 ∧ doe / 1460 ≤ yoe / 4 + 1 := by omega
    omega
  · have hd : yoe / 100 = 2 := by omega
    have hc : yoe / 4 ≤ doe / 1460 ∧ doe / 1460 ≤ yoe / 4 + 1 := by omega
    omega
  · have hd : yoe / 100 = 3 := by omega
    have hc : yoe / 4 ≤ doe / 1460 ∧ doe / 1460 ≤ yoe / 4 + 1 := by omega
    omega

/-- It comes before the first day of the next year. -/
theorem yearOfEra_next {doe yoe : Int} (h0 : 0 ≤ doe) (h1 : doe ≤ 146096)
    (hy : yoe = (doe - doe / 1460 + doe / 36524 - doe / 146096) / 365) :
    doe < 365 * (yoe + 1) + (yoe + 1) / 4 - (yoe + 1) / 100 + (yoe + 1) / 400 := by
  by_cases hlast : doe = 146096
  · subst hlast
    omega
  have hg : doe / 146096 = 0 := by omega
  rw [hg] at hy
  obtain ⟨c, hc⟩ : ∃ c, doe / 36524 = c := ⟨_, rfl⟩
  rw [hc] at hy
  have hd : yoe / 100 = c := by omega
  by_cases hcentury : yoe + 1 = 100 * (c + 1)
  · -- The last year of a century ends where the century does.
    rw [hcentury]
    omega
  · have hd' : (yoe + 1) / 100 = c := by omega
    have hq : doe / 1460 ≤ (yoe + 1) / 4 := by omega
    have hpos : 0 ≤ (yoe + 1) / 400 := by omega
    omega

/-- A date as the algorithm finds it, by its era, the year of the era and the day of the year. -/
structure Found (date : Date) (era yoe doy : Int) : Prop where
  day : date.day = (doy - (153 * ((5 * doy + 2) / 153) + 2) / 5 + 1).toNat
  month : date.month =
    (if (5 * doy + 2) / 153 < 10 then (5 * doy + 2) / 153 + 3 else (5 * doy + 2) / 153 - 9).toNat
  year : date.year = if date.month ≤ 2 then yoe + era * 400 + 1 else yoe + era * 400

/-- The algorithm from the day of the era on. -/
theorem dateOf_found {days s era doe yoe doy : Int} (hs : wrap (days + EPOCH_SHIFT) = s)
    (hera : (if s ≥ 0 then s else wrap (s - 146096)).tdiv 146097 = era)
    (hdoe : wrap (s - era * 146097) = doe) (h0 : 0 ≤ doe)
    (hyoe : yoe = (doe - doe / 1460 + doe / 36524 - doe / 146096) / 365) (hy0 : 0 ≤ yoe)
    (hdoy : doy = doe - (365 * yoe + yoe / 4 - yoe / 100)) (hd0 : 0 ≤ doy) :
    Found (dateOf days) era yoe doy := by
  have hyt : (doe - doe.tdiv 1460 + doe.tdiv 36524 - doe.tdiv 146096).tdiv 365 = yoe := by
    rw [Int.tdiv_eq_ediv_of_nonneg h0, Int.tdiv_eq_ediv_of_nonneg h0, Int.tdiv_eq_ediv_of_nonneg h0,
      Int.tdiv_eq_ediv_of_nonneg (by omega), hyoe]
  have hdt : doe - (365 * yoe + yoe.tdiv 4 - yoe.tdiv 100) = doy := by
    rw [Int.tdiv_eq_ediv_of_nonneg hy0, Int.tdiv_eq_ediv_of_nonneg hy0, hdoy]
  have hmt : (5 * doy + 2).tdiv 153 = (5 * doy + 2) / 153 :=
    Int.tdiv_eq_ediv_of_nonneg (by omega)
  have hdayt : (153 * ((5 * doy + 2) / 153) + 2).tdiv 5 = (153 * ((5 * doy + 2) / 153) + 2) / 5 :=
    Int.tdiv_eq_ediv_of_nonneg (by omega)
  constructor <;> simp only [dateOf, hs, hera, hdoe, hyt, hdt, hmt, hdayt]

theorem Found.range {date : Date} {era yoe doy : Int} (h : Found date era yoe doy) (h0 : 0 ≤ doy)
    (h1 : doy ≤ 366) : (1 ≤ date.month ∧ date.month ≤ 12) ∧ (1 ≤ date.day ∧ date.day ≤ 31) := by
  rw [h.day, h.month]
  split_ifs <;> omega

/-- A day that fits is in one of the years of its era. -/
theorem dateOf_shifted {days s : Int} (hs : wrap (days + EPOCH_SHIFT) = s)
    (hlow : -2 ^ 63 + 146096 ≤ s) (hhigh : s < 2 ^ 63) : ∃ era yoe doy : Int,
    0 ≤ yoe ∧ yoe ≤ 399 ∧ 0 ≤ doy ∧ doy ≤ 365 ∧
    yoe * 365 + yoe / 4 - yoe / 100 + doy <
      365 * (yoe + 1) + (yoe + 1) / 4 - (yoe + 1) / 100 + (yoe + 1) / 400 ∧
    s = era * 146097 + (yoe * 365 + yoe / 4 - yoe / 100 + doy) ∧
    era = s / 146097 ∧ Found (dateOf days) era yoe doy := by
  have hera : (if s ≥ 0 then s else wrap (s - 146096)).tdiv 146097 = s / 146097 := by
    rw [wrap_of_mem (n := s - 146096) (by omega)]
    exact tdiv_floor s (by decide) (by decide)
  obtain ⟨doe, hdoe⟩ : ∃ doe, s - s / 146097 * 146097 = doe := ⟨_, rfl⟩
  have h0 : 0 ≤ doe := by omega
  have h1 : doe ≤ 146096 := by omega
  obtain ⟨yoe, hyoe⟩ : ∃ yoe, yoe = (doe - doe / 1460 + doe / 36524 - doe / 146096) / 365 :=
    ⟨_, rfl⟩
  obtain ⟨hy0, hy1, hd0, hd1⟩ := yearOfEra_spec h0 h1 hyoe
  have hnext := yearOfEra_next h0 h1 hyoe
  have hfound : Found (dateOf days) (s / 146097) yoe (doe - (365 * yoe + yoe / 4 - yoe / 100)) :=
    dateOf_found hs hera (by rw [hdoe]; exact wrap_of_mem (by omega)) h0 hyoe hy0 rfl hd0
  exact ⟨_, _, _, hy0, hy1, hd0, hd1, by omega, by omega, rfl, hfound⟩

theorem dateOf_eq {days : Int} (hfits : Fits days) : ∃ era yoe doy : Int,
    0 ≤ yoe ∧ yoe ≤ 399 ∧ 0 ≤ doy ∧ doy ≤ 365 ∧
    yoe * 365 + yoe / 4 - yoe / 100 + doy <
      365 * (yoe + 1) + (yoe + 1) / 4 - (yoe + 1) / 100 + (yoe + 1) / 400 ∧
    days + EPOCH_SHIFT = era * 146097 + (yoe * 365 + yoe / 4 - yoe / 100 + doy) ∧
    era = (days + EPOCH_SHIFT) / 146097 ∧ Found (dateOf days) era yoe doy := by
  have hshift : EPOCH_SHIFT = 719468 := rfl
  obtain ⟨hlow, hhigh⟩ := hfits
  exact dateOf_shifted (wrap_of_mem (by omega)) (by omega) hhigh

theorem dateOf_range {days : Int} (hfits : Fits days) :
    (1 ≤ (dateOf days).month ∧ (dateOf days).month ≤ 12) ∧
      (1 ≤ (dateOf days).day ∧ (dateOf days).day ≤ 31) := by
  obtain ⟨era, yoe, doy, -, -, h0, h1, -, -, -, hfound⟩ := dateOf_eq hfits
  exact hfound.range h0 (by omega)

/-! ## Years that start in March -/

namespace Date

def marchYear (x : Date) : Int := if x.month ≤ 2 then x.year - 1 else x.year

def marchMonth (x : Date) : Int := if x.month > 2 then (x.month : Int) - 3 else (x.month : Int) + 9

/-- The days of the year before a date. -/
def marchDay (x : Date) : Int := (153 * x.marchMonth + 2) / 5 + x.day - 1

end Date

/-- The days before the first of March of a year. -/
def yearStart (year : Int) : Int := 365 * year + year / 4 - year / 100 + year / 400

theorem yearStart_era (year era : Int) :
    yearStart (year + era * 400) = yearStart year + era * 146097 := by
  have h4 : (year + era * 400) / 4 = year / 4 + era * 100 := by omega
  have h100 : (year + era * 400) / 100 = year / 100 + era * 4 := by omega
  have h400 : (year + era * 400) / 400 = year / 400 + era := by omega
  unfold yearStart
  rw [h4, h100, h400]
  ring

/-- The day number of a date. -/
def Date.number (x : Date) : Int := yearStart x.marchYear + x.marchDay - EPOCH_SHIFT

/-- A date that was found is in the year and on the day it was found by. -/
theorem Found.march {date : Date} {era yoe doy : Int} (h : Found date era yoe doy) (h0 : 0 ≤ doy)
    (h1 : doy ≤ 366) : date.marchYear = yoe + era * 400 ∧
      date.marchMonth = (5 * doy + 2) / 153 ∧ date.marchDay = doy := by
  have hmonth : date.marchMonth = (5 * doy + 2) / 153 := by
    unfold Date.marchMonth
    rw [h.month]
    split_ifs <;> omega
  refine ⟨?_, hmonth, ?_⟩
  · unfold Date.marchYear
    rw [h.year]
    split_ifs <;> ring
  · unfold Date.marchDay
    rw [hmonth, h.day]
    omega

/-- The arithmetic of the machine returns the day number, up to the size of its type. -/
theorem daysOf_number {date : Date} (hlow : -2 ^ 63 + 400 ≤ date.marchYear)
    (hhigh : date.marchYear < 2 ^ 63) : daysOf date = wrap date.number := by
  obtain ⟨year, hyear⟩ : ∃ year, date.marchYear = year := ⟨_, rfl⟩
  obtain ⟨month, hmonth⟩ : ∃ month, date.marchMonth = month := ⟨_, rfl⟩
  rw [hyear] at hlow hhigh
  have hyr : (if date.month ≤ 2 then wrap (date.year - 1) else date.year) = year := by
    unfold Date.marchYear at hyear
    split_ifs at hyear ⊢ with hle
    · rw [hyear]
      exact wrap_of_mem (by omega)
    · exact hyear
  have hera : (if year ≥ 0 then year else wrap (year - 399)).tdiv 400 = year / 400 := by
    rw [wrap_of_mem (n := year - 399) (by omega)]
    exact tdiv_floor year (by decide) (by decide)
  have hyoe : wrap (year - year / 400 * 400) = year - year / 400 * 400 := wrap_of_mem (by omega)
  have h0 : 0 ≤ year - year / 400 * 400 := by omega
  have hm : (if date.month > 2 then (date.month : Int) - 3 else (date.month : Int) + 9) = month :=
    hmonth
  have hm0 : 0 ≤ month := by
    rw [← hm]
    split_ifs <;> omega
  simp only [daysOf, hyr, hera, hyoe, hm, Int.tdiv_eq_ediv_of_nonneg h0]
  rw [Int.tdiv_eq_ediv_of_nonneg (by omega), Date.number, Date.marchDay, hyear, hmonth, yearStart]
  congr 1
  omega

/-- **The day number of the date of a day is that day.** -/
theorem daysOf_dateOf {days : Int} (hfits : Fits days) : daysOf (dateOf days) = days := by
  obtain ⟨era, yoe, doy, hy0, hy1, h0, h1, -, hs, -, hfound⟩ := dateOf_eq hfits
  obtain ⟨hyear, -, hday⟩ := hfound.march h0 (by omega)
  have hshift : EPOCH_SHIFT = 719468 := rfl
  have hstart : yearStart yoe = yoe * 365 + yoe / 4 - yoe / 100 := by
    unfold yearStart
    omega
  have hnumber : (dateOf days).number = days := by
    rw [Date.number, hyear, hday, yearStart_era, hstart]
    omega
  obtain ⟨hlow, hhigh⟩ := hfits
  rw [daysOf_number (by omega) (by omega), hnumber]
  exact wrap_of_mem (by omega)

theorem dateOf_year_bounds {days : Int} (hfits : Fits days) (h0 : 0 ≤ days) :
    0 ≤ (dateOf days).year ∧ (dateOf days).year ≤ days + EPOCH_SHIFT + 400 := by
  obtain ⟨era, yoe, doy, hy0, hy1, hd0, -, -, hs, hera, hfound⟩ := dateOf_eq hfits
  have hE : EPOCH_SHIFT = 719468 := rfl
  rw [hfound.year]
  split_ifs <;> omega

/-! ## Dates read back from their text -/

theorem dash_notMem_padded (width n : Nat) : '-' ∉ padded width n := fun h => by
  simpa using isDigit_of_mem_padded h

theorem parse_padded_head (width n : Nat) :
    parseDigits (padded width n) = some n ∧ ∀ cs, padded width n ≠ '+' :: cs ∧
      padded width n ≠ '-' :: cs := by
  refine ⟨parseDigits_padded width n, fun cs => ⟨fun h => ?_, fun h => ?_⟩⟩
  · have : '+' ∈ padded width n := h ▸ List.mem_cons_self
    simpa using isDigit_of_mem_padded this
  · exact dash_notMem_padded width n (h ▸ List.mem_cons_self)

theorem parseI64_padded (width : Nat) {n : Nat} (h : (n : Int) < 2 ^ 63) :
    parseI64 (padded width n) = some (n : Int) := by
  obtain ⟨hp, hne⟩ := parse_padded_head width n
  unfold parseI64
  split
  · next ds heq => exact absurd heq (hne ds).2
  · next ds heq => exact absurd heq (hne ds).1
  · rw [hp, Option.map_some, Option.filter_some, if_pos]
    · rfl
    · simp only [Int.ofNat_eq_natCast, decide_eq_true_eq]
      omega

theorem parseU32_padded (width : Nat) {n : Nat} (h : n < 2 ^ 32) :
    parseU32 (padded width n) = some n := by
  obtain ⟨hp, hne⟩ := parse_padded_head width n
  unfold parseU32
  split
  · next ds heq => exact absurd heq (hne ds).1
  · rw [hp, Option.filter_some, if_pos]
    simpa using h

/-- **A date from year 0 on reads back from its text.** -/
theorem fromIso_toIso {date : Date} (h0 : 0 ≤ date.year) (h1 : date.year < 2 ^ 63)
    (hm : 1 ≤ date.month ∧ date.month ≤ 12) (hd : 1 ≤ date.day ∧ date.day ≤ 31) :
    Date.fromIso date.toIso = some date := by
  have habs : ((date.year.natAbs : Nat) : Int) = date.year := Int.natAbs_of_nonneg h0
  have hsplit : date.toIso.toList.splitOn '-' =
      [padded 4 date.year.natAbs, padded 2 date.month, padded 2 date.day] := by
    simp only [Date.toIso, String.toList_ofList, yearText, if_neg (not_lt.mpr h0)]
    rw [List.append_assoc, List.cons_append, List.splitOn_append_cons_self,
      List.splitOn_append_cons_self, List.splitOn_eq_singleton (dash_notMem_padded 4 _),
      List.splitOn_eq_singleton (dash_notMem_padded 2 _),
      List.splitOn_eq_singleton (dash_notMem_padded 2 _)]
    rfl
  unfold Date.fromIso
  rw [hsplit]
  simp only [parseI64_padded 4 (habs.trans_lt h1),
    parseU32_padded 2 (show date.month < 2 ^ 32 by omega),
    parseU32_padded 2 (show date.day < 2 ^ 32 by omega), habs, Option.bind_eq_bind,
    Option.bind_some, ne_eq, not_true_eq_false, hm, hd, and_self, or_self, if_false]

end PicX.Civil
