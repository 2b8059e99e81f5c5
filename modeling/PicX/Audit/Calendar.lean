import Mathlib.Data.String.Basic
import Mathlib.Tactic.IntervalCases
import PicX.Audit.Civil

/-!
# The civil calendar is the Gregorian one

What the day numbers of `audit/civil.rs` are for: the dates of the proleptic Gregorian calendar, one
after the other. Years are counted from March here too, where the leap day comes last.

* `Date.Valid`, `Date.next`, `Date.Before`: the calendar, by the lengths of its months.
* `number_lt_iff`, `number_next`: it follows the calendar.
* `dateOf_number`: the date of a day number is the date that has it.
* `calendar_bijection`: **day numbers and dates are one and the same, in their order and in their
  texts**.
-/

namespace PicX.Civil

open PicX

/-! ## The calendar -/

/-- Every fourth year, but of the centuries only every fourth. -/
def IsLeap (year : Int) : Prop := year % 4 = 0 ∧ (year % 100 ≠ 0 ∨ year % 400 = 0)

instance (year : Int) : Decidable (IsLeap year) := inferInstanceAs (Decidable (_ ∧ _))

def monthLength (year : Int) : Nat → Nat
  | 2 => if IsLeap year then 29 else 28
  | 4 | 6 | 9 | 11 => 30
  | 1 | 3 | 5 | 7 | 8 | 10 | 12 => 31
  | _ => 0

/-- A date of the calendar. -/
structure Date.Valid (date : Date) : Prop where
  month : 1 ≤ date.month ∧ date.month ≤ 12
  day : 1 ≤ date.day ∧ date.day ≤ monthLength date.year date.month

/-- The date after a date. -/
def Date.next (date : Date) : Date :=
  if date.day < monthLength date.year date.month then { date with day := date.day + 1 }
  else if date.month < 12 then { date with month := date.month + 1, day := 1 }
  else { year := date.year + 1, month := 1, day := 1 }

/-- A date comes before another. -/
def Date.Before (x y : Date) : Prop :=
  x.year < y.year ∨ x.year = y.year ∧ (x.month < y.month ∨ x.month = y.month ∧ x.day < y.day)

theorem Date.before_trichotomy (x y : Date) : x.Before y ∨ x = y ∨ y.Before x := by
  obtain ⟨year, month, day⟩ := x
  obtain ⟨year', month', day'⟩ := y
  simp only [Date.Before, Date.mk.injEq]
  omega

/-! ## Years that start in March -/

/-- A year is as long as the calendar says of the year its February falls in. -/
theorem yearStart_succ (year : Int) :
    yearStart (year + 1) = yearStart year + if IsLeap (year + 1) then 366 else 365 := by
  unfold yearStart IsLeap
  split_ifs <;> omega

theorem yearStart_mono {year year' : Int} (h : year < year') :
    yearStart (year + 1) ≤ yearStart year' := by
  unfold yearStart
  omega

namespace Date

variable {x y : Date}

theorem marchMonth_range (h : x.Valid) : 0 ≤ x.marchMonth ∧ x.marchMonth ≤ 11 := by
  obtain ⟨h1, h2⟩ := h.month
  unfold marchMonth
  split_ifs <;> omega

/-- A month ends before the next one starts. -/
theorem marchDay_lt (h : x.Valid) : x.marchDay < (153 * (x.marchMonth + 1) + 2) / 5 := by
  obtain ⟨year, month, day⟩ := x
  obtain ⟨h1, h2⟩ := h.month
  have hday := h.day.2
  dsimp only at h1 h2 hday
  unfold marchDay marchMonth
  dsimp only
  interval_cases month <;> simp only [monthLength] at hday <;> (try split_ifs at hday) <;> simp <;>
    omega

/-- A date lies in its year. -/
theorem marchDay_range (h : x.Valid) :
    0 ≤ x.marchDay ∧ yearStart x.marchYear + x.marchDay < yearStart (x.marchYear + 1) := by
  obtain ⟨h0, h11⟩ := marchMonth_range h
  have hpos := h.day.1
  refine ⟨by unfold marchDay; omega, ?_⟩
  rw [yearStart_succ]
  have hlt := marchDay_lt h
  by_cases hfebruary : x.month = 2
  · -- The last month of the year is as long as the year lets it be.
    have hday := h.day.2
    have hyear : x.marchYear + 1 = x.year := by
      unfold marchYear
      rw [if_pos (by omega)]
      ring
    have hmonth : x.marchMonth = 11 := by
      unfold marchMonth
      rw [if_neg (by omega), hfebruary]
      rfl
    rw [hfebruary] at hday
    simp only [monthLength] at hday
    rw [hyear]
    unfold marchDay
    rw [hmonth]
    split_ifs at hday ⊢ <;> omega
  · have hmonth : x.marchMonth ≤ 10 := by
      obtain ⟨h1, h2⟩ := h.month
      unfold marchMonth
      split_ifs <;> omega
    split_ifs <;> omega

/-- Day numbers follow the calendar. -/
theorem number_lt (hx : x.Valid) (hy : y.Valid) (h : x.Before y) : x.number < y.number := by
  obtain ⟨hx0, hx1⟩ := marchDay_range hx
  obtain ⟨hy0, hy1⟩ := marchDay_range hy
  have hxm := marchDay_lt hx
  obtain ⟨h1, h2⟩ := hx.month
  obtain ⟨h3, h4⟩ := hy.month
  unfold number
  rcases lt_trichotomy x.marchYear y.marchYear with hyear | hyear | hyear
  · have := yearStart_mono hyear
    omega
  · rw [hyear]
    suffices hday : x.marchDay < y.marchDay by omega
    have hmonth : x.marchMonth < y.marchMonth ∨ x.marchMonth = y.marchMonth ∧ x.day < y.day := by
      unfold marchYear at hyear
      unfold marchMonth
      unfold Before at h
      split_ifs at hyear ⊢ <;> omega
    have hyday := hy.day.1
    rcases hmonth with hmonth | ⟨hmonth, hday⟩
    · unfold marchDay at hxm ⊢
      omega
    · unfold marchDay
      rw [hmonth]
      omega
  · exfalso
    unfold marchYear at hyear
    unfold Before at h
    split_ifs at hyear <;> omega

theorem number_lt_iff (hx : x.Valid) (hy : y.Valid) : x.number < y.number ↔ x.Before y := by
  constructor
  · intro h
    rcases before_trichotomy x y with hbefore | rfl | hbefore
    · exact hbefore
    · exact absurd h (lt_irrefl _)
    · exact absurd (number_lt hy hx hbefore) (by omega)
  · exact number_lt hx hy

theorem number_injective (hx : x.Valid) (hy : y.Valid) (h : x.number = y.number) : x = y := by
  rcases before_trichotomy x y with hbefore | heq | hbefore
  · exact absurd (number_lt hx hy hbefore) (by omega)
  · exact heq
  · exact absurd (number_lt hy hx hbefore) (by omega)

theorem next_valid (h : x.Valid) : x.next.Valid := by
  obtain ⟨year, month, day⟩ := x
  obtain ⟨h1, h2⟩ := h.month
  have hday := h.day
  unfold next
  dsimp only at *
  split_ifs with hmonth hyear
  · exact ⟨⟨h1, h2⟩, by dsimp only; omega, hmonth⟩
  · refine ⟨⟨by dsimp only; omega, by dsimp only; omega⟩, le_refl 1, ?_⟩
    dsimp only
    interval_cases month <;> simp only [monthLength] <;> (try split_ifs) <;> omega
  · exact ⟨by simp, by simp [monthLength]⟩

/-- The next date has the next number. -/
theorem number_next (h : x.Valid) : x.next.number = x.number + 1 := by
  obtain ⟨year, month, day⟩ := x
  obtain ⟨h1, h2⟩ := h.month
  have hday : day ≤ monthLength year month := h.day.2
  dsimp only at h1 h2
  unfold next
  dsimp only
  by_cases hinside : day < monthLength year month
  · rw [if_pos hinside]
    unfold number marchDay marchMonth marchYear
    push_cast
    ring
  rw [if_neg hinside]
  obtain rfl : day = monthLength year month := by omega
  by_cases hyear : month < 12
  · rw [if_pos hyear]
    by_cases hfebruary : month = 2
    · -- The day after the last of February starts a year.
      have hstart := yearStart_succ (year - 1)
      rw [sub_add_cancel] at hstart
      subst hfebruary
      have hmarch : number ⟨year, 2 + 1, 1⟩ = yearStart year - EPOCH_SHIFT := by
        simp [number, marchDay, marchMonth, marchYear]
      have hlast : number ⟨year, 2, monthLength year 2⟩ =
          yearStart (year - 1) + (337 + (monthLength year 2 : Int) - 1) - EPOCH_SHIFT := by
        simp [number, marchDay, marchMonth, marchYear]
      rw [hmarch, hlast, hstart, monthLength]
      split_ifs <;> push_cast <;> ring
    · unfold number marchDay marchMonth marchYear
      interval_cases month
      all_goals first | exact absurd rfl hfebruary | simp [monthLength]; omega
  · rw [if_neg hyear]
    obtain rfl : month = 12 := by omega
    simp only [number, marchDay, marchMonth, marchYear, monthLength]
    simp
    omega

/-- Day 0 is the first of January 1970. -/
example : number ⟨1970, 1, 1⟩ = 0 := by decide

end Date

/-! ## The machine's day numbers -/

variable {x y : Date} {d : Int}

/-- A day of the year falls in a month that is long enough. -/
theorem day_le_monthLength (year : Int) {m doy : Int} (h0 : 0 ≤ m) (h10 : m ≤ 10)
    (hlow : 153 * m ≤ 5 * doy + 2) (hhigh : 5 * doy + 2 < 153 * (m + 1)) :
    (doy - (153 * m + 2) / 5 + 1).toNat ≤
      monthLength year (if m < 10 then m + 3 else m - 9).toNat := by
  interval_cases m <;> simp [monthLength] <;> omega

/-- The date of a day is the one with its number. -/
theorem dateOf_number (h : Fits d) : (dateOf d).Valid ∧ (dateOf d).number = d := by
  obtain ⟨era, yoe, doy, hy0, hy1, h0, h1, hnext, hs, -, hfound⟩ := dateOf_eq h
  obtain ⟨hrange, hpos⟩ := dateOf_range h
  obtain ⟨hyear, -, hday⟩ := hfound.march h0 (by omega)
  have hstart : yearStart yoe = yoe * 365 + yoe / 4 - yoe / 100 := by
    unfold yearStart
    omega
  have hnext' : yearStart yoe + doy < yearStart (yoe + 1) := by
    rw [hstart]
    exact hnext
  refine ⟨⟨hrange, hpos.1, ?_⟩, ?_⟩
  · by_cases hfebruary : (dateOf d).month = 2
    · -- A leap day is the last day of a long year.
      have hyear' : (dateOf d).year = yoe + 1 + era * 400 := by
        rw [hfound.year, if_pos (by omega)]
        ring
      have hleap : IsLeap (dateOf d).year ↔ IsLeap (yoe + 1) := by
        rw [hyear']
        unfold IsLeap
        omega
      have hm : (5 * doy + 2) / 153 = 11 := by
        rw [hfound.month] at hfebruary
        split_ifs at hfebruary <;> omega
      rw [yearStart_succ] at hnext'
      rw [hfebruary, monthLength, hfound.day, hm]
      simp only [hleap]
      split_ifs at hnext' ⊢ <;> omega
    · rw [hfound.day, hfound.month]
      refine day_le_monthLength _ (by omega) ?_ (by omega) (by omega)
      by_contra hlast
      have hm : (5 * doy + 2) / 153 = 11 := by omega
      have hmonth := hfound.month
      rw [hm] at hmonth
      exact hfebruary hmonth
  · rw [Date.number, hyear, hday, yearStart_era, hstart]
    omega

/-- A date whose number fits has a year that does. -/
theorem Date.marchYear_range (h : x.Valid) (hlow : -2 ^ 63 ≤ x.number)
    (hhigh : x.number < 2 ^ 63) : -2 ^ 62 ≤ x.marchYear ∧ x.marchYear < 2 ^ 62 := by
  obtain ⟨h0, h1⟩ := Date.marchDay_range h
  have hshift : EPOCH_SHIFT = 719468 := rfl
  unfold Date.number at hlow hhigh
  unfold yearStart at *
  omega

theorem daysOf_of_fits (h : x.Valid) (hlow : -2 ^ 63 ≤ x.number) (hhigh : x.number < 2 ^ 63) :
    daysOf x = x.number := by
  obtain ⟨hl, hh⟩ := Date.marchYear_range h hlow hhigh
  rw [daysOf_number (by omega) (by omega)]
  exact wrap_of_mem ⟨hlow, hhigh⟩

/-- The date of the day number of a date is that date. -/
theorem dateOf_daysOf (h : x.Valid) (hfits : Fits x.number) : dateOf (daysOf x) = x := by
  have hshift : EPOCH_SHIFT = 719468 := rfl
  have hhigh : x.number < 2 ^ 63 := by
    have := hfits.2
    omega
  rw [daysOf_of_fits h hfits.1 hhigh]
  obtain ⟨hvalid, hnumber⟩ := dateOf_number hfits
  exact Date.number_injective hvalid h hnumber

/-! ## Texts -/

theorem monthLength_le (year : Int) (month : Nat) : monthLength year month ≤ 31 := by
  unfold monthLength
  split <;> (try split_ifs) <;> omega

/-- Dates of four-digit years are ordered as their texts are. -/
theorem toIso_lt (hx : x.Valid) (hy : y.Valid) (hx0 : 0 ≤ x.year) (hy1 : y.year ≤ 9999)
    (h : x.Before y) : x.toIso < y.toIso := by
  have hy0 : 0 ≤ y.year := by
    unfold Date.Before at h
    omega
  have hxm := hx.month
  have hym := hy.month
  have hxd := hx.day.2.trans (monthLength_le _ _)
  have hyd := hy.day.2.trans (monthLength_le _ _)
  have hxy : x.year.natAbs ≤ y.year.natAbs := by
    unfold Date.Before at h
    omega
  -- Four digits, two digits, two digits.
  rw [String.lt_iff_toList_lt, Date.toIso, Date.toIso, String.toList_ofList, String.toList_ofList,
    yearText, yearText, if_neg (by omega), if_neg (by omega), List.append_assoc, List.append_assoc]
  rcases h with hyear | ⟨hyear, hmonth | ⟨hmonth, hday⟩⟩
  · refine append_lt_append _ _ ?_ (padded_lt (by omega) (by norm_num; omega))
    rw [length_padded (by norm_num; omega), length_padded (by norm_num; omega)]
  · rw [hyear]
    refine List.append_left_lt (List.cons_lt_cons_iff.mpr (Or.inr ⟨rfl, ?_⟩))
    refine append_lt_append _ _ ?_ (padded_lt hmonth (by norm_num; omega))
    rw [length_padded (by norm_num; omega), length_padded (by norm_num; omega)]
  · rw [hyear, hmonth]
    refine List.append_left_lt (List.cons_lt_cons_iff.mpr (Or.inr ⟨rfl, ?_⟩))
    refine List.append_left_lt (List.cons_lt_cons_iff.mpr (Or.inr ⟨rfl, ?_⟩))
    exact padded_lt hday (by norm_num; omega)

theorem toIso_lt_iff (hx : x.Valid) (hy : y.Valid) (hx0 : 0 ≤ x.year) (hx1 : x.year ≤ 9999)
    (hy0 : 0 ≤ y.year) (hy1 : y.year ≤ 9999) : x.toIso < y.toIso ↔ x.Before y := by
  constructor
  · intro h
    rcases x.before_trichotomy y with hbefore | rfl | hbefore
    · exact hbefore
    · exact absurd h (lt_irrefl _)
    · exact absurd (toIso_lt hy hx hy0 hx1 hbefore) (lt_asymm h)
  · exact toIso_lt hx hy hx0 hy1

/-- Two digits. -/
def two (n : Nat) : String := String.ofList [Nat.digitChar (n / 10), Nat.digitChar (n % 10)]

theorem padded_two {n : Nat} (h : n < 100) : String.ofList (padded 2 n) = two n := by
  rw [padded_succ 0 n, padded_of_lt_ten 0 (by omega)]
  rfl

/-- A timestamp is the date of its day and the time since that day began. -/
theorem toRfc3339_eq (seconds : Int) :
    ∃ h m s : Nat, h < 24 ∧ m < 60 ∧ s < 60 ∧
      seconds = 86400 * dayOf seconds + (3600 * h + 60 * m + s) ∧
      toRfc3339 seconds = (dateOf (dayOf seconds)).toIso ++ "T" ++ two h ++ ":" ++ two m ++ ":" ++
        two s ++ "Z" := by
  have hday : DAY = 86400 := rfl
  have hnonneg : 0 ≤ seconds % DAY := Int.emod_nonneg _ (by decide)
  have hlt : seconds % DAY < DAY := Int.emod_lt_of_pos _ (by decide)
  refine ⟨(seconds % DAY).toNat / 3600, (seconds % DAY).toNat % 3600 / 60,
    (seconds % DAY).toNat % 60, by omega, by omega, by omega, ?_, ?_⟩
  · unfold dayOf
    rw [hday] at *
    omega
  · rw [toRfc3339, ← padded_two (by omega), ← padded_two (by omega), ← padded_two (by omega)]

/-! ## The calendar of the trail -/

/-- The days the calendar is asked for. -/
def Near (d : Int) : Prop := -2 ^ 52 ≤ d ∧ d ≤ 2 ^ 52

theorem Near.fits (h : Near d) : Fits d ∧ Fits (d + 1) := by
  obtain ⟨hlow, hhigh⟩ := h
  have hshift : EPOCH_SHIFT = 719468 := rfl
  refine ⟨⟨?_, ?_⟩, ?_, ?_⟩ <;> omega

/-- A date between the first and the last of these days has a number among them. -/
theorem near_number (h : x.Valid) (hlow : ¬x.Before (dateOf (-2 ^ 52)))
    (hhigh : ¬(dateOf (2 ^ 52)).Before x) : Near x.number := by
  obtain ⟨hvalid, hnumber⟩ := dateOf_number (Near.fits (d := -2 ^ 52) (by unfold Near; omega)).1
  obtain ⟨hvalid', hnumber'⟩ := dateOf_number (Near.fits (d := 2 ^ 52) (by unfold Near; omega)).1
  rw [← Date.number_lt_iff h hvalid, hnumber] at hlow
  rw [← Date.number_lt_iff hvalid' h, hnumber'] at hhigh
  constructor <;> omega

/-- Dates of four-digit years are far from the ends of the type. -/
theorem number_of_year (h : x.Valid) (h0 : 0 ≤ x.year) (h1 : x.year ≤ 9999) :
    daysOf x = x.number := by
  obtain ⟨hday0, hday1⟩ := Date.marchDay_range h
  have hshift : EPOCH_SHIFT = 719468 := rfl
  have hyear : -1 ≤ x.marchYear ∧ x.marchYear ≤ 9999 := by
    unfold Date.marchYear
    split_ifs <;> omega
  have hnumber : -2 ^ 63 ≤ x.number ∧ x.number < 2 ^ 63 := by
    unfold Date.number
    unfold yearStart at *
    omega
  exact daysOf_of_fits h hnumber.1 hnumber.2

/-- **The calendar is a bijection.** The date of a day is a date of the Gregorian calendar that has
that day's number, and the next day has the next date; every date between the first and the last of
these days is the date of its number; dates of four-digit years read back from their texts, which
are ordered as the days are; and a timestamp is the date of its day and the time of day, before the
epoch too. -/
theorem calendar_bijection :
    (∀ d, Near d → (dateOf d).Valid ∧ daysOf (dateOf d) = d ∧ dateOf (d + 1) = (dateOf d).next) ∧
    (∀ x : Date, x.Valid → ¬x.Before (dateOf (-2 ^ 52)) → ¬(dateOf (2 ^ 52)).Before x →
      dateOf (daysOf x) = x) ∧
    (∀ x : Date, x.Valid → 0 ≤ x.year → x.year ≤ 9999 → Date.fromIso x.toIso = some x) ∧
    (∀ x y : Date, x.Valid → y.Valid → 0 ≤ x.year → x.year ≤ 9999 → 0 ≤ y.year → y.year ≤ 9999 →
      (x.toIso < y.toIso ↔ daysOf x < daysOf y)) ∧
    ∀ seconds : Int, ∃ h m s : Nat, h < 24 ∧ m < 60 ∧ s < 60 ∧
      seconds = 86400 * dayOf seconds + (3600 * h + 60 * m + s) ∧
      toRfc3339 seconds = (dateOf (dayOf seconds)).toIso ++ "T" ++ two h ++ ":" ++ two m ++ ":" ++
        two s ++ "Z" := by
  refine ⟨?_, ?_, ?_, ?_, toRfc3339_eq⟩
  · intro d hd
    obtain ⟨hvalid, hnumber⟩ := dateOf_number hd.fits.1
    obtain ⟨hvalid', hnumber'⟩ := dateOf_number hd.fits.2
    refine ⟨hvalid, daysOf_dateOf hd.fits.1, ?_⟩
    refine Date.number_injective hvalid' (Date.next_valid hvalid) ?_
    rw [hnumber', Date.number_next hvalid, hnumber]
  · intro x hx hlow hhigh
    exact dateOf_daysOf hx (near_number hx hlow hhigh).fits.1
  · intro x hx h0 h1
    have hday := hx.day.2.trans (monthLength_le _ _)
    exact fromIso_toIso h0 (by omega) hx.month ⟨hx.day.1, hday⟩
  · intro x y hx hy hx0 hx1 hy0 hy1
    rw [toIso_lt_iff hx hy hx0 hx1 hy0 hy1, number_of_year hx hx0 hx1, number_of_year hy hy0 hy1,
      Date.number_lt_iff hx hy]

end PicX.Civil
