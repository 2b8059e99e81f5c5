import PicX.Audit.Calendar
import PicX.Audit.Record
import PicX.Base.Trim

/-!
# Names of days

The file of a day is named after its date, and a directory is read by taking the date out of each
name again. The reader takes numbers as they come, so more names than these are dates to it: without
leading zeroes, with a sign, of days no month has. The name of a day before the year 0 is none to
it.

* `dayOfFile_iff`: what the reader takes from a name.
* `dateOf_beyond`: the dates of the last days of `i64`, where the sum of the algorithm wraps.
* `recognised_iff`: **a name is read as the day it is the name of exactly when it writes a date of
  the calendar in full, of a year from 0 on that fits**.
-/

namespace PicX.Audit

open PicX

/-! ## Reading a name -/

/-- A name is read by the date between its ends. -/
theorem dayOfFile_iff {name : String} {d : Int} :
    dayOfFile name = some d ↔ ∃ text x, name = PREFIX ++ text ++ SUFFIX ∧
      Civil.Date.fromIso text = some x ∧ Civil.daysOf x = d := by
  constructor
  · intro h
    obtain ⟨rest, hrest, h⟩ := Option.bind_eq_some_iff.mp h
    obtain ⟨text, htext, h⟩ := Option.bind_eq_some_iff.mp h
    obtain ⟨x, hx, hd⟩ := Option.map_eq_some_iff.mp h
    refine ⟨text, x, ?_, hx, hd⟩
    rw [stripPrefix_some hrest, stripSuffix_some htext, String.append_assoc]
  · intro ⟨text, x, hname, hx, hd⟩
    rw [hname, dayOfFile, String.append_assoc, stripPrefix_append]
    show (stripSuffix SUFFIX (text ++ SUFFIX) >>= _) = _
    rw [stripSuffix_append]
    show (Civil.Date.fromIso text).map Civil.daysOf = _
    rw [hx, Option.map_some, hd]

/-- The ends of a name leave one text between them. -/
theorem between_injective {text text' : String}
    (h : PREFIX ++ text ++ SUFFIX = PREFIX ++ text' ++ SUFFIX) : text = text' := by
  have hlist := congrArg String.toList h
  simp only [String.toList_append, List.append_cancel_right_eq, List.append_cancel_left_eq] at hlist
  exact String.toList_injective hlist

/-- A date that is read has no sign, and numbers that fit their types. -/
theorem fromIso_range {text : String} {x : Civil.Date} (h : Civil.Date.fromIso text = some x) :
    (0 ≤ x.year ∧ x.year < 2 ^ 63) ∧ (1 ≤ x.month ∧ x.month ≤ 12) ∧ (1 ≤ x.day ∧ x.day ≤ 31) := by
  unfold Civil.Date.fromIso at h
  split at h
  · rename_i year month day rest hsplit
    obtain ⟨y, hy, h⟩ := Option.bind_eq_some_iff.mp h
    obtain ⟨m, -, h⟩ := Option.bind_eq_some_iff.mp h
    obtain ⟨n, -, h⟩ := Option.bind_eq_some_iff.mp h
    split_ifs at h with hrange
    cases h
    simp only [not_or, not_not] at hrange
    -- A part of the text has no dash, so the year has no sign.
    have hdash : '-' ∉ year := by
      have hpiece : String.ofList year ∈ split '-' text := by
        rw [split, hsplit]
        exact List.mem_cons_self
      simpa using notMem_of_mem_split hpiece
    unfold Civil.parseI64 at hy
    obtain ⟨hread, hfilter⟩ := Option.filter_eq_some_iff.mp hy
    have hnonneg : 0 ≤ y := by
      split at hread
      · exact absurd List.mem_cons_self hdash
      · obtain ⟨k, -, rfl⟩ := Option.map_eq_some_iff.mp hread
        exact Int.natCast_nonneg k
      · obtain ⟨k, -, rfl⟩ := Option.map_eq_some_iff.mp hread
        exact Int.natCast_nonneg k
    have hlt : y < 2 ^ 63 := (of_decide_eq_true hfilter).2
    exact ⟨⟨hnonneg, hlt⟩, hrange.2.1, hrange.2.2⟩
  · cases h

/-- The text of a date before the year 0 is not read. -/
theorem fromIso_negative {x : Civil.Date} (h : x.year < 0) : Civil.Date.fromIso x.toIso = none := by
  have htext : x.toIso.toList = [] ++ '-' ::
      (padded 3 x.year.natAbs ++ '-' :: padded 2 x.month ++ '-' :: padded 2 x.day) := by
    rw [Civil.Date.toIso, String.toList_ofList, Civil.yearText, if_pos h]
    rfl
  -- The dash of the sign cuts off a year with no digits.
  have hsplit : ∃ rest, x.toIso.toList.splitOn '-' = [] :: rest := by
    rw [htext, List.splitOn_append_cons_self]
    exact ⟨_, rfl⟩
  obtain ⟨rest, hrest⟩ := hsplit
  unfold Civil.Date.fromIso
  rw [hrest]
  rcases rest with _ | ⟨month, _ | ⟨day, rest⟩⟩
  · rfl
  · rfl
  · rfl

/-! ## The last days of the type -/

/-- The days there are. -/
def IsI64 (d : Int) : Prop := -2 ^ 63 ≤ d ∧ d < 2 ^ 63

theorem wrap_isI64 (n : Int) : IsI64 (Civil.wrap n) := by
  unfold Civil.wrap IsI64
  constructor
  · have := Int.le_bmod (x := n) (m := 2 ^ 64) (by decide)
    omega
  · have := Int.bmod_lt (x := n) (m := 2 ^ 64) (by decide)
    omega

theorem wrap_beyond {n : Int} (hlow : 2 ^ 63 ≤ n) (hhigh : n < 2 ^ 64) :
    Civil.wrap n = n - 2 ^ 64 := by
  unfold Civil.wrap
  rw [Int.bmod_def]
  split_ifs <;> omega

theorem wrap_below {n : Int} (hlow : -2 ^ 64 ≤ n) (hhigh : n < -2 ^ 63) :
    Civil.wrap n = n + 2 ^ 64 := by
  unfold Civil.wrap
  rw [Int.bmod_def]
  split_ifs <;> omega

open Civil

/-- A date is the one it was found as. -/
theorem found_unique {x y : Date} {era yoe doy era' yoe' : Int} (h : Found x era yoe doy)
    (h' : Found y era' yoe' doy) (hyear : yoe + era * 400 = yoe' + era' * 400) : x = y := by
  have hmonth : x.month = y.month := h.month.trans h'.month.symm
  have hday : x.day = y.day := h.day.trans h'.day.symm
  have hy : x.year = y.year := by
    rw [h.year, h'.year, hmonth, hyear]
  cases x
  cases y
  simp_all

/-- The year of the era, counted on into the next one. -/
theorem yearOfEra_beyond {doe yoe : Int} (h0 : 146097 ≤ doe) (h1 : doe ≤ 292192)
    (hy : yoe = (doe - doe / 1460 + doe / 36524 - doe / 146096) / 365) :
    400 ≤ yoe ∧ yoe ≤ 799 ∧ 0 ≤ doe - (365 * yoe + yoe / 4 - yoe / 100) ∧
      doe - (365 * yoe + yoe / 4 - yoe / 100) ≤ 366 := by
  refine ⟨by omega, by omega, ?_⟩
  by_cases hlast : doe = 292192
  · subst hlast
    omega
  have hg : doe / 146096 = 1 := by omega
  rw [hg] at hy
  have hf : doe / 36524 = 4 ∨ doe / 36524 = 5 ∨ doe / 36524 = 6 ∨ doe / 36524 = 7 := by omega
  have hq : yoe / 4 ≤ doe / 1460 ∧ doe / 1460 ≤ yoe / 4 + 1 := by omega
  -- A century starts a day late here: its first day still counts as the last of the one before.
  rcases hf with hf | hf | hf | hf <;> rw [hf] at hy
  · have hd : yoe / 100 = 4 := by omega
    omega
  · have hd : yoe / 100 = 5 ∨ doe = 182620 := by omega
    omega
  · have hd : yoe / 100 = 6 ∨ doe = 219144 := by omega
    omega
  · have hd : yoe / 100 = 7 ∨ doe = 255668 := by omega
    omega

/-- The date of a day whose shifted number wraps twice, by the era before its own. -/
theorem dateOf_late {d era doe yoe doy : Int} (hlow : 2 ^ 63 ≤ d + EPOCH_SHIFT)
    (hhigh : d + EPOCH_SHIFT < 2 ^ 63 + 146096) (hdoe : d + EPOCH_SHIFT = era * 146097 + doe)
    (h0 : 146096 ≤ doe) (h1 : doe ≤ 292192)
    (hyoe : yoe = (doe - doe / 1460 + doe / 36524 - doe / 146096) / 365) (hy0 : 0 ≤ yoe)
    (hdoy : doy = doe - (365 * yoe + yoe / 4 - yoe / 100)) (hd0 : 0 ≤ doy) :
    Found (dateOf d) era yoe doy := by
  have hs : wrap (d + EPOCH_SHIFT) = d + EPOCH_SHIFT - 2 ^ 64 := wrap_beyond hlow (by omega)
  have hera : (if d + EPOCH_SHIFT - 2 ^ 64 ≥ 0 then d + EPOCH_SHIFT - 2 ^ 64
      else wrap (d + EPOCH_SHIFT - 2 ^ 64 - 146096)).tdiv 146097 = era := by
    rw [if_neg (by omega), wrap_below (by omega) (by omega),
      Int.tdiv_eq_ediv_of_nonneg (by omega)]
    omega
  refine dateOf_found hs hera ?_ (by omega) hyoe hy0 hdoy hd0
  have hwrap : d + EPOCH_SHIFT - 2 ^ 64 - era * 146097 = doe - 2 ^ 64 := by omega
  rw [hwrap, wrap_below (by omega) (by omega)]
  omega

/-- What is found in an era that began before the end of the type. -/
theorem found_late {x : Date} {era yoe doy : Int} (h : Found x era yoe doy) (hera0 : 0 ≤ era)
    (hera1 : era < 2 ^ 47) (hy0 : 0 ≤ yoe) (hy1 : yoe ≤ 799) (h0 : 0 ≤ doy) (h1 : doy ≤ 366) :
    (0 ≤ x.marchYear ∧ x.marchYear < 2 ^ 62) ∧
      x.number = era * 146097 + (365 * yoe + yoe / 4 - yoe / 100 + doy) + yoe / 400 -
        EPOCH_SHIFT := by
  obtain ⟨hyear, -, hday⟩ := h.march h0 h1
  rw [Date.number, hyear, hday, yearStart_era, yearStart]
  refine ⟨⟨by omega, by omega⟩, by ring⟩

/-- The date of a day whose shifted number wraps is one before the year 0, or late by a day, or that
of the day before as well. -/
theorem dateOf_beyond {d : Int} (hd : IsI64 d) (h : ¬Fits d) :
    (dateOf d).year < 0 ∨
      ((1 ≤ (dateOf d).month ∧ (dateOf d).month ≤ 12) ∧
        (1 ≤ (dateOf d).day ∧ (dateOf d).day ≤ 31)) ∧
      (0 ≤ (dateOf d).marchYear ∧ (dateOf d).marchYear < 2 ^ 62) ∧
      ((dateOf d).number = d + 1 ∨
        (dateOf d).number = d ∧ IsI64 (d - 1) ∧ dateOf (d - 1) = dateOf d) := by
  have hshift : EPOCH_SHIFT = 719468 := rfl
  obtain ⟨hd0, hd1⟩ := hd
  have hlow : 2 ^ 63 ≤ d + EPOCH_SHIFT := by
    unfold Fits at h
    omega
  by_cases hnear : d + EPOCH_SHIFT < 2 ^ 63 + 146096
  swap
  · -- Far enough beyond the type, the sum is a day before the year 0.
    obtain ⟨era, yoe, doy, hy0, hy1, -, -, -, hs, hera, hfound⟩ :=
      dateOf_shifted (wrap_beyond hlow (by omega)) (by omega) (by omega)
    refine Or.inl ?_
    have hera0 : era < -2 := by omega
    rw [hfound.year]
    split_ifs <;> omega
  right
  obtain ⟨era, hera⟩ : ∃ era, (d + EPOCH_SHIFT - 146096) / 146097 = era := ⟨_, rfl⟩
  obtain ⟨doe, hdoe⟩ : ∃ doe, d + EPOCH_SHIFT = era * 146097 + doe :=
    ⟨d + EPOCH_SHIFT - era * 146097, by ring⟩
  have hera0 : 0 ≤ era := by omega
  have hera1 : era < 2 ^ 47 := by omega
  have h0 : 146096 ≤ doe := by omega
  have h1 : doe ≤ 292192 := by omega
  clear hera
  by_cases hlast : doe = 146096
  · -- The last day of an era is found in it, and so is the day before.
    subst hlast
    have hfound : Found (dateOf d) era 399 365 :=
      dateOf_late hlow hnear hdoe (by decide) (by decide) (by decide) (by decide) (by decide)
        (by decide)
    have hprev : 2 ^ 63 ≤ d - 1 + EPOCH_SHIFT := by omega
    have hbefore : Found (dateOf (d - 1)) (era - 1) 799 365 :=
      dateOf_late hprev (by omega) (by omega : d - 1 + EPOCH_SHIFT = (era - 1) * 146097 + 292192)
        (by decide) (by decide) (by decide) (by decide) (by decide) (by decide)
    obtain ⟨hyear, hnumber⟩ := found_late hfound hera0 hera1 (by decide) (by decide) (by decide)
      (by decide)
    refine ⟨hfound.range (by decide) (by decide), hyear, Or.inr ⟨?_, ⟨by omega, by omega⟩,
      found_unique hbefore hfound (by ring)⟩⟩
    rw [hnumber]
    omega
  · obtain ⟨yoe, hyoe⟩ : ∃ yoe, yoe = (doe - doe / 1460 + doe / 36524 - doe / 146096) / 365 :=
      ⟨_, rfl⟩
    obtain ⟨hy0, hy1, hdoy0, hdoy1⟩ := yearOfEra_beyond (by omega) h1 hyoe
    have hfound := dateOf_late hlow hnear hdoe h0 h1 hyoe (by omega) rfl hdoy0
    clear hyoe
    obtain ⟨hyear, hnumber⟩ := found_late hfound hera0 hera1 (by omega) hy1 hdoy0 hdoy1
    have hcentury : yoe / 400 = 1 := by omega
    refine ⟨hfound.range hdoy0 hdoy1, hyear, Or.inl ?_⟩
    rw [hnumber, hcentury]
    omega

/-! ## Which names are read as they are given -/

/-- A name is read as a day exactly when it is the name of that day. -/
def Recognised (name : String) : Prop :=
  ∀ d, IsI64 d → (dayOfFile name = some d ↔ name = fileName d)

/-- What a name says: nothing that reads as a date, or a date of the calendar, in full, that the day
numbers reach; and it is not that of a day before the year 0. -/
structure Canonical (name : String) : Prop where
  date : ∀ text x, name = PREFIX ++ text ++ SUFFIX → Date.fromIso text = some x →
    text = x.toIso ∧ x.Valid ∧ x.number + EPOCH_SHIFT < 2 ^ 63
  era : ∀ d, IsI64 d → name = fileName d → 0 ≤ (dateOf d).year

theorem fileName_eq (d : Int) : fileName d = PREFIX ++ (dateOf d).toIso ++ SUFFIX := rfl

/-- A date in range, from the year 0 on, names a day that is read. -/
theorem dayOfFile_date {x : Date} (h0 : 0 ≤ x.year) (h1 : x.year < 2 ^ 63)
    (hm : 1 ≤ x.month ∧ x.month ≤ 12) (hd : 1 ≤ x.day ∧ x.day ≤ 31) :
    dayOfFile (PREFIX ++ x.toIso ++ SUFFIX) = some (daysOf x) :=
  dayOfFile_iff.mpr ⟨x.toIso, x, rfl, fromIso_toIso h0 h1 hm hd, rfl⟩

theorem dayOfFile_negative {x : Date} (h : x.year < 0) :
    dayOfFile (PREFIX ++ x.toIso ++ SUFFIX) = none := by
  rw [Option.eq_none_iff_forall_ne_some]
  intro d hd
  obtain ⟨text, y, hname, hy, -⟩ := dayOfFile_iff.mp hd
  rw [← between_injective hname, fromIso_negative h] at hy
  cases hy

theorem year_of_march {x : Date} : x.marchYear ≤ x.year ∧ x.year ≤ x.marchYear + 1 := by
  unfold Date.marchYear
  split_ifs <;> omega

theorem year_lt {x : Date} (h : x.Valid) (hfits : Fits x.number) : x.year < 2 ^ 63 := by
  have hshift : EPOCH_SHIFT = 719468 := rfl
  obtain ⟨hlow, hhigh⟩ := hfits
  have := Date.marchYear_range h hlow (by omega)
  have := year_of_march (x := x)
  omega

theorem number_ge {x : Date} (h : x.Valid) (h0 : 0 ≤ x.year) : -2 ^ 63 ≤ x.number := by
  have hshift : EPOCH_SHIFT = 719468 := rfl
  obtain ⟨hday, -⟩ := Date.marchDay_range h
  have := year_of_march (x := x)
  unfold Date.number yearStart
  omega

/-- The name of a day whose date wraps is not read as that day alone. -/
theorem not_recognised_beyond {d : Int} (hd : IsI64 d) (h : ¬Fits d) :
    ¬Recognised (fileName d) := by
  intro hrecognised
  have hday : dayOfFile (fileName d) = some d := (hrecognised d hd).mpr rfl
  rcases dateOf_beyond hd h with hyear | ⟨⟨hm, hn⟩, ⟨hyear0, hyear1⟩, hnumber⟩
  · rw [fileName_eq, dayOfFile_negative hyear] at hday
    cases hday
  · obtain ⟨hle, hge⟩ := year_of_march (x := dateOf d)
    rw [fileName_eq, dayOfFile_date (by omega) (by omega) hm hn,
      daysOf_number (by omega) (by omega)] at hday
    have hwrap : wrap (dateOf d).number = d := Option.some.inj hday
    obtain ⟨hd0, hd1⟩ := hd
    rcases hnumber with hnumber | ⟨-, hbefore, hsame⟩
    · rw [hnumber] at hwrap
      by_cases hend : d + 1 < 2 ^ 63
      · rw [wrap_of_mem (by omega)] at hwrap
        omega
      · rw [wrap_beyond (by omega) (by omega)] at hwrap
        omega
    · -- The day before has the name too.
      have hname : fileName d = fileName (d - 1) := by rw [fileName, fileName, hsame]
      have hother : dayOfFile (fileName d) = some (d - 1) := (hrecognised _ hbefore).mpr hname
      have := Option.some.inj (((hrecognised d ⟨hd0, hd1⟩).mpr rfl).symm.trans hother)
      omega

theorem isI64_of_dayOfFile {name : String} {d : Int} (h : dayOfFile name = some d) : IsI64 d := by
  obtain ⟨text, x, -, -, rfl⟩ := dayOfFile_iff.mp h
  exact wrap_isI64 _

/-- What is read from a name that is recognised is a date of the calendar, in full. -/
theorem Recognised.date {name text : String} {x : Date} (h : Recognised name)
    (hname : name = PREFIX ++ text ++ SUFFIX) (hx : Date.fromIso text = some x) :
    text = x.toIso ∧ x.Valid ∧ x.number + EPOCH_SHIFT < 2 ^ 63 := by
  have hday : dayOfFile name = some (daysOf x) := dayOfFile_iff.mpr ⟨text, x, hname, hx, rfl⟩
  have hI64 := isI64_of_dayOfFile hday
  have hfile : name = fileName (daysOf x) := (h _ hI64).mp hday
  have hfits : Fits (daysOf x) := by
    by_contra hnot
    exact not_recognised_beyond hI64 hnot (hfile ▸ h)
  obtain ⟨hvalid, hnumber⟩ := dateOf_number hfits
  have htext : text = (dateOf (daysOf x)).toIso := between_injective (hname.symm.trans hfile)
  -- What was read is the date of the day it was read as.
  have hsame : x = dateOf (daysOf x) := by
    by_cases hyear : (dateOf (daysOf x)).year < 0
    · rw [htext, fromIso_negative hyear] at hx
      cases hx
    · obtain ⟨hm, hn⟩ := dateOf_range hfits
      have hlt := year_lt hvalid (hnumber.symm ▸ hfits)
      rw [htext, fromIso_toIso (by omega) hlt hm hn] at hx
      exact (Option.some.inj hx).symm
  rw [← hsame] at htext hvalid hnumber
  refine ⟨htext, hvalid, ?_⟩
  rw [hnumber]
  exact hfits.2

theorem Recognised.canonical {name : String} (h : Recognised name) : Canonical name where
  date text x hname hx := h.date hname hx
  era d hd hfile := by
    by_contra hyear
    have hday : dayOfFile name = some d := (h d hd).mpr hfile
    rw [hfile, fileName_eq, dayOfFile_negative (by omega)] at hday
    cases hday

theorem Canonical.eq_fileName {name : String} {d : Int} (h : Canonical name)
    (hday : dayOfFile name = some d) : name = fileName d := by
  obtain ⟨text, x, hname, hx, rfl⟩ := dayOfFile_iff.mp hday
  obtain ⟨htext, hvalid, hfits⟩ := h.date text x hname hx
  obtain ⟨⟨hy0, hy1⟩, -⟩ := fromIso_range hx
  have hdate : dateOf (daysOf x) = x := dateOf_daysOf hvalid ⟨number_ge hvalid hy0, hfits⟩
  rw [hname, fileName, hdate, htext]

theorem Canonical.read {name : String} {d : Int} (h : Canonical name) (hd : IsI64 d)
    (hfile : name = fileName d) : dayOfFile name = some d := by
  have hyear := h.era d hd hfile
  by_cases hfits : Fits d
  · obtain ⟨hm, hn⟩ := dateOf_range hfits
    obtain ⟨hvalid, hnumber⟩ := dateOf_number hfits
    have hlt := year_lt hvalid (hnumber.symm ▸ hfits)
    rw [hfile, fileName_eq, dayOfFile_date hyear hlt hm hn, daysOf_dateOf hfits]
  · -- A date that wraps has a number that does not fit.
    exfalso
    rcases dateOf_beyond hd hfits with hneg | ⟨⟨hm, hn⟩, ⟨hyear0, hyear1⟩, hnumber⟩
    · omega
    · obtain ⟨hle, hge⟩ := year_of_march (x := dateOf d)
      have hread := fromIso_toIso hyear (by omega) hm hn
      have hlt := (h.date _ _ hfile hread).2.2
      obtain ⟨hd0, hd1⟩ := hd
      unfold Fits at hfits
      omega

/-- **Which names are read as they are given.** A name is read as the day it is the name of, and as
no other, exactly when it says nothing that reads as a date, or a date of the calendar in full, of a
year from 0 on that fits; and of such names no two are read as one day. -/
theorem recognised_iff (name : String) :
    (Recognised name ↔ Canonical name) ∧
    ∀ name' d, Recognised name → Recognised name' → dayOfFile name = some d →
      dayOfFile name' = some d → name = name' := by
  refine ⟨?_, ?_⟩
  · constructor
    · exact Recognised.canonical
    · intro h d hd
      exact ⟨h.eq_fileName, h.read hd⟩
  · intro name' d h h' hday hday'
    have hd := isI64_of_dayOfFile hday
    rw [(h d hd).mp hday, (h' d hd).mp hday']

/-- A date that is not written in full is read, and is not the name of the day it is read as. -/
theorem unpadded_name_read :
    dayOfFile "audit-2026-2-3.jsonl" = some 20487 ∧
    ¬∀ name d, IsI64 d → (dayOfFile name = some d ↔ name = fileName d) := by
  have hday : dayOfFile "audit-2026-2-3.jsonl" = some 20487 := by decide +kernel
  refine ⟨hday, ?_⟩
  intro h
  have hname := (h _ 20487 ⟨by decide, by decide⟩).mp hday
  exact absurd hname (by decide +kernel)

end PicX.Audit
