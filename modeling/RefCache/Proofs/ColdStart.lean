import RefCache.Timestamp
import Mathlib.Data.Nat.Init
import Mathlib.Tactic.ByContra
import Mathlib.Tactic.SplitIfs

/-! How far back a first read goes. Every day has one date, which the day number gives back, so the
instant some years earlier can be told by its date and time of day. Ten years hold one leap day at
least and three at most, and a year that is ten after another one is never a leap year with it. -/

namespace RefCache

/-! ### Years and months -/

theorem isLeapYear_iff {year : Int} :
    isLeapYear year ↔ year % 4 = 0 ∧ (year % 100 ≠ 0 ∨ year % 400 = 0) := by
  simp [isLeapYear]

def yearLength (year : Int) : Nat := if isLeapYear year then 366 else 365

theorem daysBeforeYear_succ (year : Int) :
    daysBeforeYear (year + 1) = daysBeforeYear year + yearLength year := by
  unfold daysBeforeYear yearLength
  split
  · rename_i hleap
    rw [isLeapYear_iff] at hleap
    omega
  · rename_i hcommon
    rw [isLeapYear_iff] at hcommon
    omega

theorem daysBeforeYear_mono {a b : Int} (h : a ≤ b) : daysBeforeYear a ≤ daysBeforeYear b := by
  unfold daysBeforeYear
  omega

/-- February is the only month whose length depends on the year. -/
theorem monthLength_eq (year : Int) (month : Nat) :
    monthLength year month =
      monthLength 1 month + if month = 2 ∧ isLeapYear year then 1 else 0 := by
  have hfirst : isLeapYear 1 = false := by decide
  unfold monthLength
  by_cases hfebruary : month = 2
  · cases hleap : isLeapYear year <;> simp [hfebruary, hfirst]
  · simp [hfebruary]

theorem le_monthLength (year : Int) (month : Nat) : 28 ≤ monthLength year month := by
  unfold monthLength
  split_ifs <;> omega

theorem daysBeforeMonth_succ (year : Int) {month : Nat} (h : 1 ≤ month) :
    daysBeforeMonth year (month + 1) = daysBeforeMonth year month + monthLength year month := by
  obtain ⟨before, rfl⟩ := Nat.exists_eq_add_of_le' h
  rfl

theorem daysBeforeMonth_mono (year : Int) {a b : Nat} (ha : 1 ≤ a) (hab : a ≤ b) :
    daysBeforeMonth year a ≤ daysBeforeMonth year b := by
  induction b, hab using Nat.le_induction with
  | base => exact Nat.le_refl _
  | succ b hab ih =>
    rw [daysBeforeMonth_succ year (Nat.le_trans ha hab)]
    omega

/-- A leap day comes before every month after February. -/
theorem daysBeforeMonth_eq (year : Int) {month : Nat} (h : 1 ≤ month) :
    daysBeforeMonth year month =
      daysBeforeMonth 1 month + if 2 < month ∧ isLeapYear year then 1 else 0 := by
  induction month, h using Nat.le_induction with
  | base => rfl
  | succ month h ih =>
    rw [daysBeforeMonth_succ year h, daysBeforeMonth_succ 1 h, ih, monthLength_eq year month]
    by_cases hleap : isLeapYear year
    · simp only [hleap, and_true]
      split_ifs <;> omega
    · simp [hleap]

theorem daysBeforeMonth_thirteen (year : Int) : daysBeforeMonth year 13 = yearLength year := by
  have hcommon : daysBeforeMonth 1 13 = 365 := by decide
  rw [daysBeforeMonth_eq year (by decide), hcommon, yearLength]
  by_cases hleap : isLeapYear year <;> simp [hleap]

namespace Date

variable {d e : Date}

/-! ### Dates and day numbers -/

/-- The day that a month and a day of it make in their year, counted from zero. -/
def dayOfYear (d : Date) : Nat := daysBeforeMonth d.year d.month + d.day - 1

theorem Valid.dayOfYear_lt (h : d.Valid) : d.dayOfYear < yearLength d.year := by
  obtain ⟨hfirst, hlast, hpos, hlength⟩ := h
  have hnext := daysBeforeMonth_mono d.year (a := d.month + 1) (b := 13) (by omega) (by omega)
  rw [daysBeforeMonth_succ d.year hfirst, daysBeforeMonth_thirteen] at hnext
  unfold dayOfYear
  omega

theorem Valid.dayNumber_eq (h : d.Valid) :
    d.dayNumber = daysBeforeYear d.year + d.dayOfYear - unixEpochDay := by
  have hpos := h.2.2.1
  unfold dayNumber dayOfYear
  omega

/-- A day of a year lies between the first days of this year and the next. -/
theorem Valid.dayNumber_bounds (h : d.Valid) :
    daysBeforeYear d.year ≤ d.dayNumber + unixEpochDay ∧
      d.dayNumber + unixEpochDay < daysBeforeYear (d.year + 1) := by
  have hlt := h.dayOfYear_lt
  rw [h.dayNumber_eq, daysBeforeYear_succ]
  omega

theorem Valid.year_le (hd : d.Valid) (he : e.Valid) (h : d.dayNumber = e.dayNumber) :
    d.year ≤ e.year := by
  by_contra hlt
  have hyears := daysBeforeYear_mono (show e.year + 1 ≤ d.year by omega)
  have hfrom := hd.dayNumber_bounds.1
  have hto := he.dayNumber_bounds.2
  omega

theorem Valid.month_le (hd : d.Valid) (he : e.Valid) (hyear : d.year = e.year)
    (h : d.dayOfYear = e.dayOfYear) : d.month ≤ e.month := by
  by_contra hlt
  have hmonths := daysBeforeMonth_mono e.year (a := e.month + 1) (b := d.month) (by omega)
    (by omega)
  rw [daysBeforeMonth_succ e.year he.1] at hmonths
  have hdpos := hd.2.2.1
  obtain ⟨-, -, hepos, hlength⟩ := he
  unfold dayOfYear at h
  rw [hyear] at h
  omega

/-- No two dates are the same day. -/
theorem Valid.eq_of_dayNumber_eq (hd : d.Valid) (he : e.Valid) (h : d.dayNumber = e.dayNumber) :
    d = e := by
  have hyear : d.year = e.year := Int.le_antisymm (hd.year_le he h) (he.year_le hd h.symm)
  have hofYear : d.dayOfYear = e.dayOfYear := by
    rw [hd.dayNumber_eq, he.dayNumber_eq, hyear] at h
    omega
  have hmonth : d.month = e.month :=
    Nat.le_antisymm (hd.month_le he hyear hofYear) (he.month_le hd hyear.symm hofYear.symm)
  have hday : d.day = e.day := by
    have hdpos := hd.2.2.1
    have hepos := he.2.2.1
    unfold dayOfYear at hofYear
    rw [hyear, hmonth] at hofYear
    omega
  cases d
  cases e
  simp_all

/-- The guess is off by one year at most, which its two corrections make good. -/
theorem yearOfDay_bounds (n : Int) :
    daysBeforeYear (yearOfDay n) ≤ n ∧ n < daysBeforeYear (yearOfDay n + 1) := by
  unfold yearOfDay
  simp only
  generalize hguess : n * 400 / 146097 + 1 = guess
  have hlow : daysBeforeYear (guess - 1) ≤ n := by
    unfold daysBeforeYear
    omega
  have hhigh : n < daysBeforeYear (guess + 2) := by
    unfold daysBeforeYear
    omega
  split_ifs with hbefore hafter
  · exact ⟨hlow, by rwa [Int.sub_add_cancel]⟩
  · exact ⟨hafter, by rwa [Int.add_assoc]⟩
  · exact ⟨Int.not_lt.1 hbefore, Int.not_le.1 hafter⟩

/-- From any month on, the months left are gone through until the day falls into one of them. -/
theorem monthAndDay_range (year : Int) {count month n : Nat} (hmonth : 1 ≤ month)
    (hcount : month + count = 13) (hn : daysBeforeMonth year month + n < yearLength year) :
    let found := monthAndDay year (List.range' month count) n
    month ≤ found.1 ∧ found.1 ≤ 12 ∧ 1 ≤ found.2 ∧ found.2 ≤ monthLength year found.1 ∧
      daysBeforeMonth year found.1 + found.2 = daysBeforeMonth year month + n + 1 := by
  induction count generalizing month n with
  | zero =>
    obtain rfl : month = 13 := hcount
    rw [daysBeforeMonth_thirteen] at hn
    omega
  | succ count ih =>
    simp only [List.range'_succ, monthAndDay]
    split_ifs with hhere
    · exact ⟨Nat.le_refl _, by omega, Nat.le_add_left 1 n, hhere, rfl⟩
    · have hsucc := daysBeforeMonth_succ year hmonth
      obtain ⟨hfrom, hto, hpos, hlength, hday⟩ :=
        @ih (month + 1) (n - monthLength year month) (by omega) (by omega) (by omega)
      exact ⟨by omega, hto, hpos, hlength, by omega⟩

theorem ofDayNumber_spec (n : Int) : (ofDayNumber n).Valid ∧ (ofDayNumber n).dayNumber = n := by
  obtain ⟨hfrom, hto⟩ := yearOfDay_bounds (n + unixEpochDay)
  rw [daysBeforeYear_succ] at hto
  have hmonths : [1, 2, 3, 4, 5, 6, 7, 8, 9, 10, 11, 12] = List.range' 1 12 := rfl
  simp only [ofDayNumber, hmonths]
  generalize yearOfDay (n + unixEpochDay) = year at hfrom hto
  have hjanuary : daysBeforeMonth year 1 = 0 := rfl
  obtain ⟨hfirst, hlast, hpos, hlength, hday⟩ :=
    monthAndDay_range year (n := (n + unixEpochDay - daysBeforeYear year).toNat) (Nat.le_refl 1)
      (show 1 + 12 = 13 from rfl) (by omega)
  refine ⟨⟨hfirst, hlast, hpos, hlength⟩, ?_⟩
  simp only [dayNumber]
  omega

/-- The date of a day is the one date that has its number. -/
theorem ofDayNumber_eq_iff {n : Int} : ofDayNumber n = d ↔ d.Valid ∧ d.dayNumber = n := by
  constructor
  · rintro rfl
    exact ofDayNumber_spec n
  · rintro ⟨hvalid, rfl⟩
    obtain ⟨hfound, hday⟩ := ofDayNumber_spec d.dayNumber
    exact hfound.eq_of_dayNumber_eq hvalid hday

/-! ### Years earlier -/

theorem Valid.yearsEarlier (h : d.Valid) (years : Nat) : (d.yearsEarlier years).Valid := by
  have hlength := le_monthLength (d.year - years) d.month
  have hpos := h.2.2.1
  refine ⟨h.1, h.2.1, ?_, Nat.min_le_right _ _⟩
  change 1 ≤ min d.day (monthLength (d.year - years) d.month)
  omega

/-- Ten years earlier no 29 February is left. -/
theorem Valid.tenYearsEarlier_eq (h : d.Valid) :
    d.yearsEarlier 10 =
      ⟨d.year - 10, d.month, if d.month = 2 ∧ d.day = 29 then 28 else d.day⟩ := by
  have hlength := h.2.2.2
  rw [monthLength_eq] at hlength
  have hday : min d.day (monthLength (d.year - 10) d.month) =
      if d.month = 2 ∧ d.day = 29 then 28 else d.day := by
    rw [monthLength_eq]
    by_cases hfebruary : d.month = 2
    · have hcommon : monthLength 1 2 = 28 := by decide
      simp only [hfebruary, hcommon, true_and, isLeapYear_iff] at hlength ⊢
      split_ifs at hlength ⊢ <;> omega
    · simp only [hfebruary, false_and, if_false] at hlength ⊢
      omega
  exact congrArg (Date.mk (d.year - 10) d.month) hday

/-- What ten years amount to in days. -/
theorem Valid.tenYears_days (h : d.Valid) :
    3651 ≤ d.dayNumber - (d.yearsEarlier 10).dayNumber ∧
      d.dayNumber - (d.yearsEarlier 10).dayNumber ≤ 3653 := by
  have hlength := h.2.2.2
  rw [monthLength_eq] at hlength
  rw [h.tenYearsEarlier_eq]
  unfold dayNumber
  simp only
  rw [daysBeforeMonth_eq d.year h.1, daysBeforeMonth_eq (d.year - 10) h.1]
  simp only [isLeapYear_iff] at hlength ⊢
  have hcommon : monthLength 1 2 = 28 := by decide
  unfold daysBeforeYear
  by_cases hfebruary : d.month = 2
  · simp only [hfebruary, hcommon, true_and, Nat.lt_irrefl, false_and, if_false] at hlength ⊢
    split_ifs at hlength ⊢ <;> omega
  · simp only [hfebruary, false_and, if_false] at hlength ⊢
    split_ifs <;> omega

end Date

namespace Timestamp

variable {t : Timestamp}

theorem date_spec (t : Timestamp) : t.date.Valid ∧ t.date.dayNumber = t.dayNumber :=
  Date.ofDayNumber_spec t.dayNumber

theorem secondOfDay_lt (t : Timestamp) : t.secondOfDay < 86400 := by
  unfold secondOfDay
  omega

theorem seconds_eq (t : Timestamp) : t.seconds = t.dayNumber * 86400 + t.secondOfDay := by
  unfold dayNumber secondOfDay
  omega

/-- An instant is told by the day, the second of the day and the nanoseconds. -/
theorem of_day_and_second {d : Date} (h : d.Valid) {second : Nat} (hsecond : second < 86400)
    (nanos : Nat) :
    (⟨d.dayNumber * 86400 + second, nanos⟩ : Timestamp).date = d ∧
      (⟨d.dayNumber * 86400 + second, nanos⟩ : Timestamp).secondOfDay = second := by
  constructor
  · refine Date.ofDayNumber_eq_iff.2 ⟨h, ?_⟩
    simp only [dayNumber]
    omega
  · simp only [secondOfDay]
    omega

/-- An instant from the first year to the last. The nanoseconds of any second may run on to two
billion, also of one that no leap second follows. -/
def InCalendar (t : Timestamp) : Prop :=
  earliest.seconds ≤ t.seconds ∧ t.seconds ≤ latestSecond ∧ t.nanos < 2000000000

theorem Representable.inCalendar (h : t.Representable) : t.InCalendar :=
  ⟨h.1, h.2.1, by have := h.2.2; omega⟩

/-- One instant lies ten years before another: the time of day is the same, and so is the date but
for its year and for 29 February. -/
structure TenYearsBefore (mark now : Timestamp) : Prop where
  date : mark.date =
    ⟨now.date.year - 10, now.date.month,
      if now.date.month = 2 ∧ now.date.day = 29 then 28 else now.date.day⟩
  secondOfDay : mark.secondOfDay = now.secondOfDay
  nanos : mark.nanos = now.nanos
  wholeDays : ∃ days : Int, 3651 ≤ days ∧ days ≤ 3653 ∧ now.seconds = mark.seconds + days * 86400

theorem tenYearsBefore (t : Timestamp) :
    TenYearsBefore ⟨(t.date.yearsEarlier 10).dayNumber * 86400 + t.secondOfDay, t.nanos⟩ t := by
  obtain ⟨hvalid, hday⟩ := t.date_spec
  obtain ⟨hdate, hsecond⟩ :=
    of_day_and_second (hvalid.yearsEarlier 10) t.secondOfDay_lt t.nanos
  refine ⟨hdate.trans hvalid.tenYearsEarlier_eq, hsecond, rfl, _, hvalid.tenYears_days.1,
    hvalid.tenYears_days.2, ?_⟩
  rw [hday]
  have hseconds := t.seconds_eq
  change t.seconds = (t.date.yearsEarlier 10).dayNumber * 86400 + t.secondOfDay + _
  omega

/-- The first second of the first year is the earliest of all. -/
theorem earliest_le_of_year (h : firstYear ≤ t.date.year) : earliest.seconds ≤ t.seconds := by
  obtain ⟨hvalid, hday⟩ := t.date_spec
  have hyears := daysBeforeYear_mono h
  have hfrom := hvalid.dayNumber_bounds.1
  have hfirst : daysBeforeYear firstYear - unixEpochDay = earliest.seconds / 86400 := by decide
  have hepoch : earliest.seconds % 86400 = 0 := by decide
  have hseconds := t.seconds_eq
  omega

theorem TenYearsBefore.inCalendar {mark now : Timestamp} (h : TenYearsBefore mark now)
    (hyear : firstYear ≤ now.date.year - 10) (hnow : now.InCalendar) : mark.InCalendar := by
  obtain ⟨days, hlow, hhigh, hseconds⟩ := h.wholeDays
  obtain ⟨-, hlatest, hnanos⟩ := hnow
  refine ⟨earliest_le_of_year ?_, by omega, ?_⟩
  · rw [h.date]
    exact hyear
  · rw [h.nanos]
    exact hnanos

theorem TenYearsBefore.representable {mark now : Timestamp} (h : TenYearsBefore mark now)
    (hyear : firstYear ≤ now.date.year - 10) (hnow : now.Representable) : mark.Representable := by
  obtain ⟨hfirst, hlast, -⟩ := h.inCalendar hyear hnow.inCalendar
  obtain ⟨days, hlow, hhigh, hseconds⟩ := h.wholeDays
  refine ⟨hfirst, hlast, ?_⟩
  rw [h.nanos]
  have hnanos := hnow.2.2
  omega

theorem TenYearsBefore.le {mark now : Timestamp} (h : TenYearsBefore mark now) : mark ≤ now := by
  obtain ⟨days, hlow, hhigh, hseconds⟩ := h.wholeDays
  exact .inl (by omega)

theorem earliest_le (h : t.InCalendar) : earliest ≤ t := by
  rcases Int.lt_or_eq_of_le h.1 with hlt | heq
  · exact .inl hlt
  · exact .inr ⟨heq, Nat.zero_le _⟩

end Timestamp

open Timestamp in
/-- A category that has never been read is read from ten years before, by date and time of day, or
from the earliest instant where ten years before there is none. -/
theorem cold_start_ten_years {now : Timestamp} (h : now.InCalendar) :
    coldStartMark now ≤ now ∧ (coldStartMark now).InCalendar ∧
      (now.Representable → (coldStartMark now).Representable) ∧
      (firstYear ≤ now.date.year - 10 → TenYearsBefore (coldStartMark now) now) ∧
      (now.date.year - 10 < firstYear → coldStartMark now = earliest) := by
  have hyear : (now.date.yearsEarlier coldStartYears).year = now.date.year - 10 := rfl
  unfold coldStartMark Timestamp.yearsEarlier
  simp only [hyear]
  split_ifs with hbefore
  · have hearliest : earliest.Representable := by decide
    exact ⟨earliest_le h, hearliest.inCalendar, fun _ => hearliest,
      fun hafter => absurd hbefore (Int.not_lt.2 hafter), fun _ => rfl⟩
  · have hten := now.tenYearsBefore
    have hafter := Int.not_lt.1 hbefore
    exact ⟨hten.le, hten.inCalendar hafter h, hten.representable hafter, fun _ => hten,
      fun hlt => absurd hlt hbefore⟩

/-- The leap second at the end of 29 February 2000, and the second before it, drawn out as well. -/
theorem cold_start_ten_years_leap_second :
    (⟨951868799, 1500000000⟩ : Timestamp).Representable ∧
      coldStartMark ⟨951868799, 1500000000⟩ = ⟨636249599, 1500000000⟩ ∧
      Timestamp.TenYearsBefore ⟨636249599, 1500000000⟩ ⟨951868799, 1500000000⟩ ∧
      (⟨951868798, 1999999999⟩ : Timestamp).InCalendar ∧
      coldStartMark ⟨951868798, 1999999999⟩ = ⟨636249598, 1999999999⟩ ∧
      Timestamp.TenYearsBefore ⟨636249598, 1999999999⟩ ⟨951868798, 1999999999⟩ := by
  have hleap : (⟨951868799, 1500000000⟩ : Timestamp).Representable := by decide
  have hmark : coldStartMark ⟨951868799, 1500000000⟩ = ⟨636249599, 1500000000⟩ := by
    decide +kernel
  have hback := (cold_start_ten_years hleap.inCalendar).2.2.2.1 (by decide +kernel)
  rw [hmark] at hback
  have hlong : (⟨951868798, 1999999999⟩ : Timestamp).InCalendar :=
    ⟨by decide, by decide, by decide⟩
  have hmark' : coldStartMark ⟨951868798, 1999999999⟩ = ⟨636249598, 1999999999⟩ := by
    decide +kernel
  have hback' := (cold_start_ten_years hlong).2.2.2.1 (by decide +kernel)
  rw [hmark'] at hback'
  exact ⟨hleap, hmark, hback, hlong, hmark', hback'⟩

end RefCache
