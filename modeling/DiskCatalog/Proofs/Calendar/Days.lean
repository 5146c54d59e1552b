import Mathlib.Tactic
import DiskCatalog.Calendar.Date

/-!
# Dates and their numbers

The days of the calendar are numbered in the order of their dates.  Each number of the calendar is
that of one date, which `Date.ofDayNumber` finds by its year, then by its month.
-/

namespace DiskCatalog.Calendar

/-! ## Years and months -/

theorem isLeap_iff {year : Nat} :
    isLeap year ↔ 4 ∣ year ∧ (¬ 100 ∣ year ∨ 400 ∣ year) := by
  simp [isLeap, Nat.dvd_iff_mod_eq_zero]

theorem daysBeforeYear_succ {year : Nat} (hyear : 1 ≤ year) :
    daysBeforeYear (year + 1) = daysBeforeYear year + if isLeap year then 366 else 365 := by
  obtain ⟨k, rfl⟩ : ∃ k, year = k + 1 := ⟨year - 1, by omega⟩
  have hcenturies : k / 100 ≤ k / 4 := Nat.div_le_div_left (by omega) (by omega)
  have hhundred : 100 ∣ k + 1 → 4 ∣ k + 1 := Nat.dvd_trans (by decide)
  have hfourHundred : 400 ∣ k + 1 → 100 ∣ k + 1 := Nat.dvd_trans (by decide)
  simp only [daysBeforeYear, Nat.add_sub_cancel, Nat.succ_div, isLeap_iff]
  generalize k / 4 = fourth, k / 100 = century, k / 400 = cycle at hcenturies ⊢
  split_ifs <;> omega

theorem daysBeforeYear_mono {year year' : Nat} (hle : year ≤ year') :
    daysBeforeYear year ≤ daysBeforeYear year' := by
  induction hle with
  | refl => exact le_rfl
  | @step next hnext ih =>
      by_cases hzero : next = 0
      · have hfirst : year = 0 := Nat.le_zero.mp (hzero ▸ hnext)
        rw [hfirst]
        exact Nat.zero_le _
      · have hsucc := daysBeforeYear_succ (Nat.one_le_iff_ne_zero.mpr hzero)
        rw [Nat.succ_eq_add_one]
        omega

theorem daysBeforeMonth_succ (year : Nat) {month : Nat} (hmonth : 1 ≤ month) :
    daysBeforeMonth year (month + 1) = daysBeforeMonth year month + daysInMonth year month := by
  have hsum : ∀ (days : List Nat) (n : Nat),
      days.foldr (fun m total => daysInMonth year (m + 1) + total) n =
        days.foldr (fun m total => daysInMonth year (m + 1) + total) 0 + n := by
    intro days n
    induction days with
    | nil => simp
    | cons m days ih => rw [List.foldr_cons, List.foldr_cons, ih, Nat.add_assoc]
  obtain ⟨k, rfl⟩ : ∃ k, month = k + 1 := ⟨month - 1, by omega⟩
  simp only [daysBeforeMonth, Nat.add_sub_cancel, List.range_succ, List.foldr_append,
    List.foldr_cons, List.foldr_nil]
  exact hsum _ _

theorem daysBeforeMonth_mono (year : Nat) {month month' : Nat} (hmonth : 1 ≤ month)
    (hle : month ≤ month') : daysBeforeMonth year month ≤ daysBeforeMonth year month' := by
  induction hle with
  | refl => exact le_rfl
  | @step next hnext ih =>
      rw [Nat.succ_eq_add_one, daysBeforeMonth_succ year (hmonth.trans hnext)]
      omega

theorem daysInMonth_le (year month : Nat) : daysInMonth year month ≤ 31 := by
  unfold daysInMonth
  split
  · split_ifs <;> omega
  all_goals omega

/-- The months of a year are as long as the year. -/
theorem daysBeforeMonth_thirteen (year : Nat) :
    daysBeforeMonth year 13 = if isLeap year then 366 else 365 := by
  cases hleap : isLeap year <;> simp [daysBeforeMonth, List.range_succ, daysInMonth, hleap]

/-! ## The order of dates -/

namespace Date

def Precedes (d e : Date) : Prop :=
  d.year < e.year ∨ d.year = e.year ∧ (d.month < e.month ∨ d.month = e.month ∧ d.day < e.day)

variable {d e : Date}

theorem dayNumber_lt_month (hd : d.IsValid) :
    d.dayNumber < daysBeforeYear d.year + daysBeforeMonth d.year (d.month + 1) := by
  obtain ⟨-, -, hmonth, -, hday, hlast⟩ := hd
  rw [dayNumber, daysBeforeMonth_succ _ hmonth]
  omega

theorem dayNumber_lt_year (hd : d.IsValid) : d.dayNumber < daysBeforeYear (d.year + 1) := by
  have hmonth := dayNumber_lt_month hd
  obtain ⟨hyear, -, -, htwelve, -, -⟩ := hd
  have hrest := daysBeforeMonth_mono d.year (Nat.le_add_left 1 d.month)
    (show d.month + 1 ≤ 13 by omega)
  rw [daysBeforeMonth_thirteen] at hrest
  rw [daysBeforeYear_succ hyear]
  omega

theorem dayNumber_lt_of_precedes (hd : d.IsValid) (hbefore : d.Precedes e) :
    d.dayNumber < e.dayNumber := by
  rcases hbefore with hyear | ⟨hyear, hmonth | ⟨hmonth, hday⟩⟩
  · have hlast := dayNumber_lt_year hd
    have hfirst := daysBeforeYear_mono (Nat.succ_le_of_lt hyear)
    rw [dayNumber.eq_def e]
    rw [Nat.succ_eq_add_one] at hfirst
    omega
  · have hlast := dayNumber_lt_month hd
    have hfirst := daysBeforeMonth_mono e.year (Nat.le_add_left 1 d.month)
      (Nat.succ_le_of_lt hmonth)
    rw [hyear] at hlast
    rw [dayNumber.eq_def e]
    omega
  · have hone : 1 ≤ d.day := hd.2.2.2.2.1
    rw [dayNumber, dayNumber, hyear, hmonth]
    omega

theorem precedes_or (d e : Date) : d.Precedes e ∨ d = e ∨ e.Precedes d := by
  obtain ⟨year, month, day⟩ := d
  obtain ⟨year', month', day'⟩ := e
  simp only [Precedes, Date.mk.injEq]
  omega

theorem dayNumber_inj (hd : d.IsValid) (he : e.IsValid) (hsame : d.dayNumber = e.dayNumber) :
    d = e := by
  rcases precedes_or d e with hbefore | heq | hafter
  · have hlt := dayNumber_lt_of_precedes hd hbefore
    omega
  · exact heq
  · have hlt := dayNumber_lt_of_precedes he hafter
    omega

theorem dayNumber_lt_calendarDays (hd : d.IsValid) : d.dayNumber < calendarDays := by
  have hlast := dayNumber_lt_year hd
  obtain ⟨-, hyear, -⟩ := hd
  have hend : daysBeforeYear 10000 = calendarDays := rfl
  have hmono := daysBeforeYear_mono (show d.year + 1 ≤ 10000 by omega)
  omega

/-! ## The date of a number -/

theorem yearOfDay_spec (n : Nat) :
    1 ≤ yearOfDay n ∧ daysBeforeYear (yearOfDay n) ≤ n ∧ n < daysBeforeYear (yearOfDay n + 1) := by
  simp only [yearOfDay]
  have hlow : n * 400 / 146097 * 146097 ≤ n * 400 := Nat.div_mul_le_self _ _
  have hhigh : n * 400 < (n * 400 / 146097 + 1) * 146097 := by omega
  generalize n * 400 / 146097 = guess at hlow hhigh ⊢
  have hbefore : guess = 0 ∨ daysBeforeYear guess ≤ n := by
    simp only [daysBeforeYear]
    omega
  have hbehind : n < daysBeforeYear (guess + 3) := by
    simp only [daysBeforeYear]
    omega
  split_ifs with htwo hone
  · exact ⟨Nat.le_add_left 1 (guess + 1), htwo, hbehind⟩
  · exact ⟨Nat.le_add_left 1 guess, hone, not_le.mp htwo⟩
  · rcases hbefore with rfl | hbefore
    · exact absurd (Nat.zero_le n) hone
    · refine ⟨?_, hbefore, not_le.mp hone⟩
      by_contra hnone
      obtain rfl : guess = 0 := by omega
      exact hone (Nat.zero_le n)

/-- A day that lies within the months from a given one on is found in its month. -/
theorem monthOfDay_spec (year : Nat) {month : Nat} (hmonth : 1 ≤ month) (left n : Nat)
    (hn : daysBeforeMonth year month + n < daysBeforeMonth year (month + left + 1)) :
    let (m, day) := monthOfDay year month left n
    month ≤ m ∧ m ≤ month + left ∧ 1 ≤ day ∧ day ≤ daysInMonth year m ∧
      daysBeforeMonth year m + (day - 1) = daysBeforeMonth year month + n := by
  induction left generalizing month n with
  | zero =>
      rw [Nat.add_zero, daysBeforeMonth_succ _ hmonth] at hn
      simp only [monthOfDay]
      omega
  | succ left ih =>
      unfold monthOfDay
      by_cases hwithin : n < daysInMonth year month
      · rw [if_pos hwithin]
        simp only
        omega
      · rw [if_neg hwithin]
        have hstep := daysBeforeMonth_succ year hmonth
        have hrest : daysBeforeMonth year (month + 1) + (n - daysInMonth year month) <
            daysBeforeMonth year (month + 1 + left + 1) := by
          rw [show month + 1 + left + 1 = month + (left + 1) + 1 by omega]
          omega
        have hfound := ih (Nat.le_add_left 1 month) (n - daysInMonth year month) hrest
        revert hfound
        generalize monthOfDay year (month + 1) left (n - daysInMonth year month) = found
        obtain ⟨m, day⟩ := found
        rintro ⟨hfirst, hlast, hone, hday, hsum⟩
        refine ⟨by omega, by omega, hone, hday, by omega⟩

theorem ofDayNumber_spec (n : Nat) :
    (ofDayNumber n).dayNumber = n ∧ (n < calendarDays → (ofDayNumber n).IsValid) := by
  obtain ⟨hyear, hfirst, hlast⟩ := yearOfDay_spec n
  rw [daysBeforeYear_succ hyear, ← daysBeforeMonth_thirteen] at hlast
  have hzero : daysBeforeMonth (yearOfDay n) 1 = 0 := rfl
  have hwithin : daysBeforeMonth (yearOfDay n) 1 + (n - daysBeforeYear (yearOfDay n)) <
      daysBeforeMonth (yearOfDay n) 13 := by
    omega
  have hfound := monthOfDay_spec (yearOfDay n) le_rfl 11 _ hwithin
  unfold ofDayNumber
  simp only
  revert hfound
  generalize monthOfDay (yearOfDay n) 1 11 (n - daysBeforeYear (yearOfDay n)) = found
  obtain ⟨m, day⟩ := found
  rintro ⟨hm, hm', hone, hday, hsum⟩
  constructor
  · simp only [dayNumber]
    omega
  · intro hn
    have hend : daysBeforeYear 10000 = calendarDays := rfl
    have hbound : yearOfDay n ≤ 9999 := by
      by_contra hlate
      have hmono := daysBeforeYear_mono (show 10000 ≤ yearOfDay n by omega)
      omega
    exact ⟨hyear, hbound, hm, by omega, hone, hday⟩

theorem dayNumber_ofDayNumber (n : Nat) : (ofDayNumber n).dayNumber = n :=
  (ofDayNumber_spec n).1

theorem isValid_ofDayNumber {n : Nat} (hn : n < calendarDays) : (ofDayNumber n).IsValid :=
  (ofDayNumber_spec n).2 hn

end Date

end DiskCatalog.Calendar
