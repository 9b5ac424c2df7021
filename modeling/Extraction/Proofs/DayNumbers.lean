import Extraction.Calendar.Date
import Mathlib.Order.Monotone.Basic
import Mathlib.Tactic.SplitIfs

/-!
Day numbers. Years are counted from March here, so that a leap day is the last day of its year and a
month starts at a day that does not depend on the year. A date is the only one with its day number.
-/

namespace Extraction.Calendar

/-- The day number of 1 March of a year. -/
def marchFirst (y : Nat) : Nat :=
  y * 365 + y / 4 - y / 100 + y / 400

/-- The number of days between 1 March and the first day of a month; March is month 0. -/
def monthStart (m : Nat) : Nat :=
  (153 * m + 2) / 5

/-- The year, counted from March, that a month lies in. -/
def marchYear (year month : Nat) : Nat :=
  if month ≤ 2 then year - 1 else year

/-- The number of a month in its year, counted from March. -/
def marchMonth (month : Nat) : Nat :=
  if month ≤ 2 then month + 9 else month - 3

/-! ### Years -/

/-- Eras of 400 years are alike. -/
theorem marchFirst_era (e r : Nat) : marchFirst (e * 400 + r) = e * 146097 + marchFirst r := by
  have hfour : (e * 400 + r) / 4 = e * 100 + r / 4 := by omega
  have hhundred : (e * 400 + r) / 100 = e * 4 + r / 100 := by omega
  have hera : (e * 400 + r) / 400 = e + r / 400 := by omega
  have hle : r / 100 ≤ r := Nat.div_le_self r 100
  unfold marchFirst
  rw [hfour, hhundred, hera]
  omega

theorem marchFirst_succ (y : Nat) :
    marchFirst (y + 1) = marchFirst y + 365 + if isLeap (y + 1) then 1 else 0 := by
  have hfour : (y + 1) / 4 = y / 4 + if (y + 1) % 4 = 0 then 1 else 0 := by split_ifs <;> omega
  have hhundred : (y + 1) / 100 = y / 100 + if (y + 1) % 100 = 0 then 1 else 0 := by
    split_ifs <;> omega
  have hera : (y + 1) / 400 = y / 400 + if (y + 1) % 400 = 0 then 1 else 0 := by
    split_ifs <;> omega
  have hle : y / 100 ≤ y := Nat.div_le_self y 100
  have hhundred' : (y + 1) % 100 = 0 → (y + 1) % 4 = 0 := by omega
  have hera' : (y + 1) % 400 = 0 → (y + 1) % 100 = 0 := by omega
  unfold marchFirst isLeap
  rw [hfour, hhundred, hera]
  generalize y / 4 = a, y / 100 = b, y / 400 = c at hle ⊢
  simp only [Bool.and_eq_true, beq_iff_eq, Bool.or_eq_true, bne_iff_ne]
  generalize (y + 1) % 4 = p, (y + 1) % 100 = q, (y + 1) % 400 = r at hhundred' hera' ⊢
  split_ifs <;> omega

/-- The year in its era of 400 years that a day of the era lies in. -/
def yearOfEra (day : Nat) : Nat :=
  (day - day / 1460 + day / 36524 - day / 146096) / 365

theorem yearOfEra_mono {d d' : Nat} (h : d ≤ d') : yearOfEra d ≤ yearOfEra d' := by
  refine Nat.div_le_div_right ?_
  omega

theorem yearOfEra_bounds {d : Nat} (h : d < 146097) :
    yearOfEra d < 400 ∧ marchFirst (yearOfEra d) ≤ d ∧ d < marchFirst (yearOfEra d + 1) := by
  have htable : ∀ y < 400, yearOfEra (marchFirst y) = y ∧
      yearOfEra (marchFirst (y + 1) - 1) = y := by decide +kernel
  have hsmall : yearOfEra d < 400 := by
    have hlast : yearOfEra d ≤ yearOfEra 146096 := yearOfEra_mono (Nat.le_of_lt_succ h)
    exact hlast.trans_lt (by decide)
  refine ⟨hsmall, ?_, ?_⟩
  · by_contra hless
    cases hy : yearOfEra d with
    | zero => exact hless (hy ▸ Nat.zero_le d)
    | succ y =>
      rw [hy] at hless
      have hbefore := yearOfEra_mono (Nat.le_sub_one_of_lt (not_le.1 hless))
      rw [(htable y (by omega)).2] at hbefore
      omega
  · by_contra hmore
    have hafter := yearOfEra_mono (not_lt.1 hmore)
    by_cases hlast : yearOfEra d + 1 < 400
    · rw [(htable _ hlast).1] at hafter
      omega
    · have hend : yearOfEra d + 1 = 400 := by omega
      have hera : marchFirst 400 = 146097 := by decide
      rw [hend, hera] at hmore
      exact hmore h

theorem marchFirst_lt_succ (y : Nat) : marchFirst y < marchFirst (y + 1) := by
  rw [marchFirst_succ]
  omega

theorem marchFirst_strictMono : StrictMono marchFirst :=
  strictMono_nat_of_lt_succ marchFirst_lt_succ

/-- A day lies in one year only. -/
theorem marchFirst_unique {y y' n : Nat} (h : marchFirst y ≤ n) (h' : n < marchFirst (y + 1))
    (hy : marchFirst y' ≤ n) (hy' : n < marchFirst (y' + 1)) : y = y' := by
  have hless : y < y' + 1 := marchFirst_strictMono.lt_iff_lt.1 (h.trans_lt hy')
  have hmore : y' < y + 1 := marchFirst_strictMono.lt_iff_lt.1 (hy.trans_lt h')
  omega

/-! ### Months -/

theorem monthStart_le_iff {m d : Nat} : monthStart m ≤ d ↔ m ≤ (5 * d + 2) / 153 := by
  unfold monthStart
  omega

theorem marchMonth_month {m : Nat} (h : m < 12) :
    marchMonth (if m < 10 then m + 3 else m - 9) = m := by
  unfold marchMonth
  split_ifs <;> omega

theorem month_marchMonth {month : Nat} (h : 1 ≤ month ∧ month ≤ 12) :
    (if marchMonth month < 10 then marchMonth month + 3 else marchMonth month - 9) = month := by
  unfold marchMonth
  split_ifs <;> omega

/-- A month ends where the next one starts, and the last one of a year where the year ends. -/
theorem daysInMonth_eq {year month : Nat} (hyear : 1 ≤ year) (hmonth : 1 ≤ month ∧ month ≤ 12) :
    monthStart (marchMonth month) + daysInMonth year month =
      min (monthStart (marchMonth month + 1))
        (marchFirst (marchYear year month + 1) - marchFirst (marchYear year month)) := by
  have hmonths : ∀ leap leap' : Bool, ∀ month ≤ 12, 1 ≤ month → (month ≤ 2 → leap = leap') →
      monthStart (marchMonth month) + (if month = 2 then (if leap then 29 else 28)
        else if month = 4 || month = 6 || month = 9 || month = 11 then 30 else 31) =
      min (monthStart (marchMonth month + 1)) (365 + if leap' then 1 else 0) := by decide
  have hlength : marchFirst (marchYear year month + 1) - marchFirst (marchYear year month) =
      365 + if isLeap (marchYear year month + 1) then 1 else 0 := by
    rw [marchFirst_succ]
    omega
  rw [hlength]
  refine hmonths (isLeap year) _ month hmonth.2 hmonth.1 fun hearly => ?_
  rw [marchYear, if_pos hearly, Nat.sub_add_cancel hyear]

namespace Date

theorem dayNumberOf_eq {year month day : Nat} (h : 1 ≤ day) :
    dayNumberOf year month day =
      marchFirst (marchYear year month) + (monthStart (marchMonth month) + (day - 1)) := by
  have hera : ∀ y, marchFirst y =
      y / 400 * 146097 + (y % 400 * 365 + y % 400 / 4 - y % 400 / 100) := by
    intro y
    have hsmall : y % 400 / 400 = 0 := Nat.div_eq_of_lt (Nat.mod_lt _ (by decide))
    conv_lhs => rw [← Nat.div_add_mod' y 400]
    rw [marchFirst_era, marchFirst, hsmall, Nat.add_zero]
  rw [hera, Nat.add_assoc, ← Nat.add_sub_assoc h]
  rfl

/-- The year of a day number, counted from March. -/
def yearOf (n : Nat) : Nat :=
  n / 146097 * 400 + yearOfEra (n % 146097)

theorem yearOf_bounds (n : Nat) : marchFirst (yearOf n) ≤ n ∧ n < marchFirst (yearOf n + 1) := by
  obtain ⟨-, hlow, hhigh⟩ := yearOfEra_bounds (Nat.mod_lt n (by decide : 0 < 146097))
  have hdivmod : n / 146097 * 146097 + n % 146097 = n := Nat.div_add_mod' n 146097
  rw [yearOf, Nat.add_assoc, marchFirst_era, marchFirst_era]
  omega

/-- The day of a day number in its year, counted from March; 1 March is day 0. -/
def dayOfYear (n : Nat) : Nat :=
  n - marchFirst (yearOf n)

theorem dayOfYear_lt (n : Nat) : dayOfYear n < 366 := by
  have hbounds := yearOf_bounds n
  have hlength := marchFirst_succ (yearOf n)
  unfold dayOfYear
  split_ifs at hlength <;> omega

/-- The month of a day number, counted from March. -/
def monthOf (n : Nat) : Nat :=
  (5 * dayOfYear n + 2) / 153

theorem monthOf_lt (n : Nat) : monthOf n < 12 := by
  have hday := dayOfYear_lt n
  unfold monthOf
  omega

theorem ofYmd?_eq_some_iff {year month day : Nat} {d : Date} :
    ofYmd? year month day = some d ↔ d.year = year ∧ d.month = month ∧ d.day = day := by
  unfold ofYmd?
  constructor
  · intro h
    split at h
    · cases h
      exact ⟨rfl, rfl, rfl⟩
    · cases h
  · rintro ⟨rfl, rfl, rfl⟩
    exact dif_pos d.valid

theorem ofDayNumber?_eq (n : Nat) :
    ofDayNumber? n = ofYmd?
      (if (if monthOf n < 10 then monthOf n + 3 else monthOf n - 9) ≤ 2 then yearOf n + 1
        else yearOf n)
      (if monthOf n < 10 then monthOf n + 3 else monthOf n - 9)
      (dayOfYear n - monthStart (monthOf n) + 1) := by
  have hday : n % 146097 - (365 * yearOfEra (n % 146097) + yearOfEra (n % 146097) / 4 -
      yearOfEra (n % 146097) / 100) = dayOfYear n := by
    obtain ⟨hera, -⟩ := yearOfEra_bounds (Nat.mod_lt n (by decide : 0 < 146097))
    have hdivmod : n / 146097 * 146097 + n % 146097 = n := Nat.div_add_mod' n 146097
    rw [dayOfYear, yearOf, marchFirst_era, marchFirst, Nat.div_eq_of_lt hera]
    omega
  rw [monthOf, ← hday]
  rfl

/-- A date lies in its year, counted from March. -/
theorem dayNumber_bounds (d : Date) :
    marchFirst (marchYear d.year d.month) ≤ d.dayNumber ∧
      d.dayNumber < marchFirst (marchYear d.year d.month + 1) := by
  obtain ⟨hyear, hmonth, hday⟩ := d.valid
  have hlength := daysInMonth_eq hyear.1 hmonth
  have hstep := marchFirst_lt_succ (marchYear d.year d.month)
  rw [dayNumber, dayNumberOf_eq hday.1]
  omega

/-- The years end with 9999. -/
theorem dayNumber_lt (d : Date) : d.dayNumber < 3652425 := by
  have hyear : marchYear d.year d.month + 1 ≤ 10000 := by
    have hvalid := d.valid.1.2
    unfold marchYear
    split_ifs <;> omega
  have hlast : marchFirst 10000 = 3652425 := by decide
  exact (dayNumber_bounds d).2.trans_le (hlast ▸ marchFirst_strictMono.monotone hyear)

/-- A day number has a date exactly if it is the day number of that date. -/
theorem ofDayNumber?_eq_some_iff {n : Nat} {d : Date} :
    ofDayNumber? n = some d ↔ d.dayNumber = n := by
  obtain ⟨hyear, hmonth, hday⟩ := d.valid
  have hnumber : d.dayNumber = marchFirst (marchYear d.year d.month) +
      (monthStart (marchMonth d.month) + (d.day - 1)) := dayNumberOf_eq hday.1
  rw [ofDayNumber?_eq, ofYmd?_eq_some_iff]
  obtain ⟨hlow, hhigh⟩ := yearOf_bounds n
  constructor
  · rintro ⟨hy, hm, hd⟩
    have hmarch : marchYear d.year d.month = yearOf n := by
      unfold marchYear
      rw [hy, hm]
      split_ifs <;> omega
    have hstart : monthStart (monthOf n) ≤ dayOfYear n := monthStart_le_iff.2 le_rfl
    rw [hnumber, hmarch, hm, marchMonth_month (monthOf_lt n), hd]
    unfold dayOfYear at hstart ⊢
    omega
  · rintro rfl
    have hlength := daysInMonth_eq hyear.1 hmonth
    have hy : yearOf d.dayNumber = marchYear d.year d.month :=
      marchFirst_unique hlow hhigh (dayNumber_bounds d).1 (dayNumber_bounds d).2
    have hdays : dayOfYear d.dayNumber = monthStart (marchMonth d.month) + (d.day - 1) := by
      rw [dayOfYear, hy]
      omega
    have hm : monthOf d.dayNumber = marchMonth d.month := by
      have hfrom : marchMonth d.month ≤ monthOf d.dayNumber := monthStart_le_iff.1 (by omega)
      have hto : ¬marchMonth d.month + 1 ≤ monthOf d.dayNumber := fun h => by
        have hnext := monthStart_le_iff.2 h
        omega
      omega
    rw [hm, month_marchMonth hmonth, hy, hdays]
    refine ⟨?_, rfl, by omega⟩
    unfold marchYear
    split_ifs <;> omega

end Date

end Extraction.Calendar
