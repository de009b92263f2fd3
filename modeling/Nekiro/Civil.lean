import Mathlib.Tactic.SplitIfs
import Mathlib.Data.Int.DivMod

/-!
# The proleptic Gregorian calendar

Day numbers and civil dates, independent of any program. Day `0` is
0001-01-01; years are numbered astronomically, so year `0` exists and
negative years are ordinary years.

`toDays` and `ofDays` are the two directions. The one law the clock and
timestamp modules need is `toDays_ofDays`: converting a day number to a
civil date and back loses nothing, whatever the sign of the number.
`ofDays_valid` adds that the date produced is a real one.
-/

namespace Nekiro

namespace Civil

/-! ## Dates -/

structure Date where
  year : Int
  month : Nat
  day : Nat
deriving Repr, DecidableEq

def isLeap (y : Int) : Bool :=
  y % 4 == 0 && (y % 100 != 0 || y % 400 == 0)

/-- Days from 0001-01-01 to the first of January of year `y`. -/
def daysBeforeYear (y : Int) : Int :=
  365 * (y - 1) + (y - 1) / 4 - (y - 1) / 100 + (y - 1) / 400

def leapDay (leap : Bool) : Nat := if leap then 1 else 0

/-- Days of the year before the first of month `m`. -/
def daysBeforeMonth (leap : Bool) (m : Nat) : Nat :=
  match m with
  | 1 => 0
  | 2 => 31
  | 3 => 59 + leapDay leap
  | 4 => 90 + leapDay leap
  | 5 => 120 + leapDay leap
  | 6 => 151 + leapDay leap
  | 7 => 181 + leapDay leap
  | 8 => 212 + leapDay leap
  | 9 => 243 + leapDay leap
  | 10 => 273 + leapDay leap
  | 11 => 304 + leapDay leap
  | 12 => 334 + leapDay leap
  | _ => 365 + leapDay leap

def daysIn (leap : Bool) (m : Nat) : Nat :=
  daysBeforeMonth leap (m + 1) - daysBeforeMonth leap m

theorem daysIn_le (leap : Bool) {m : Nat} (hm : m ≤ 12) : daysIn leap m ≤ 31 := by
  revert m leap
  decide

/-- The dates a calendar shows. -/
def Date.valid (d : Date) : Bool :=
  decide (1 ≤ d.month ∧ d.month ≤ 12 ∧ 1 ≤ d.day ∧ d.day ≤ daysIn (isLeap d.year) d.month)

def toDays (d : Date) : Int :=
  daysBeforeYear d.year + daysBeforeMonth (isLeap d.year) d.month + d.day - 1

/-! ## From day numbers back to dates

The year is peeled off in 400, 100, 4 and 1 year cycles; the last
century of a cycle and the last year of a quadrennium are one day
longer, hence the two `min`s. -/

/-- The year holding day `n`, and the day's zero-based number in it. -/
def yearOf (n : Int) : Int × Int :=
  let n400 := n / 146097
  let r400 := n % 146097
  let n100 := min (r400 / 36524) 3
  let r100 := r400 - 36524 * n100
  let n4 := r100 / 1461
  let r4 := r100 % 1461
  let n1 := min (r4 / 365) 3
  (400 * n400 + 100 * n100 + 4 * n4 + n1 + 1, r4 - 365 * n1)

/-- Search upwards from month `m` for the month holding the year's day
`n`; `fuel` counts the months left before December. -/
def monthFrom (leap : Bool) (n : Nat) : Nat → Nat → Nat
  | 0, m => m
  | fuel + 1, m =>
      if n < daysBeforeMonth leap (m + 1) then m else monthFrom leap n fuel (m + 1)

/-- The month of the year's day `n`. -/
def monthOf (leap : Bool) (n : Nat) : Nat := monthFrom leap n 11 1

def ofDays (n : Int) : Date :=
  let y := (yearOf n).1
  let yday := (yearOf n).2.toNat
  let m := monthOf (isLeap y) yday
  ⟨y, m, yday - daysBeforeMonth (isLeap y) m + 1⟩

/-! ## The round trip -/

/-- The cycle decomposition as plain numbers: `n` is the sum of its
cycles and every count is in range. -/
theorem yearOf_cycles (n : Int) :
    ∃ a b c d r : Int, yearOf n = (400 * a + 100 * b + 4 * c + d + 1, r)
      ∧ n = 146097 * a + 36524 * b + 1461 * c + 365 * d + r
      ∧ 0 ≤ b ∧ b ≤ 3 ∧ 0 ≤ c ∧ c ≤ 24 ∧ 0 ≤ d ∧ d ≤ 3
      ∧ 0 ≤ r ∧ r ≤ 365 ∧ (r = 365 → d = 3 ∧ (c = 24 → b = 3)) := by
  refine ⟨n / 146097, min (n % 146097 / 36524) 3,
    (n % 146097 - 36524 * min (n % 146097 / 36524) 3) / 1461,
    min ((n % 146097 - 36524 * min (n % 146097 / 36524) 3) % 1461 / 365) 3, _, rfl, ?_⟩
  omega

theorem daysBeforeYear_cycles {a b c d : Int} (hb : 0 ≤ b) (hb' : b ≤ 3)
    (hc : 0 ≤ c) (hc' : c ≤ 24) (hd : 0 ≤ d) (hd' : d ≤ 3) :
    daysBeforeYear (400 * a + 100 * b + 4 * c + d + 1)
      = 146097 * a + 36524 * b + 1461 * c + 365 * d := by
  unfold daysBeforeYear
  omega

theorem isLeap_cycles {a b c d : Int} (hc : 0 ≤ c) (hc' : c ≤ 24) (hd : d = 3)
    (hcb : c = 24 → b = 3) :
    isLeap (400 * a + 100 * b + 4 * c + d + 1) = true := by
  unfold isLeap
  simp only [Bool.and_eq_true, Bool.or_eq_true, beq_iff_eq, bne_iff_ne, ne_eq]
  omega

/-- Day `n` lies in the year `yearOf` names, at the offset it gives. -/
theorem yearOf_spec (n : Int) :
    n = daysBeforeYear (yearOf n).1 + (yearOf n).2 ∧ 0 ≤ (yearOf n).2
      ∧ (yearOf n).2 < 365 + leapDay (isLeap (yearOf n).1) := by
  obtain ⟨a, b, c, d, r, hy, hn, hb, hb', hc, hc', hd, hd', hr, hr', hlast⟩ := yearOf_cycles n
  rw [hy]
  refine ⟨?_, hr, ?_⟩
  · rw [daysBeforeYear_cycles hb hb' hc hc' hd hd']
    omega
  · by_cases h365 : r = 365
    · obtain ⟨hd3, hcb⟩ := hlast h365
      rw [isLeap_cycles hc hc' hd3 hcb]
      simp only [leapDay, if_true]
      omega
    · simp only
      omega

/-- The search never leaves the year, and the month it stops at starts
at or before day `n` and ends after it. -/
theorem monthFrom_spec (leap : Bool) {n : Nat} (hn : n < daysBeforeMonth leap 13) :
    ∀ (fuel m : Nat), m + fuel = 12 → daysBeforeMonth leap m ≤ n →
      m ≤ monthFrom leap n fuel m ∧ monthFrom leap n fuel m ≤ 12
        ∧ daysBeforeMonth leap (monthFrom leap n fuel m) ≤ n
        ∧ n < daysBeforeMonth leap (monthFrom leap n fuel m + 1)
  | 0, m, hm, hle => by
      obtain rfl : m = 12 := by omega
      exact ⟨Nat.le_refl _, Nat.le_refl _, hle, hn⟩
  | fuel + 1, m, hm, hle => by
      unfold monthFrom
      split_ifs with hlt
      · exact ⟨Nat.le_refl _, by omega, hle, hlt⟩
      · obtain ⟨h1, h2, h3⟩ := monthFrom_spec leap hn fuel (m + 1) (by omega) (by omega)
        exact ⟨by omega, h2, h3⟩

theorem monthOf_spec (leap : Bool) {n : Nat} (hn : n < 365 + leapDay leap) :
    1 ≤ monthOf leap n ∧ monthOf leap n ≤ 12
      ∧ daysBeforeMonth leap (monthOf leap n) ≤ n
      ∧ n < daysBeforeMonth leap (monthOf leap n + 1) :=
  monthFrom_spec leap hn 11 1 rfl (Nat.zero_le n)

theorem toDays_ofDays (n : Int) : toDays (ofDays n) = n := by
  obtain ⟨hsum, hnonneg, hlt⟩ := yearOf_spec n
  have hm := monthOf_spec (isLeap (yearOf n).1) (n := (yearOf n).2.toNat) (by omega)
  simp only [toDays, ofDays]
  omega

theorem ofDays_valid (n : Int) : (ofDays n).valid = true := by
  obtain ⟨-, hnonneg, hlt⟩ := yearOf_spec n
  have hm := monthOf_spec (isLeap (yearOf n).1) (n := (yearOf n).2.toNat) (by omega)
  unfold Date.valid
  rw [decide_eq_true_iff]
  simp only [ofDays, daysIn]
  omega

/-! ## Years and day numbers -/

theorem daysBeforeYear_succ (y : Int) :
    daysBeforeYear (y + 1) = daysBeforeYear y + 365 + leapDay (isLeap y) := by
  have hleap : isLeap y = true ↔ y % 4 = 0 ∧ (y % 100 ≠ 0 ∨ y % 400 = 0) := by
    simp [isLeap]
  unfold daysBeforeYear leapDay
  by_cases h : isLeap y = true
  · rw [if_pos h]
    rw [hleap] at h
    omega
  · rw [if_neg h]
    rw [hleap] at h
    omega

theorem daysBeforeYear_mono {y z : Int} (h : y ≤ z) : daysBeforeYear y ≤ daysBeforeYear z := by
  unfold daysBeforeYear
  omega

/-- A valid date lies inside its year. -/
theorem toDays_bounds {d : Date} (h : d.valid = true) :
    daysBeforeYear d.year ≤ toDays d ∧ toDays d < daysBeforeYear (d.year + 1) := by
  unfold Date.valid at h
  rw [decide_eq_true_iff] at h
  have hend : ∀ leap, ∀ m ≤ 12, daysBeforeMonth leap m + daysIn leap m ≤ 365 + leapDay leap := by
    decide
  have := hend (isLeap d.year) d.month h.2.1
  rw [daysBeforeYear_succ]
  unfold toDays
  omega

/-- The year of a day number is in a range when the number is. -/
theorem ofDays_year_bounds {n lo hi : Int} (h1 : daysBeforeYear lo ≤ n)
    (h2 : n < daysBeforeYear (hi + 1)) : lo ≤ (ofDays n).year ∧ (ofDays n).year ≤ hi := by
  obtain ⟨hsum, hnonneg, hlt⟩ := yearOf_spec n
  have hsucc := daysBeforeYear_succ (yearOf n).1
  have hy : (ofDays n).year = (yearOf n).1 := rfl
  rw [hy]
  constructor
  · refine Int.not_lt.mp fun hlo => ?_
    have := daysBeforeYear_mono (y := (yearOf n).1 + 1) (z := lo) (by omega)
    omega
  · refine Int.not_lt.mp fun hhi => ?_
    have := daysBeforeYear_mono (y := hi + 1) (z := (yearOf n).1) (by omega)
    omega

/-- The days of the years from `lo` to `hi`. -/
theorem days_of_year {n lo hi : Int} (hlo : lo ≤ (ofDays n).year) (hhi : (ofDays n).year ≤ hi) :
    daysBeforeYear lo ≤ n ∧ n < daysBeforeYear (hi + 1) := by
  obtain ⟨hsum, hnonneg, hlt⟩ := yearOf_spec n
  have hsucc := daysBeforeYear_succ (yearOf n).1
  have hy : (ofDays n).year = (yearOf n).1 := rfl
  have h1 := daysBeforeYear_mono (y := lo) (z := (yearOf n).1) (by omega)
  have h2 := daysBeforeYear_mono (y := (yearOf n).1 + 1) (z := hi + 1) (by omega)
  omega

theorem ofDays_year_mono {n m : Int} (h : n ≤ m) : (ofDays n).year ≤ (ofDays m).year := by
  obtain ⟨hn, hn0, -⟩ := yearOf_spec n
  obtain ⟨hm, -, hm1⟩ := yearOf_spec m
  have hsucc := daysBeforeYear_succ (yearOf m).1
  have hyears : (ofDays n).year = (yearOf n).1 ∧ (ofDays m).year = (yearOf m).1 := ⟨rfl, rfl⟩
  refine Int.not_lt.mp fun hlt => ?_
  have := daysBeforeYear_mono (y := (yearOf m).1 + 1) (z := (yearOf n).1) (by omega)
  omega

example : ofDays (toDays ⟨2024, 2, 29⟩) = ⟨2024, 2, 29⟩ := by decide

end Civil

end Nekiro
