import Mathlib.Algebra.Order.Group.Nat
import Mathlib.Tactic.Common

/-! The proleptic Gregorian calendar. Days count from the first of January of year one. -/
namespace Calendar

def leap (year : Nat) : Bool := year % 4 = 0 && (year % 100 ≠ 0 || year % 400 = 0)

def daysInMonth (year : Nat) : Nat → Nat
  | 2 => if leap year then 29 else 28
  | 4 | 6 | 9 | 11 => 30
  | 1 | 3 | 5 | 7 | 8 | 10 | 12 => 31
  | _ => 0

def daysBeforeYear (year : Nat) : Nat :=
  (year - 1) * 365 + (year - 1) / 4 - (year - 1) / 100 + (year - 1) / 400

def daysBeforeMonth (year : Nat) : Nat → Nat
  | 0 => 0
  | month + 1 => daysBeforeMonth year month + daysInMonth year month

def ordinal (year month day : Nat) : Nat := daysBeforeYear year + daysBeforeMonth year month + day

structure Valid (year month day : Nat) : Prop where
  positive : 1 ≤ year
  months : 1 ≤ month ∧ month ≤ 12
  days : 1 ≤ day ∧ day ≤ daysInMonth year month

variable {year month day : Nat}

theorem daysBeforeMonth_whole (year : Nat) : daysBeforeMonth year 13 = if leap year then 366
    else 365 := by
  simp only [daysBeforeMonth, daysInMonth]
  cases leap year <;> rfl

/-- A year ends where the next one begins. -/
theorem daysBeforeYear_succ (positive : 1 ≤ year) :
    daysBeforeYear (year + 1) = daysBeforeYear year + daysBeforeMonth year 13 := by
  obtain ⟨last, rfl⟩ := Nat.exists_eq_add_of_le' positive
  have hundreds : last / 100 ≤ last := Nat.div_le_self last 100
  have fewer : 100 ∣ last + 1 → 4 ∣ last + 1 := Nat.dvd_trans (by decide)
  have fewest : 400 ∣ last + 1 → 100 ∣ last + 1 := Nat.dvd_trans (by decide)
  simp only [daysBeforeMonth_whole, daysBeforeYear, Nat.add_sub_cancel, Nat.succ_div]
  simp only [leap, ← Nat.dvd_iff_mod_eq_zero, Bool.and_eq_true, Bool.or_eq_true,
    decide_eq_true_eq, ne_eq]
  generalize last / 4 = four, last / 100 = hundred, last / 400 = cycle at *
  by_cases quarter : 4 ∣ last + 1
  · by_cases century : 100 ∣ last + 1
    · by_cases whole : 400 ∣ last + 1
      · simp only [quarter, century, whole, if_true, not_true, or_true, and_true]
        omega
      · simp only [quarter, century, whole, if_true, not_true, or_false, and_false, if_false]
        omega
    · have whole := mt fewest century
      simp only [quarter, century, whole, if_true, not_false_iff, true_or, and_true, if_false]
      omega
  · have century := mt fewer quarter
    have whole := mt fewest century
    simp only [quarter, century, whole, false_and, if_false]
    omega

theorem daysBeforeYear_mono {other : Nat} (positive : 1 ≤ year) (less : year ≤ other) :
    daysBeforeYear year ≤ daysBeforeYear other := by
  induction less with
  | refl => exact le_rfl
  | step later ih =>
    rw [Nat.succ_eq_add_one, daysBeforeYear_succ (positive.trans later)]
    exact ih.trans (Nat.le_add_right _ _)

theorem daysBeforeMonth_mono {other : Nat} (less : month ≤ other) :
    daysBeforeMonth year month ≤ daysBeforeMonth year other := by
  induction less with
  | refl => exact le_rfl
  | step later ih => exact ih.trans (Nat.le_add_right _ _)

/-- A day comes before every later month. -/
theorem Valid.before_month (valid : Valid year month day) {other : Nat} (later : month < other) :
    daysBeforeMonth year month + day ≤ daysBeforeMonth year other := by
  have next : daysBeforeMonth year (month + 1) ≤ daysBeforeMonth year other :=
    daysBeforeMonth_mono later
  rw [daysBeforeMonth] at next
  have := valid.days.2
  omega

/-- A day comes before every later year. -/
theorem Valid.before_year (valid : Valid year month day) {other : Nat} (later : year < other) :
    ordinal year month day ≤ daysBeforeYear other := by
  have next : daysBeforeYear (year + 1) ≤ daysBeforeYear other :=
    daysBeforeYear_mono (Nat.le_add_left 1 year) later
  rw [daysBeforeYear_succ valid.positive] at next
  have inside := valid.before_month (show month < 13 from Nat.lt_succ_of_le valid.months.2)
  unfold ordinal
  omega

theorem Valid.lt_of {year' month' day' : Nat} (valid : Valid year month day)
    (other : Valid year' month' day')
    (before : year < year' ∨ year = year' ∧ (month < month' ∨ month = month' ∧ day < day')) :
    ordinal year month day < ordinal year' month' day' := by
  have positive := other.days.1
  obtain less | ⟨rfl, less | ⟨rfl, less⟩⟩ := before
  · have := valid.before_year less
    unfold ordinal at *
    omega
  · have := valid.before_month less
    unfold ordinal
    omega
  · unfold ordinal
    omega

/-- Days count in the order of their dates. -/
theorem Valid.ordinal_lt {year' month' day' : Nat} (valid : Valid year month day)
    (other : Valid year' month' day') :
    ordinal year month day < ordinal year' month' day' ↔
      year < year' ∨ year = year' ∧ (month < month' ∨ month = month' ∧ day < day') := by
  constructor
  · intro less
    by_contra late
    have : (year', month', day') = (year, month, day) ∨
        (year' < year ∨ year' = year ∧ (month' < month ∨ month' = month ∧ day' < day)) := by
      simp only [Prod.mk.injEq]
      omega
    obtain same | before := this
    · cases same
      exact absurd less (lt_irrefl _)
    · exact lt_asymm less (other.lt_of valid before)
  · exact valid.lt_of other

theorem Valid.ordinal_inj {year' month' day' : Nat} (valid : Valid year month day)
    (other : Valid year' month' day')
    (same : ordinal year month day = ordinal year' month' day') :
    year = year' ∧ month = month' ∧ day = day' := by
  have forward := mt (valid.ordinal_lt other).mpr same.not_lt
  have backward := mt (other.ordinal_lt valid).mpr same.symm.not_lt
  omega

end Calendar
