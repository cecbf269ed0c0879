import Mathlib.Order.Basic
import Mathlib.Tactic.Common

/-! Bisection for the greatest number that fits, where everything below a number that fits does too. -/
namespace Bisecting

/-- The middle of a range that is not empty, above its lower end. -/
def middle (low high : Nat) : Nat := (low + high + 1) / 2

theorem middle_bounds {low high : Nat} (below : low < high) :
    low < middle low high ∧ middle low high ≤ high := by
  unfold middle
  omega

/-- `low` fits, and the numbers above `high` do not fit or are not wanted. -/
def greatest (fits : Nat → Bool) (low high : Nat) : Nat :=
  if low < high then
    if fits (middle low high) then greatest fits (middle low high) high
    else greatest fits low (middle low high - 1)
  else low
termination_by high - low
decreasing_by
  · have bounds := middle_bounds ‹low < high›
    omega
  · have bounds := middle_bounds ‹low < high›
    omega

/-- Where a number does not fit, no greater one does. -/
def Downward (fits : Nat → Bool) : Prop := ∀ m n, m ≤ n → fits n = true → fits m = true

variable {fits : Nat → Bool} {low high n : Nat}

theorem greatest_bounds (ordered : low ≤ high) :
    low ≤ greatest fits low high ∧ greatest fits low high ≤ high := by
  induction low, high using greatest.induct fits with
  | case1 low high below fit ih =>
    rw [greatest, if_pos below, if_pos fit]
    have inside := middle_bounds below
    have bounds := ih inside.2
    exact ⟨by omega, bounds.2⟩
  | case2 low high below misfit ih =>
    rw [greatest, if_pos below, if_neg misfit]
    have inside := middle_bounds below
    have bounds := ih (by omega)
    exact ⟨bounds.1, by omega⟩
  | case3 low high stop =>
    rw [greatest, if_neg stop]
    exact ⟨Nat.le_refl low, ordered⟩

theorem greatest_fits (first : fits low = true) : fits (greatest fits low high) = true := by
  induction low, high using greatest.induct fits with
  | case1 low high below fit ih =>
    rw [greatest, if_pos below, if_pos fit]
    exact ih fit
  | case2 low high below misfit ih =>
    rw [greatest, if_pos below, if_neg misfit]
    exact ih first
  | case3 low high stop =>
    rw [greatest, if_neg stop]
    exact first

theorem le_greatest (down : Downward fits) (fit : fits n = true) (within : n ≤ high)
    (ordered : low ≤ high) :
    n ≤ greatest fits low high := by
  induction low, high using greatest.induct fits with
  | case1 low high below fit' ih =>
    rw [greatest, if_pos below, if_pos fit']
    exact ih within (middle_bounds below).2
  | case2 low high below misfit ih =>
    rw [greatest, if_pos below, if_neg misfit]
    -- A number that fits is below the middle, which does not.
    have less : n < middle low high := by
      by_contra more
      exact misfit (down _ n (by omega) fit)
    have inside := middle_bounds below
    exact ih (by omega) (by omega)
  | case3 low high stop =>
    rw [greatest, if_neg stop]
    omega

end Bisecting
