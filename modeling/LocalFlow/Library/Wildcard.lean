import Mathlib.Data.List.Infix
import Mathlib.Tactic.Common

/-! Patterns of literals and wildcards, and the texts that fit them. -/
namespace Wildcard

/-- `one` stands for any letter, `many` for any run of letters. -/
inductive Token (α : Type*) where
  | one
  | many
  | literal (letter : α)

variable {α β : Type*}

/-- `same` compares a literal with a letter of the text. -/
def fits (same : α → α → Bool) : List (Token α) → List α → Bool
  | [], text => text.isEmpty
  | .one :: _, [] => false
  | .one :: rest, _ :: text => fits same rest text
  | .literal _ :: _, [] => false
  | .literal letter :: rest, other :: text => same letter other && fits same rest text
  | .many :: rest, text => text.tails.any (fits same rest)

variable {same : α → α → Bool} {rest : List (Token α)} {text : List α}

theorem fits_many : fits same (.many :: rest) text = true ↔ ∃ back, back <:+ text ∧
    fits same rest back = true := by
  simp only [fits, List.any_eq_true, List.mem_tails]

theorem fits_end : fits same [.many] text = true := fits_many.mpr ⟨[], List.nil_suffix, rfl⟩

section Folded
variable [DecidableEq β] (fold : α → β) {letters : List α}

/-- Literals compared up to a folding of the letters. -/
def folded (a b : α) : Bool := decide (fold a = fold b)

theorem fits_literals :
    fits (folded fold) (letters.map .literal ++ rest) text = true ↔
      ∃ front back, text = front ++ back ∧ front.map fold = letters.map fold ∧
        fits (folded fold) rest back = true := by
  induction letters generalizing text with
  | nil =>
    constructor
    · intro fit
      exact ⟨[], text, rfl, rfl, fit⟩
    · rintro ⟨front, back, rfl, empty, fit⟩
      rw [List.map_nil, List.map_eq_nil_iff] at empty
      rw [empty]
      exact fit
  | cons letter letters ih =>
    cases text with
    | nil =>
      constructor
      · intro fit
        cases fit
      · rintro ⟨front, back, split, equal, _⟩
        obtain ⟨rfl, rfl⟩ := List.nil_eq_append_iff.mp split
        cases equal
    | cons other text =>
      rw [List.map_cons, List.cons_append, fits, Bool.and_eq_true, folded, decide_eq_true_eq, ih]
      constructor
      · rintro ⟨equal, front, back, rfl, fronts, fit⟩
        exact ⟨other :: front, back, rfl, by rw [List.map_cons, List.map_cons, equal, fronts], fit⟩
      · rintro ⟨front, back, split, fronts, fit⟩
        cases front with
        | nil => cases fronts
        | cons first front =>
          obtain ⟨rfl, rfl⟩ := List.cons.inj split
          rw [List.map_cons, List.map_cons] at fronts
          obtain ⟨equal, fronts⟩ := List.cons.inj fronts
          exact ⟨equal.symm, front, back, rfl, fronts, fit⟩

/-- Literals and then anything: a prefix up to folding. -/
theorem fits_start : fits (folded fold) (letters.map .literal ++ [.many]) text = true ↔
    letters.map fold <+: text.map fold := by
  rw [fits_literals]
  constructor
  · rintro ⟨front, back, rfl, equal, _⟩
    exact ⟨back.map fold, by rw [List.map_append, equal]⟩
  · rintro ⟨tail, split⟩
    obtain ⟨front, back, rfl, equal, _⟩ := List.map_eq_append_iff.mp split.symm
    exact ⟨front, back, rfl, equal, fits_end⟩

/-- Literals anywhere: an infix up to folding. -/
theorem fits_within : fits (folded fold) (.many :: (letters.map .literal ++ [.many])) text = true ↔
    letters.map fold <:+: text.map fold := by
  rw [fits_many]
  constructor
  · rintro ⟨back, tail, fit⟩
    exact (List.IsPrefix.isInfix ((fits_start fold).mp fit)).trans (tail.map fold).isInfix
  · rintro ⟨front, back, split⟩
    obtain ⟨before, after, rfl, _, equal⟩ :=
      List.map_eq_append_iff.mp (List.append_assoc _ _ _ ▸ split.symm)
    exact ⟨after, List.suffix_append _ _, (fits_start fold).mpr ⟨back, equal.symm⟩⟩

end Folded
end Wildcard
