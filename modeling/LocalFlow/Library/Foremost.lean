import Mathlib.Algebra.BigOperators.Group.List.Basic
import Mathlib.Algebra.Order.Monoid.Defs
import Mathlib.Order.Lattice

/-! The greatest key of some pairs, with the sum of the values that stand beside it. -/
namespace Foremost
variable {κ μ α ε : Type} [LinearOrder κ] [AddCommMonoid μ]

/-- A greater key takes the place, an equal one is added. -/
def join (x y : κ × μ) : κ × μ :=
  if x.1 < y.1 then y
  else if y.1 = x.1 then (x.1, x.2 + y.2)
  else x

/-- What stands beside a key. -/
def valueAt (key : κ) (x : κ × μ) : μ := if x.1 = key then x.2 else 0

variable {x y : κ × μ} {key : κ}

theorem join_fst : (join x y).1 = max x.1 y.1 := by
  simp only [join]
  split
  · next less => simp [max_eq_right less.le]
  · next noLess =>
    have least := not_lt.mp noLess
    split <;> simp [max_eq_left least]

theorem valueAt_join (above : max x.1 y.1 ≤ key) :
    valueAt key (join x y) = valueAt key x + valueAt key y := by
  have first := (le_max_left x.1 y.1).trans above
  have second := (le_max_right x.1 y.1).trans above
  simp only [join, valueAt]
  split
  · next less => simp [(less.trans_le second).ne]
  · next noLess =>
    split
    · next same =>
      simp only [same]
      split <;> simp
    · next other =>
      have less : y.1 < x.1 := lt_of_le_of_ne (not_lt.mp noLess) other
      simp [(less.trans_le first).ne]

/-- A fold of what may fail is the fold of what was there, if nothing fails. -/
theorem foldlM_ok_iff {read : α → Except ε (κ × μ)} {x result : κ × μ} {items : List α} :
    (items.foldlM (fun x item => do
        let y ← read item
        pure (join x y)) x = .ok result) ↔
      ∃ pairs : List (κ × μ), items.map read = pairs.map .ok ∧ pairs.foldl join x = result := by
  induction items generalizing x with
  | nil => simp [pure, Except.pure]
  | cons item items ih =>
    rw [List.foldlM_cons]
    cases done : read item with
    | error error =>
      constructor
      · exact fun failed => nomatch failed
      · rintro ⟨pairs, each, -⟩
        cases pairs <;> simp [done] at each
    | ok y =>
      simp only [bind, Except.bind, pure, Except.pure, List.map_cons, done] at ih ⊢
      rw [ih]
      constructor
      · rintro ⟨pairs, each, folded⟩
        exact ⟨y :: pairs, by rw [each, List.map_cons], folded⟩
      · rintro ⟨pairs, each, folded⟩
        cases pairs with
        | nil => cases each
        | cons first pairs =>
          obtain ⟨⟨rfl⟩, rest⟩ := List.cons.inj each
          exact ⟨pairs, rest, folded⟩

/-- The key of a fold is that of a pair, or the first one. -/
theorem foldl_join_mem (x : κ × μ) (pairs : List (κ × μ)) :
    (pairs.foldl join x).1 = x.1 ∨ ∃ y ∈ pairs, y.1 = (pairs.foldl join x).1 := by
  induction pairs generalizing x with
  | nil => exact .inl rfl
  | cons y pairs ih =>
    rw [List.foldl_cons]
    obtain start | ⟨z, member, isKey⟩ := ih (join x y)
    · rw [start, join_fst]
      obtain first | second := max_choice x.1 y.1
      · exact .inl first
      · exact .inr ⟨y, List.mem_cons_self, second.symm⟩
    · exact .inr ⟨z, List.mem_cons_of_mem _ member, isKey⟩

theorem foldl_join_le (x : κ × μ) (pairs : List (κ × μ)) :
    x.1 ≤ (pairs.foldl join x).1 ∧ ∀ y ∈ pairs, y.1 ≤ (pairs.foldl join x).1 := by
  induction pairs generalizing x with
  | nil => simp
  | cons y pairs ih =>
    obtain ⟨start, each⟩ := ih (join x y)
    rw [join_fst] at start
    refine ⟨(le_max_left ..).trans start, ?_⟩
    simp only [List.mem_cons, List.foldl_cons]
    rintro z (rfl | member)
    · exact (le_max_right ..).trans start
    · exact each z member

/-- The value of a fold is the sum of all values of its key. -/
theorem foldl_join_sum (x : κ × μ) (pairs : List (κ × μ)) (above : (pairs.foldl join x).1 ≤ key) :
    valueAt key (pairs.foldl join x) = valueAt key x + (pairs.map (valueAt key)).sum := by
  induction pairs generalizing x with
  | nil => simp
  | cons y pairs ih =>
    have both := (foldl_join_le (join x y) pairs).1.trans above
    rw [join_fst] at both
    simp only [List.foldl_cons, List.map_cons, List.sum_cons]
    rw [ih _ above, valueAt_join both, add_assoc]

/-- The order of the pairs does not matter. -/
theorem foldl_join_perm {pairs others : List (κ × μ)} (same : pairs.Perm others) (x : κ × μ) :
    pairs.foldl join x = others.foldl join x := by
  have key : (pairs.foldl join x).1 = (others.foldl join x).1 := by
    have below : ∀ {pairs others : List (κ × μ)}, pairs.Perm others →
        (pairs.foldl join x).1 ≤ (others.foldl join x).1 := by
      intro pairs others same
      obtain ⟨start, each⟩ := foldl_join_le x others
      obtain first | ⟨y, member, isKey⟩ := foldl_join_mem x pairs
      · exact first ▸ start
      · exact isKey ▸ each y (same.mem_iff.mp member)
    exact le_antisymm (below same) (below same.symm)
  have value := foldl_join_sum x pairs key.le
  rw [(same.map _).sum_eq, ← foldl_join_sum x others le_rfl] at value
  simp only [valueAt, key, if_true] at value
  exact Prod.ext key value

end Foremost
