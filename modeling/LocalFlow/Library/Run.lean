import Mathlib.Order.WellFounded
import Mathlib.Order.RelClasses

/-! Finite and infinite runs of a labelled transition relation. Invariants, guarded runs and
ranking arguments are stated once here for an arbitrary machine. -/
namespace Transition
variable {S L W : Type*}

inductive Run (step : S → L → S → Prop) : S → List L → S → Prop where
  | nil (s) : Run step s [] s
  | cons : step s l t → Run step t ls u → Run step s (l :: ls) u

/-- Steps of a machine whose source state and label meet a condition. -/
def Guarded (step : S → L → S → Prop) (guard : S → L → Prop) : S → L → S → Prop :=
  fun s l t => step s l t ∧ guard s l

namespace Run
variable {step step' : S → L → S → Prop}

theorem append (first : Run step s ls t) (second : Run step t ms u) : Run step s (ls ++ ms) u := by
  induction first with
  | nil => exact second
  | cons head tail ih => exact .cons head (ih second)

/-- A run passes through a state between any two parts of its labels. -/
theorem split (run : Run step s (ls ++ ms) u) : ∃ t, Run step s ls t ∧ Run step t ms u := by
  induction ls generalizing s with
  | nil => exact ⟨s, .nil s, run⟩
  | cons l ls ih =>
    cases run with
    | cons head tail =>
      obtain ⟨t, first, second⟩ := ih tail
      exact ⟨t, .cons head first, second⟩

theorem single (h : step s l t) : Run step s [l] t := .cons h (.nil t)

theorem snoc (run : Run step s ls t) (h : step t l u) : Run step s (ls ++ [l]) u :=
  run.append (single h)

theorem mono (weaker : ∀ {s l t}, step s l t → step' s l t) (run : Run step s ls t) :
    Run step' s ls t := by
  induction run with
  | nil => exact .nil _
  | cons head tail ih => exact .cons (weaker head) ih

theorem map {M : Type*} {step' : S → M → S → Prop} (f : L → M)
    (next : ∀ {s l t}, step s l t → step' s (f l) t)
    (run : Run step s ls t) : Run step' s (ls.map f) t := by
  induction run with
  | nil => exact .nil _
  | cons head tail ih => exact .cons (next head) ih

theorem unguarded {guard : S → L → Prop} (run : Run (Guarded step guard) s ls t) :
    Run step s ls t :=
  run.mono And.left

theorem guarded {guard : S → L → Prop} (run : Run step s ls t) (each : ∀ l ∈ ls, ∀ s, guard s l) :
    Run (Guarded step guard) s ls t := by
  induction run with
  | nil => exact .nil _
  | cons head tail ih =>
    rw [List.forall_mem_cons] at each
    exact .cons ⟨head, each.1 _⟩ (ih each.2)

theorem invariant {P : S → Prop} (preserves : ∀ {s l t}, P s → step s l t → P t)
    (run : Run step s ls t) (initial : P s) : P t := by
  induction run with
  | nil => exact initial
  | cons head tail ih => exact ih (preserves initial head)

/-- A reflexive and transitive relation kept by every step is kept by every run. -/
theorem relates {R : S → S → Prop} (refl : ∀ s, R s s) (trans : ∀ {a b c}, R a b → R b c → R a c)
    (next : ∀ {s l t}, step s l t → R s t) (run : Run step s ls t) : R s t := by
  induction run with
  | nil => exact refl _
  | cons head tail ih => exact trans (next head) ih

/-- While `live` lasts no step raises the rank and the counted ones lower it. -/
theorem reaches_of_rank {live goal : S → Prop} (rank : S → Nat) (mine : L → Bool)
    (keep : ∀ {s l t}, live s → step s l t → goal t ∨ live t ∧
      rank t + (if mine l then 1 else 0) ≤ rank s)
    (stays : ∀ {s l t}, goal s → step s l t → goal t) (run : Run step s ls t) (start : live s) :
    goal t ∨ live t ∧ rank t + ls.countP mine ≤ rank s := by
  induction run with
  | nil => exact .inr ⟨start, le_rfl⟩
  | @cons s l middle ls u head tail ih =>
    obtain reached | ⟨alive, lowered⟩ := keep start head
    · exact .inl (tail.invariant stays reached)
    · refine (ih alive).imp_right (fun ⟨last, bound⟩ => ⟨last, ?_⟩)
      rw [List.countP_cons]
      omega

end Run

/-- The labels of a list are taken one after the other, each of them checked before it is taken. -/
def replay (next : S → L → Option S) (check : S → L → Bool) : S → List L → Option S
  | s, [] => some s
  | s, l :: ls => if check s l then (next s l).bind (fun t => replay next check t ls) else none

theorem replay_run {next : S → L → Option S} {check : S → L → Bool} {guard : S → L → Prop}
    (sound : ∀ s l, check s l = true → guard s l) (replayed : replay next check s ls = some t) :
    Run (Guarded (fun s l t => next s l = some t) guard) s ls t := by
  induction ls generalizing s with
  | nil =>
    cases replayed
    exact .nil _
  | cons l ls ih =>
    rw [replay] at replayed
    split at replayed
    · rename_i passed
      obtain ⟨middle, first, later⟩ := Option.bind_eq_some_iff.mp replayed
      exact .cons ⟨first, sound s l passed⟩ (ih later)
    · cases replayed

/-- An infinite run: a state and a label for each instant. -/
structure Execution (step : S → L → S → Prop) where
  state : Nat → S
  label : Nat → L
  next : ∀ n, step (state n) (label n) (state (n + 1))

namespace Execution
variable {step : S → L → S → Prop}

/-- The first instants are a run. -/
theorem run (e : Execution step) (n : Nat) :
    Run step (e.state 0) ((List.range n).map e.label) (e.state n) := by
  induction n with
  | zero => exact .nil _
  | succ n ih =>
    rw [List.range_succ, List.map_append]
    exact ih.snoc (e.next n)

theorem stable (e : Execution step) {P : S → Prop}
    (preserves : ∀ n, P (e.state n) → P (e.state (n + 1)))
    (start : P (e.state n)) (later : n ≤ m) : P (e.state m) := by
  induction m, later using Nat.le_induction with
  | base => exact start
  | succ m _ ih => exact preserves m ih

/-- A label that is taken again and again while `live` lasts, lowers a well-founded rank when it
is taken and is never undone by the other labels, leads to the goal. -/
theorem eventually_of_rank [LinearOrder W] [WellFoundedLT W] (e : Execution step)
    {live goal : S → Prop} {mine : L → Prop} (rank : S → W)
    (fair : ∀ n, live (e.state n) → ∃ m, n ≤ m ∧ (goal (e.state m) ∨ mine (e.label m)))
    (keep : ∀ n, live (e.state n) → goal (e.state (n + 1)) ∨
      live (e.state (n + 1)) ∧ rank (e.state (n + 1)) ≤ rank (e.state n))
    (lower : ∀ n, live (e.state n) → mine (e.label n) → goal (e.state (n + 1)) ∨
      live (e.state (n + 1)) ∧ rank (e.state (n + 1)) < rank (e.state n))
    (start : live (e.state n)) : ∃ m, n ≤ m ∧ goal (e.state m) := by
  induction hw : rank (e.state n) using WellFoundedLT.induction generalizing n with
  | ind w ih =>
    subst hw
    -- until the label is taken the rank does not grow
    have stay : ∀ m, n ≤ m → (∃ k, n ≤ k ∧ goal (e.state k)) ∨
        live (e.state m) ∧ rank (e.state m) ≤ rank (e.state n) := by
      intro m later
      induction m, later using Nat.le_induction with
      | base => exact .inr ⟨start, le_rfl⟩
      | succ m later held =>
        obtain reached | ⟨alive, bound⟩ := held
        · exact .inl reached
        · obtain reached | ⟨alive, lowered⟩ := keep m alive
          · exact .inl ⟨m + 1, by omega, reached⟩
          · exact .inr ⟨alive, lowered.trans bound⟩
    obtain ⟨m, later, reached | taken⟩ := fair n start
    · exact ⟨m, later, reached⟩
    obtain reached | ⟨alive, bound⟩ := stay m later
    · exact reached
    obtain reached | ⟨alive, lowered⟩ := lower m alive taken
    · exact ⟨m + 1, by omega, reached⟩
    obtain ⟨k, after, reached⟩ := ih _ (lowered.trans_le bound) alive rfl
    exact ⟨k, by omega, reached⟩

end Execution
end Transition
