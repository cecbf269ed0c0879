import LocalFlow.Library.Run

/-! Weak fairness over infinite runs: whatever can go on from some instant on is taken up. What it
leads to, and what holds from some instant on. -/
namespace Transition.Execution
variable {S L W I : Type*} {step : S → L → S → Prop}

/-- The execution from an instant on. -/
def drop (e : Execution step) (n : Nat) : Execution step where
  state m := e.state (n + m)
  label m := e.label (n + m)
  next m := e.next (n + m)

/-- The execution after one step. -/
def cons (s : S) (l : L) (e : Execution step) (first : step s l (e.state 0)) : Execution step where
  state
    | 0 => s
    | n + 1 => e.state n
  label
    | 0 => l
    | n + 1 => e.label n
  next
    | 0 => first
    | n + 1 => e.next n

/-- An execution that begins with a run. -/
theorem exists_of_run {s t : S} {ls : List L} (run : Run step s ls t) (e : Execution step)
    (begins : e.state 0 = t) :
    ∃ whole : Execution step, whole.state 0 = s ∧
      ∀ n, whole.state (ls.length + n) = e.state n ∧ whole.label (ls.length + n) = e.label n := by
  induction run with
  | nil => exact ⟨e, begins, fun n => by simp⟩
  | cons first rest ih =>
    rename_i s l t ls u
    obtain ⟨whole, starts, follows⟩ := ih begins
    refine ⟨whole.cons s l (starts ▸ first), rfl, fun n => ?_⟩
    rw [List.length_cons, Nat.add_right_comm]
    exact follows n

/-- From some instant on the condition holds. -/
def Settles (e : Execution step) (P : S → Prop) : Prop := ∃ n, ∀ m, n ≤ m → P (e.state m)

/-- A label of a party that can go on at every instant from some instant on is taken. -/
def Fair (e : Execution step) (mine : L → Prop) (can : S → Prop) : Prop :=
  ∀ n, (∀ m, n ≤ m → can (e.state m)) → ∃ m, n ≤ m ∧ mine (e.label m)

variable {e : Execution step} {P Q : S → Prop} {mine : L → Prop} {can : S → Prop}

theorem Settles.mono (settles : e.Settles P) (weaker : ∀ {s}, P s → Q s) : e.Settles Q := by
  obtain ⟨n, holds⟩ := settles
  exact ⟨n, fun m later => weaker (holds m later)⟩

theorem Settles.and (first : e.Settles P) (second : e.Settles Q) : e.Settles (fun s => P s ∧ Q s) := by
  obtain ⟨n, early⟩ := first
  obtain ⟨m, late⟩ := second
  exact ⟨max n m, fun k later =>
    ⟨early k ((le_max_left n m).trans later), late k ((le_max_right n m).trans later)⟩⟩

/-- What settles for each of finitely many settles for all of them together. -/
theorem settles_all {P : I → S → Prop} (all : List I) (each : ∀ i ∈ all, e.Settles (P i)) :
    e.Settles (fun s => ∀ i ∈ all, P i s) := by
  induction all with
  | nil => exact ⟨0, fun _ _ _ member => absurd member List.not_mem_nil⟩
  | cons head rest ih =>
    rw [List.forall_mem_cons] at each
    exact (each.1.and (ih each.2)).mono (fun both => List.forall_mem_cons.mpr both)

/-- What holds at one instant and is kept settles. -/
theorem settles_of_stable (e : Execution step) (keep : ∀ n, P (e.state n) → P (e.state (n + 1)))
    (reached : P (e.state n)) : e.Settles P :=
  ⟨n, fun _ later => e.stable keep reached later⟩

theorem Fair.drop (fair : e.Fair mine can) (n : Nat) : (e.drop n).Fair mine can := by
  intro k enabled
  obtain ⟨m, later, taken⟩ := fair (n + k) (fun m later => by
    have reached : can (e.state (n + (m - n))) := enabled (m - n) (by omega)
    rwa [show n + (m - n) = m by omega] at reached)
  refine ⟨m - n, by omega, ?_⟩
  change mine (e.label (n + (m - n)))
  rwa [show n + (m - n) = m by omega]

/-- A party that lowers a rank whenever it goes on, that the others do not set back, and that is able to
go on from some instant on as long as it has not, reaches its goal. -/
theorem Fair.reaches [LinearOrder W] [WellFoundedLT W] (fair : e.Fair mine can)
    (live goal : S → Prop) (rank : S → W)
    (keep : ∀ n, live (e.state n) → goal (e.state (n + 1)) ∨ live (e.state (n + 1)) ∧
      rank (e.state (n + 1)) ≤ rank (e.state n) ∧
      (mine (e.label n) → rank (e.state (n + 1)) < rank (e.state n)))
    (ready : ∀ n, live (e.state n) → (∀ m, n ≤ m → ¬ mine (e.label m)) → ∃ k, ∀ m, k ≤ m →
      can (e.state m))
    (start : live (e.state 0)) : ∃ m, goal (e.state m) := by
  suffices reached : ∃ m, 0 ≤ m ∧ goal (e.state m) from reached.imp (fun _ => And.right)
  refine @eventually_of_rank S L W step 0 _ _ e live goal mine rank (fun n alive => ?_)
    (fun n alive => ?_)
    (fun n alive taken => ?_) start
  · by_contra stuck
    have idle : ∀ m, n ≤ m → ¬ mine (e.label m) := fun m later taken => stuck ⟨m, later, .inr taken⟩
    obtain ⟨k, enabled⟩ := ready n alive idle
    obtain ⟨m, later, taken⟩ :=
      fair (max n k) (fun m later => enabled m ((le_max_right n k).trans later))
    exact idle m ((le_max_left n k).trans later) taken
  · exact (keep n alive).imp_right (fun ⟨still, bound, _⟩ => ⟨still, bound⟩)
  · exact (keep n alive).imp_right (fun ⟨still, _, lowered⟩ => ⟨still, lowered taken⟩)

end Transition.Execution
