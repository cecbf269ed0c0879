import Mathlib.Init

/-! A sequence of calls one of which may raise. What the calls before it did stays done; the
calls after it do not happen. -/
namespace Faults
variable {S T : Type*}

/-- `faults` counts the calls that still succeed; `none` when all do. -/
structure Turn (S : Type*) where
  state : S
  faults : Option Nat := none
  raised : Bool := false

namespace Turn

/-- Work between two calls. -/
def set (turn : Turn S) (f : S → S) : Turn S :=
  if turn.raised then turn else { turn with state := f turn.state }

def raise (turn : Turn S) : Turn S := { turn with raised := true }

def call (turn : Turn S) (f : S → S) : Turn S :=
  if turn.raised then turn
  else match turn.faults with
    | some 0 => turn.raise
    | some (n + 1) => { turn with state := f turn.state, faults := some n }
    | none => { turn with state := f turn.state }

/-- Go on with another state. -/
def into (turn : Turn S) (f : S → T) : Turn T := { turn with state := f turn.state }

variable {turn : Turn S} {f : S → S}

@[simp] theorem set_raised : (turn.set f).raised = turn.raised := by
  unfold set
  split <;> simp_all

@[simp] theorem set_faults : (turn.set f).faults = turn.faults := by
  unfold set
  split <;> rfl

@[simp] theorem set_state (ready : turn.raised = false) : (turn.set f).state = f turn.state := by
  simp [set, ready]

@[simp] theorem raise_raised : turn.raise.raised = true := rfl

@[simp] theorem raise_state : turn.raise.state = turn.state := rfl

@[simp] theorem raise_faults : turn.raise.faults = turn.faults := rfl

@[simp] theorem into_raised (g : S → T) : (turn.into g).raised = turn.raised := rfl

@[simp] theorem into_state (g : S → T) : (turn.into g).state = g turn.state := rfl

theorem call_of_raised (raised : turn.raised = true) : turn.call f = turn := by
  simp [call, raised]

/-- A call raises and does nothing, or does its work. -/
theorem call_cases (ready : turn.raised = false) :
    (turn.call f).raised = true ∧ (turn.call f).state = turn.state ∨
    (turn.call f).raised = false ∧ (turn.call f).state = f turn.state := by
  unfold call
  simp only [ready]
  split
  · rename_i impossible
    exact absurd impossible (by simp)
  · split
    · exact .inl ⟨rfl, rfl⟩
    · exact .inr ⟨rfl, rfl⟩
    · exact .inr ⟨rfl, rfl⟩

/-- A call that did not raise came after calls that did not raise, and did its work. -/
theorem call_done (fine : (turn.call f).raised = false) :
    turn.raised = false ∧ (turn.call f).state = f turn.state := by
  cases ready : turn.raised with
  | true =>
    rw [call_of_raised ready, ready] at fine
    cases fine
  | false =>
    obtain ⟨raised, _⟩ | ⟨_, done⟩ := call_cases (f := f) ready
    · simp [raised] at fine
    · exact ⟨rfl, done⟩

@[simp] theorem call_same : (turn.call (fun s => s)).state = turn.state := by
  unfold call
  split
  · rfl
  · split <;> rfl

/-- A relation kept by the work of a call is kept by the call. -/
theorem call_relates (turn : Turn S) (f : S → S) {R : S → S → Prop} (refl : ∀ s, R s s)
    (works : R turn.state (f turn.state)) :
    R turn.state (turn.call f).state := by
  cases ready : turn.raised with
  | true => rw [call_of_raised ready]; exact refl _
  | false =>
    obtain ⟨_, same⟩ | ⟨_, done⟩ := call_cases (f := f) ready
    · rw [same]; exact refl _
    · rw [done]; exact works

theorem set_relates (turn : Turn S) (f : S → S) {R : S → S → Prop} (refl : ∀ s, R s s)
    (works : R turn.state (f turn.state)) :
    R turn.state (turn.set f).state := by
  unfold set
  split
  · exact refl _
  · exact works

/-- A condition kept by the work of a call is kept by the call. -/
theorem call_keeps {P : S → Prop} (holds : P turn.state) (works : P (f turn.state)) :
    P (turn.call f).state :=
  turn.call_relates f (R := fun s t => P s → P t) (fun _ => id) (fun _ => works) holds

theorem set_keeps {P : S → Prop} (holds : P turn.state) (works : P (f turn.state)) :
    P (turn.set f).state :=
  turn.set_relates f (R := fun s t => P s → P t) (fun _ => id) (fun _ => works) holds

/-- Nothing has raised and no call will. -/
structure Safe (turn : Turn S) : Prop where
  fine : turn.raised = false
  faults : turn.faults = none

theorem Safe.call (safe : turn.Safe) : (turn.call f).Safe ∧ (turn.call f).state = f turn.state := by
  obtain ⟨state, faults, raised⟩ := turn
  obtain ⟨rfl, rfl⟩ := safe
  exact ⟨⟨rfl, rfl⟩, rfl⟩

theorem Safe.set (safe : turn.Safe) : (turn.set f).Safe ∧ (turn.set f).state = f turn.state := by
  obtain ⟨state, faults, raised⟩ := turn
  obtain ⟨rfl, rfl⟩ := safe
  exact ⟨⟨rfl, rfl⟩, rfl⟩

end Turn
end Faults
