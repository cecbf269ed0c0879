import Mathlib.Data.List.Basic
import Mathlib.Logic.Function.Basic
import Mathlib.Order.Lattice

/-! Keyed sequences: every value drawn for a key lies beyond the last one drawn for it, whatever
is drawn for other keys in between. -/
namespace Sequence
variable {κ V : Type*} [DecidableEq κ]

/-- Drawing values one after another moves the last value of each key. -/
inductive Draws [LT V] : (κ → V) → List (κ × V) → (κ → V) → Prop where
  | nil {last : κ → V} : Draws last [] last
  | cons {last final : κ → V} {key : κ} {value : V} {rest : List (κ × V)} : last key < value →
      Draws (Function.update last key value) rest final → Draws last ((key, value) :: rest) final

/-- The values drawn for one key. -/
def drawn (key : κ) (draws : List (κ × V)) : List V :=
  (draws.filter (fun draw => draw.1 = key)).map Prod.snd

@[simp] theorem drawn_append (key : κ) (draws more : List (κ × V)) :
    drawn key (draws ++ more) = drawn key draws ++ drawn key more := by
  simp [drawn]

variable [LinearOrder V]

/-- The values of every key go up, none of them beyond its last value. -/
def Ascending (draws : List (κ × V)) (last : κ → V) : Prop :=
  ∀ key, (drawn key draws).Pairwise (· < ·) ∧ ∀ value ∈ drawn key draws, value ≤ last key

theorem ascending_nil (last : κ → V) : Ascending [] last :=
  fun _ => ⟨.nil, by simp [drawn]⟩

theorem ascending_snoc {draws : List (κ × V)} {last : κ → V} {key : κ} {value : V}
    (ascending : Ascending draws last) (beyond : last key < value) :
    Ascending (draws ++ [(key, value)]) (Function.update last key value) := by
  intro other
  obtain ⟨sorted, bounded⟩ := ascending other
  rw [drawn_append]
  by_cases same : other = key
  · subst same
    have single : drawn other [(other, value)] = [value] := by simp [drawn]
    rw [single, Function.update_self]
    refine ⟨List.pairwise_append.mpr ⟨sorted, by simp, ?_⟩, ?_⟩
    · intro earlier member later last
      rw [List.mem_singleton.mp last]
      exact lt_of_le_of_lt (bounded earlier member) beyond
    · intro any member
      rcases List.mem_append.mp member with old | new
      · exact le_of_lt (lt_of_le_of_lt (bounded any old) beyond)
      · exact le_of_eq (List.mem_singleton.mp new)
  · have none : drawn other [(key, value)] = [] := by simp [drawn, Ne.symm same]
    rw [none, List.append_nil, Function.update_of_ne same]
    exact ⟨sorted, bounded⟩

/-- Drawing more values keeps the values of every key ascending. -/
theorem Draws.ascending {last final : κ → V} {more : List (κ × V)} (draws : Draws last more final)
    {earlier : List (κ × V)} (ascending : Ascending earlier last) :
    Ascending (earlier ++ more) final := by
  induction draws generalizing earlier with
  | nil => simpa using ascending
  | @cons last final key value rest beyond _ ih =>
    have next := ih (ascending_snoc ascending beyond)
    rwa [List.append_assoc, List.singleton_append] at next

theorem Draws.append {last middle final : κ → V} {first second : List (κ × V)}
    (left : Draws last first middle) (right : Draws middle second final) :
    Draws last (first ++ second) final := by
  induction left with
  | nil => exact right
  | cons beyond _ ih => exact .cons beyond (ih right)

end Sequence
