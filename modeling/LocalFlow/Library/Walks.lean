import Mathlib.Data.List.Nodup
import Mathlib.Tactic.Common

/-! Walks in a graph with labels, with the vertices they visit. What leads out of a vertex may
depend on the labels before it. -/
namespace GraphWalks
variable {κ ι : Type*}

/-- A walk with its labels and the vertices on it, after some labels. -/
inductive Walk (edge : List κ → ι → κ → ι → Prop) : List κ → ι → List κ → List ι → ι → Prop where
  | here (before : List κ) (i : ι) : Walk edge before i [] [i] i
  | step {before labels : List κ} {i j k : ι} {label : κ} {way : List ι} :
      edge before i label j → Walk edge (before ++ [label]) j labels way k →
      Walk edge before i (label :: labels) (i :: way) k

variable {edge : List κ → ι → κ → ι → Prop} {before labels : List κ} {i j k : ι} {way : List ι}

theorem Walk.begins (walk : Walk edge before i labels way k) : i ∈ way := by
  cases walk <;> exact List.mem_cons_self

section Uniform
variable (uniform : ∀ before later i label j, edge before i label j → edge later i label j)
include uniform

theorem Walk.elsewhere (walk : Walk edge before i labels way k) (later : List κ) :
    Walk edge later i labels way k := by
  induction walk generalizing later with
  | here => exact .here later _
  | step leads _ ih => exact .step (uniform _ later _ _ _ leads) (ih _)

/-- The rest of a walk from a vertex on it. -/
theorem Walk.rest (walk : Walk edge before i labels way k) (member : j ∈ way) (later : List κ) :
    ∃ labels' way', Walk edge later j labels' way' k ∧ way' <:+ way := by
  induction walk with
  | here before i =>
    obtain rfl := List.mem_singleton.mp member
    exact ⟨[], [j], .here later j, List.suffix_rfl⟩
  | step leads walk ih =>
    obtain rfl | below := List.mem_cons.mp member
    · exact ⟨_, _, (Walk.step leads walk).elsewhere uniform later, List.suffix_rfl⟩
    · obtain ⟨labels', way', found, inside⟩ := ih below
      exact ⟨labels', way', found, inside.trans (List.suffix_cons _ _)⟩

/-- Where a walk leads, one leads that visits no vertex twice. -/
theorem Walk.simple (walk : Walk edge before i labels way k) :
    ∃ labels' way', Walk edge before i labels' way' k ∧ way'.Nodup := by
  induction walk with
  | here before i => exact ⟨[], [i], .here before i, List.nodup_singleton i⟩
  | @step before labels i j k label way leads _ ih =>
    obtain ⟨labels', way', walk, nodup⟩ := ih
    by_cases again : i ∈ way'
    · obtain ⟨later, shorter, found, inside⟩ := walk.rest uniform again before
      exact ⟨later, shorter, found, nodup.sublist inside.sublist⟩
    · exact ⟨label :: labels', i :: way', .step leads walk, List.nodup_cons.mpr ⟨again, nodup⟩⟩

end Uniform

end GraphWalks
