import Mathlib.Data.List.Forall2

/-! Calls that may fail, made for the entries of a list one after another. -/
namespace Calls
variable {α β : Type} {R : α → β → Prop}

theorem forall₂_left {l : List α} {m : List β} (each : List.Forall₂ R l m) :
    ∀ a ∈ l, ∃ b ∈ m, R a b := by
  induction each with
  | nil => simp
  | cons one _ ih =>
    rw [List.forall_mem_cons]
    refine ⟨⟨_, List.mem_cons_self, one⟩, fun a member => ?_⟩
    obtain ⟨b, later, related⟩ := ih a member
    exact ⟨b, List.mem_cons_of_mem _ later, related⟩

section Options
variable {f : α → Option β} {items : List α} {found : List β}

theorem mapM_iff : items.mapM f = some found ↔
    List.Forall₂ (fun item value => f item = some value) items found := by
  constructor
  · intro done
    induction items generalizing found with
    | nil =>
      cases done
      exact .nil
    | cons item rest ih =>
      simp only [List.mapM_cons, Option.pure_def, Option.bind_eq_bind, Option.bind_eq_some_iff,
        Option.some.injEq] at done
      obtain ⟨first, one, others, more, rfl⟩ := done
      exact .cons one (ih more)
  · intro each
    induction each with
    | nil => rfl
    | cons one _ ih => simp [List.mapM_cons, one, ih]

theorem mapM_forall₂ (each : ∀ item value, f item = some value → R item value)
    (done : items.mapM f = some found) : List.Forall₂ R items found :=
  (mapM_iff.mp done).imp each

/-- The calls all succeed, each with a result of the kind asked for, where every one of them does. -/
theorem exists_mapM_iff :
    (∃ found, items.mapM f = some found ∧ List.Forall₂ R items found) ↔
      ∀ a ∈ items, ∃ b, f a = some b ∧ R a b := by
  constructor
  · rintro ⟨found, done, each⟩ a member
    obtain ⟨b, _, both⟩ := forall₂_left (List.forall₂_iff_zip.mpr ⟨each.length_eq, fun {a b} member =>
      (⟨(List.forall₂_iff_zip.mp (mapM_iff.mp done)).2 member,
        (List.forall₂_iff_zip.mp each).2 member⟩ :
        f a = some b ∧ R a b)⟩) a member
    exact ⟨b, both⟩
  · intro each
    induction items with
    | nil => exact ⟨[], rfl, .nil⟩
    | cons a items ih =>
      rw [List.forall_mem_cons] at each
      obtain ⟨⟨b, one, related⟩, others⟩ := each
      obtain ⟨found, done, more⟩ := ih others
      exact ⟨b :: found, by simp [List.mapM_cons, one, done], .cons related more⟩

end Options
end Calls
