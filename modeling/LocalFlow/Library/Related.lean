import Mathlib.Data.List.Forall2
import Mathlib.Algebra.BigOperators.Group.List.Basic
import Mathlib.Data.List.Sort

/-! Two lists related entry by entry stay so under the operations that look only at what the
relation keeps. -/
namespace Related
variable {α β γ : Type*} {R : α → β → Prop} {l : List α} {m : List β}

theorem of_map {f : α → γ} {l l' : List α} (same : l.map f = l'.map f) :
    List.Forall₂ (fun a b => f a = f b) l l' := by
  have related : List.Forall₂ (· = ·) (l.map f) (l'.map f) := List.forall₂_eq_eq_eq ▸ same
  exact List.forall₂_map_right_iff.mp (List.forall₂_map_left_iff.mp related)

theorem map_eq {f : α → γ} {g : β → γ} (related : List.Forall₂ R l m)
    (same : ∀ a ∈ l, ∀ b ∈ m, R a b → f a = g b) : l.map f = m.map g := by
  induction related with
  | nil => rfl
  | @cons a b l m head _ ih =>
    rw [List.map_cons, List.map_cons, same a List.mem_cons_self b List.mem_cons_self head]
    rw [ih (fun a' inside b' inside' =>
      same a' (List.mem_cons_of_mem _ inside) b' (List.mem_cons_of_mem _ inside'))]

theorem filter {p : α → Bool} {q : β → Bool} (related : List.Forall₂ R l m)
    (same : ∀ a b, R a b → p a = q b) :
    List.Forall₂ R (l.filter p) (m.filter q) :=
  List.rel_filter (fun a b here => iff_of_eq (congrArg (· = true) (same a b here))) related

theorem find? {p : α → Bool} {q : β → Bool} (related : List.Forall₂ R l m)
    (same : ∀ a b, R a b → p a = q b) :
    Option.Rel R (l.find? p) (m.find? q) := by
  induction related with
  | nil => exact .none
  | @cons a b l m head _ ih =>
    rw [List.find?_cons, List.find?_cons, same a b head]
    cases q b with
    | true => exact .some head
    | false => exact ih

theorem getLast? (related : List.Forall₂ R l m) : Option.Rel R l.getLast? m.getLast? := by
  induction related with
  | nil => exact .none
  | @cons a b l m head tail ih =>
    cases tail with
    | nil => exact .some head
    | cons second rest => simpa [List.getLast?_cons_cons] using ih

section Sorting
variable {r : α → α → Prop} {s : β → β → Prop} [DecidableRel r] [DecidableRel s]

theorem orderedInsert (same : ∀ a b a' b', R a b → R a' b' → (r a a' ↔ s b b')) {a : α} {b : β}
    (new : R a b)
    (related : List.Forall₂ R l m) : List.Forall₂ R (l.orderedInsert r a) (m.orderedInsert s b) := by
  induction related with
  | nil => exact .cons new .nil
  | @cons c d l m head tail ih =>
    rw [List.orderedInsert, List.orderedInsert]
    by_cases first : r a c
    · rw [if_pos first, if_pos ((same a b c d new head).mp first)]
      exact .cons new (.cons head tail)
    · rw [if_neg first, if_neg (fun later => first ((same a b c d new head).mpr later))]
      exact .cons head ih

theorem insertionSort (same : ∀ a b a' b', R a b → R a' b' → (r a a' ↔ s b b'))
    (related : List.Forall₂ R l m) :
    List.Forall₂ R (l.insertionSort r) (m.insertionSort s) := by
  induction related with
  | nil => exact .nil
  | cons head _ ih => exact orderedInsert same head ih

theorem insertionSort_eq_iff {α : Type*} [LinearOrder α] {l m : List α} :
    l.insertionSort (· ≤ ·) = m.insertionSort (· ≤ ·) ↔ l.Perm m := by
  constructor
  · intro same
    have front := List.perm_insertionSort (· ≤ ·) l
    rw [same] at front
    exact front.symm.trans (List.perm_insertionSort (· ≤ ·) m)
  · intro perm
    refine List.Perm.eq_of_pairwise' (List.pairwise_insertionSort _ l)
      (List.pairwise_insertionSort _ m) ?_
    exact (List.perm_insertionSort _ l).trans (perm.trans (List.perm_insertionSort _ m).symm)

end Sorting

/-- Entries of which one weighs no more than the other weigh the same where the lists are the same
up to order. -/
theorem weights {l m : List α} (weight : α → Nat)
    (related : List.Forall₂ (fun a b => weight a ≤ weight b) l m)
    (perm : l.Perm m) : List.Forall₂ (fun a b => weight a = weight b) l m := by
  have total : (l.map weight).sum = (m.map weight).sum := (perm.map weight).sum_eq
  clear perm
  suffices both : (l.map weight).sum ≤ (m.map weight).sum ∧
      ((l.map weight).sum = (m.map weight).sum →
        List.Forall₂ (fun a b => weight a = weight b) l m) from both.2 total
  clear total
  induction related with
  | nil => exact ⟨Nat.le_refl _, fun _ => .nil⟩
  | @cons a b l m head _ ih =>
    rw [List.map_cons, List.map_cons, List.sum_cons, List.sum_cons]
    refine ⟨Nat.add_le_add head ih.1, fun total => ?_⟩
    have least := ih.1
    have equal : weight a = weight b := by omega
    exact .cons equal (ih.2 (by omega))

end Related
