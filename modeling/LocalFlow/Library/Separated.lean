import Mathlib.Data.List.Basic
import Mathlib.Data.String.Basic
import Mathlib.Tactic.Common

/-! Names made of parts with a separator between them. -/
namespace Separated

section Lists
variable {α : Type*} [DecidableEq α] {sep : α}

/-- No part of a list that is split at a separator holds one. -/
theorem not_mem_part (sep : α) (text : List α) : ∀ part ∈ text.splitOn sep, sep ∉ part := by
  induction text with
  | nil =>
    intro part member
    obtain rfl := List.mem_singleton.mp member
    exact List.not_mem_nil
  | cons c rest ih =>
    rw [List.splitOn_eq_splitOnP] at ih ⊢
    rw [List.splitOnP_cons_eq_if_modifyHead]
    intro part member
    split at member
    · obtain rfl | later := List.mem_cons.mp member
      · exact List.not_mem_nil
      · exact ih part later
    · rename_i other
      cases parts : rest.splitOnP (· == sep) with
      | nil =>
        rw [parts] at member
        cases member
      | cons first more =>
        rw [parts] at member ih
        obtain rfl | later := List.mem_cons.mp member
        · intro inside
          obtain rfl | later := List.mem_cons.mp inside
          · exact other (beq_self_eq_true _)
          · exact ih first (List.mem_cons_self ..) later
        · exact ih part (List.mem_cons_of_mem _ later)

omit [DecidableEq α] in
theorem intercalate_snoc {lines : List (List α)} (some_line : lines ≠ []) (line : List α) :
    [sep].intercalate (lines ++ [line]) = [sep].intercalate lines ++ sep :: line := by
  induction lines with
  | nil => exact absurd rfl some_line
  | cons first lines ih =>
    cases lines with
    | nil => simp
    | cons second lines =>
      rw [List.cons_append, List.intercalate_cons_of_ne_nil (by simp), ih (by simp),
        List.intercalate_cons_cons,
        List.append_assoc, List.append_assoc, List.append_assoc]

/-- A list split at the first `limit` separators. -/
def pieces (sep : α) : Nat → List α → List (List α)
  | 0, text => [text]
  | limit + 1, text =>
    match text.dropWhile (· ≠ sep) with
    | [] => [text]
    | _ :: rest => text.takeWhile (· ≠ sep) :: pieces sep limit rest

theorem pieces_ne_nil (limit : Nat) (text : List α) : pieces sep limit text ≠ [] := by
  cases limit with
  | zero => exact List.cons_ne_nil _ _
  | succ limit =>
    unfold pieces
    split <;> exact List.cons_ne_nil _ _

/-- A piece without a separator comes off the front. -/
theorem pieces_front {front : List α} (absent : sep ∉ front) (limit : Nat) (rest : List α) :
    pieces sep (limit + 1) (front ++ sep :: rest) = front :: pieces sep limit rest := by
  have passes : ∀ a ∈ front, decide (a ≠ sep) = true := fun a member =>
    decide_eq_true (fun same => absent (same ▸ member))
  rw [pieces, List.dropWhile_append_of_pos passes, List.takeWhile_append_of_pos passes]
  simp

theorem intercalate_pieces (limit : Nat) (text : List α) :
    [sep].intercalate (pieces sep limit text) = text := by
  induction limit generalizing text with
  | zero => simp [pieces]
  | succ limit ih =>
    unfold pieces
    split
    · simp
    · rename_i first rest found
      have whole := List.takeWhile_append_dropWhile (p := fun a => decide (a ≠ sep)) (l := text)
      have isSep : first = sep := by
        have stops := List.head?_dropWhile_not (fun a => decide (a ≠ sep)) text
        rw [found] at stops
        simpa using stops
      rw [List.intercalate_cons_of_ne_nil (pieces_ne_nil limit rest), ih, List.append_assoc]
      conv_rhs => rw [← whole, found, isSep]
      rfl

end Lists

variable (sep : Char)

def join (parts : List String) : String := String.ofList ([sep].intercalate (parts.map String.toList))

def parts (name : String) : List String := (name.toList.splitOn sep).map String.ofList

/-- The separator does not occur in the part. -/
def Solid (part : String) : Prop := sep ∉ part.toList

instance (part : String) : Decidable (Solid sep part) := inferInstanceAs (Decidable (_ ∉ _))

variable {sep} {names : List String} {name : String}

theorem join_parts (name : String) : join sep (parts sep name) = name := by
  have lists : (parts sep name).map String.toList = name.toList.splitOn sep := by
    rw [parts, List.map_map]
    exact (List.map_congr_left (fun _ _ => String.toList_ofList)).trans (List.map_id _)
  rw [join, lists, List.intercalate_splitOn, String.ofList_toList]

theorem parts_ne_nil (name : String) : parts sep name ≠ [] := by
  rw [parts, ne_eq, List.map_eq_nil_iff]
  exact List.splitOn_ne_nil _ _

theorem parts_solid (name : String) : ∀ part ∈ parts sep name, Solid sep part := by
  intro part member
  obtain ⟨letters, isPart, rfl⟩ := List.mem_map.mp member
  rw [Solid, String.toList_ofList]
  exact not_mem_part sep _ _ isPart

theorem parts_join (solid : ∀ part ∈ names, Solid sep part) (some_name : names ≠ []) :
    parts sep (join sep names) = names := by
  rw [parts, join, String.toList_ofList, List.splitOn_intercalate sep, List.map_map]
  · exact (List.map_congr_left (fun _ _ => String.ofList_toList)).trans (List.map_id _)
  · intro letters member
    obtain ⟨part, isPart, rfl⟩ := List.mem_map.mp member
    exact solid part isPart
  · rwa [ne_eq, List.map_eq_nil_iff]

theorem join_inj {others : List String} (solid : ∀ part ∈ names, Solid sep part)
    (some_name : names ≠ [])
    (solid' : ∀ part ∈ others, Solid sep part) (some_other : others ≠ []) :
    join sep names = join sep others ↔ names = others := by
  constructor
  · intro same
    rw [← parts_join solid some_name, same, parts_join solid' some_other]
  · exact congrArg _

theorem join_singleton (name : String) : join sep [name] = name := by
  rw [join, List.map_singleton, List.intercalate_singleton, String.ofList_toList]

theorem join_snoc (some_name : names ≠ []) (part : String) :
    join sep (names ++ [part]) = join sep names ++ String.singleton sep ++ part := by
  apply String.toList_inj.mp
  rw [join, String.toList_ofList, List.map_append, List.map_singleton,
    intercalate_snoc (by rwa [ne_eq, List.map_eq_nil_iff]), String.toList_append,
      String.toList_append, join,
    String.toList_ofList, String.toList_singleton]
  simp

end Separated
