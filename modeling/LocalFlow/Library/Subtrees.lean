import LocalFlow.Library.FileTree
import Mathlib.Data.List.Infix

/-! Parts of a tree of files: taken out with all that is below them, put elsewhere, copied and
removed. -/
namespace FileTrees
open Paths

/-- What stands at a place and below it, seen from there. -/
structure Branch (α : Type*) where
  entry : Path → Option (Entry α)
  nested : ∀ place name, entry (place ++ [name]) ≠ none → entry place = some .directory

variable {α : Type*}

namespace Branch

def none : Branch α where
  entry := fun _ => .none
  nested := fun _ _ stands => absurd rfl stands

/-- What is left of a branch when only what `keep` has stays, with the directories it is in. -/
def filter (branch : Branch α) (keep : Path → Bool) : Branch α where
  entry := fun place => if ∀ below ∈ place.inits, keep below = true then branch.entry place else .none
  nested := by
    intro place name stands
    have kept : ∀ below ∈ (place ++ [name]).inits, keep below = true := by
      by_contra lost
      rw [if_neg lost] at stands
      exact stands rfl
    rw [if_pos kept] at stands
    refine (if_pos (fun below member => kept below ?_)).trans (branch.nested place name stands)
    rw [List.mem_inits] at member ⊢
    exact member.trans (List.prefix_append _ _)

end Branch

namespace FileTree
variable (tree : FileTree α)

def branch (place : Path) : Branch α where
  entry := fun below => tree.entry (place ++ below)
  nested := by
    intro below name stands
    rw [← List.append_assoc] at stands
    exact tree.nested (place ++ below) name stands

/-- A branch put into a directory, for all that is there. -/
def plant (place : Path) (branch : Branch α) : FileTree α :=
  if fits : place ≠ [] ∧ tree.isDirectory (parent place) = true then
    { entry := fun other => if place <+: other then branch.entry (other.drop place.length)
      else tree.entry other
      rooted := (if_neg (fun isPrefix => fits.1 (List.prefix_nil.mp isPrefix))).trans tree.rooted
      nested := by
        intro directory name stands
        by_cases inside : place <+: directory
        · rw [if_pos inside]
          obtain ⟨below, rfl⟩ := inside
          rw [if_pos ((List.prefix_append _ _).trans (List.prefix_append _ _)), List.append_assoc,
            List.drop_left] at stands
          rw [List.drop_left]
          exact branch.nested below name stands
        · rw [if_neg inside]
          by_cases self : place <+: directory ++ [name]
          · obtain isPlace | isPrefix := List.prefix_concat_iff.mp self
            · have isParent : parent place = directory := by rw [isPlace, parent, List.dropLast_concat]
              exact isParent ▸ tree.isDirectory_iff.mp fits.2
            · exact absurd isPrefix inside
          · rw [if_neg self] at stands
            exact tree.nested directory name stands }
  else tree

/-- What stands at `old` may be called `new`: the name is free, in a directory that is not below
`old`. -/
structure Fits (old new : Path) : Prop where
  below : old ≠ []
  stands : (tree.entry old).isSome = true
  apart : ¬old <+: new
  named : new ≠ []
  vacant : (tree.entry new).isNone = true
  above : tree.isDirectory (parent new) = true

instance (old new : Path) : Decidable (tree.Fits old new) :=
  decidable_of_iff (old ≠ [] ∧ (tree.entry old).isSome = true ∧ ¬old <+: new ∧ new ≠ [] ∧
    (tree.entry new).isNone = true ∧
      tree.isDirectory (parent new) = true)
    ⟨fun both => ⟨both.1, both.2.1, both.2.2.1, both.2.2.2.1, both.2.2.2.2.1, both.2.2.2.2.2⟩,
      fun fits => ⟨fits.below, fits.stands, fits.apart, fits.named, fits.vacant, fits.above⟩⟩

/-- `rename` of whatever stands at `old`. -/
def shift (old new : Path) : FileTree α :=
  if tree.Fits old new then (tree.plant old .none).plant new (tree.branch old) else tree

/-- Where a place is found after it. -/
def shifted (old new place : Path) : Path := if old <+: place then new ++ place.drop old.length
    else place

variable {tree} {old new place other : Path} {branch : Branch α} {entry : Entry α}

theorem entry_plant (some_place : place ≠ []) (above : tree.entry (parent place) = some .directory)
    (other : Path) :
    (tree.plant place branch).entry other =
      if place <+: other then branch.entry (other.drop place.length) else tree.entry other := by
  rw [plant, dif_pos ⟨some_place, tree.isDirectory_iff.mpr above⟩]

/-- A branch that is put anywhere leaves what is elsewhere. -/
theorem entry_plant_other (apart : ¬place <+: other) :
    (tree.plant place branch).entry other = tree.entry other := by
  unfold plant
  split
  · exact if_neg apart
  · rfl

/-- Nothing stands below a free name. -/
theorem entry_vacant (vacant : tree.entry new = none) (inside : new <+: other) :
    tree.entry other = none := by
  obtain ⟨names, rfl⟩ := inside
  cases names with
  | nil => rw [List.append_nil, vacant]
  | cons name names => exact entry_below (by simp [vacant]) (List.cons_ne_nil _ _)

theorem parent_above (place : Path) : parent place <+: place := List.dropLast_prefix place

/-- What stands above something is a directory. -/
theorem directory_above (some_place : place ≠ []) (stands : tree.entry place ≠ none) :
    tree.entry (parent place) = some .directory := by
  have joined := List.dropLast_append_getLast some_place
  rw [← joined] at stands
  exact tree.nested _ _ stands

theorem entry_shift (fits : tree.Fits old new) (other : Path) :
    (tree.shift old new).entry other =
      if new <+: other then tree.entry (old ++ other.drop new.length)
        else if old <+: other then none else tree.entry other := by
  have stands : tree.entry old ≠ none := Option.isSome_iff_ne_none.mp fits.stands
  have taken : ∀ other, (tree.plant old .none).entry other = if old <+: other then none
    else tree.entry other :=
    entry_plant fits.below (directory_above fits.below stands)
  have kept : (tree.plant old .none).entry (parent new) = some .directory := by
    rw [taken, if_neg (fun inside => fits.apart (inside.trans (parent_above new)))]
    exact tree.isDirectory_iff.mp fits.above
  rw [shift, if_pos fits, entry_plant fits.named kept, taken]
  rfl

theorem Fits.away (fits : tree.Fits old new) (stands : tree.entry place ≠ none) : ¬new <+: place :=
  fun inside => stands (entry_vacant (Option.isNone_iff_eq_none.mp fits.vacant) inside)

/-- What stood somewhere is found where the new name says. -/
theorem entry_shifted (fits : tree.Fits old new) (found : tree.entry place = some entry) :
    (tree.shift old new).entry (shifted old new place) = some entry := by
  rw [entry_shift fits, shifted]
  by_cases inside : old <+: place
  · rw [if_pos inside, if_pos (List.prefix_append _ _), List.drop_left]
    obtain ⟨below, rfl⟩ := inside
    rwa [List.drop_left]
  · rw [if_neg inside, if_neg (fits.away (by simp [found])), if_neg inside]
    exact found

theorem shifted_injective (fits : tree.Fits old new) {one two : Path} (first : tree.entry one ≠ none)
    (second : tree.entry two ≠ none) (same : shifted old new one = shifted old new two) :
    one = two := by
  unfold shifted at same
  split at same <;> split at same
  · rename_i inside_one inside_two
    obtain ⟨below_one, rfl⟩ := inside_one
    obtain ⟨below_two, rfl⟩ := inside_two
    rw [List.drop_left, List.drop_left] at same
    rw [List.append_cancel_left same]
  · exact absurd (same ▸ List.prefix_append _ _) (fits.away second)
  · exact absurd (same ▸ List.prefix_append _ _) (fits.away first)
  · exact same

end FileTree

end FileTrees
