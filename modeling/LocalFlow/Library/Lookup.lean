import Mathlib.Data.List.Nodup

/-! Association lists: what a lookup finds, by the entries of the list. -/
namespace Lookup
variable {κ V : Type*} [DecidableEq κ] {entries : List (κ × V)} {key : κ} {value : V}

theorem cons (entry : κ × V) (entries : List (κ × V)) :
    (entry :: entries).lookup key = if key = entry.1 then some entry.2 else entries.lookup key := by
  rw [List.lookup_cons]
  by_cases same : key = entry.1
  · rw [if_pos same, beq_iff_eq.mpr same]
  · rw [if_neg same, beq_eq_false_iff_ne.mpr same]

theorem mem (found : entries.lookup key = some value) : (key, value) ∈ entries := by
  obtain ⟨front, back, rfl, _⟩ := List.lookup_eq_some_iff.mp found
  exact List.mem_append_right _ (.head _)

theorem mem_keys (found : entries.lookup key = some value) : key ∈ entries.map Prod.fst :=
  List.mem_map.mpr ⟨_, mem found, rfl⟩

theorem of_key (member : key ∈ entries.map Prod.fst) : ∃ value, entries.lookup key = some value := by
  apply Option.isSome_iff_exists.mp
  obtain ⟨entry, isEntry, same⟩ := List.mem_map.mp member
  exact List.lookup_isSome_iff.mpr ⟨entry, isEntry, beq_iff_eq.mpr same.symm⟩

theorem none_of_key (fresh : key ∉ entries.map Prod.fst) : entries.lookup key = none :=
  Option.eq_none_iff_forall_ne_some.mpr (fun _ found => fresh (mem_keys found))

/-- Where no key occurs twice a lookup finds every entry. -/
theorem iff_mem (unique : (entries.map Prod.fst).Nodup) :
    entries.lookup key = some value ↔ (key, value) ∈ entries := by
  refine ⟨mem, fun member => ?_⟩
  obtain ⟨other, found⟩ := of_key (List.mem_map.mpr ⟨_, member, rfl⟩)
  have same := List.inj_on_of_nodup_map unique (mem found) member rfl
  cases same
  exact found

end Lookup
