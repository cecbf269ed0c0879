import Mathlib.Data.List.Sort
import Mathlib.Order.Lattice

/-! Keyset paging over records that carry a key in a linear order. A page is the first `limit`
records after a cursor; following the key of each page's last record enumerates every record
once, in key order, as long as no two records share a key. -/
namespace Keyset
variable {α κ : Type*} [LinearOrder κ] (key : α → κ)

def ordered (records : List α) : List α :=
  records.insertionSort (fun a b => key a ≤ key b)

def After (cursor : Option κ) (a : α) : Prop :=
  match cursor with
  | none => True
  | some k => k < key a

instance (cursor : Option κ) : DecidablePred (After key cursor) := fun a =>
  match cursor with
  | none => inferInstanceAs (Decidable True)
  | some k => inferInstanceAs (Decidable (k < key a))

/-- The records a reader positioned at the cursor has not visited yet, in key order. -/
def remaining (cursor : Option κ) (records : List α) : List α :=
  ordered key (records.filter (After key cursor))

def page (limit : Nat) (cursor : Option κ) (records : List α) : List α :=
  (remaining key cursor records).take limit

/-- The loop every reader runs: stop at an empty or short page, else continue after its tail. -/
def scan (fetch : Option κ → List α) (limit : Nat) : Nat → Option κ → List α
  | 0, _ => []
  | fuel + 1, cursor =>
    match (fetch cursor).getLast? with
    | none => []
    | some tail =>
      if (fetch cursor).length < limit then fetch cursor
      else fetch cursor ++ scan fetch limit fuel (some (key tail))

def Distinct (records : List α) : Prop := (records.map key).Nodup

variable {key} {records : List α} {cursor : Option κ}

@[simp] theorem after_none (a : α) : After key none a := trivial

@[simp] theorem after_some (k : κ) (a : α) : After key (some k) a ↔ k < key a := Iff.rfl

@[simp] theorem mem_ordered {a : α} : a ∈ ordered key records ↔ a ∈ records :=
  List.mem_insertionSort _

theorem ordered_perm (records : List α) : (ordered key records).Perm records :=
  List.perm_insertionSort _ records

theorem ordered_sorted (records : List α) :
    (ordered key records).Pairwise (fun a b => key a ≤ key b) := by
  have total : Std.Total (fun a b : α => key a ≤ key b) := ⟨fun a b => le_total (key a) (key b)⟩
  have trans : IsTrans α (fun a b => key a ≤ key b) := ⟨fun _ _ _ => le_trans⟩
  exact List.pairwise_insertionSort _ records

omit [LinearOrder κ] in
theorem Distinct.sublist (distinct : Distinct key records) (h : List.Sublist part records) :
    Distinct key part :=
  List.Nodup.sublist (h.map key) distinct

theorem Distinct.strict (distinct : Distinct key records) :
    (ordered key records).Pairwise (fun a b => key a < key b) := by
  have nodup : ((ordered key records).map key).Nodup :=
    ((ordered_perm records).map key).nodup_iff.mpr distinct
  have apart : (ordered key records).Pairwise (fun a b => key a ≠ key b) :=
    List.pairwise_map.mp nodup
  exact ((ordered_sorted records).and apart).imp (fun h => lt_of_le_of_ne h.1 h.2)

/-- Two strictly ordered lists with the same members are equal. -/
theorem strict_ext {xs ys : List α} (hx : xs.Pairwise (fun a b => key a < key b))
    (hy : ys.Pairwise (fun a b => key a < key b)) (same : ∀ a, a ∈ xs ↔ a ∈ ys) : xs = ys := by
  have irrefl : Std.Irrefl (fun a b : α => key a < key b) := ⟨fun a => lt_irrefl (key a)⟩
  have antisymm : Std.Antisymm (fun a b : α => key a < key b) :=
    ⟨fun _ _ h h' => absurd (h.trans h') (lt_irrefl _)⟩
  exact hx.eq_of_mem_iff hy same

theorem ordered_eq_of_strict (sorted : records.Pairwise (fun a b => key a < key b)) :
    ordered key records = records :=
  List.Pairwise.insertionSort_eq (sorted.imp le_of_lt)

@[simp] theorem mem_remaining {a : α} :
    a ∈ remaining key cursor records ↔ a ∈ records ∧ After key cursor a := by
  simp [remaining]

theorem Distinct.remaining_strict (distinct : Distinct key records) (cursor : Option κ) :
    (remaining key cursor records).Pairwise (fun a b => key a < key b) :=
  (distinct.sublist List.filter_sublist).strict

@[simp] theorem remaining_none : remaining key none records = ordered key records := by
  simp [remaining]

theorem mem_page {a : α} (member : a ∈ page key limit cursor records) :
    a ∈ records ∧ After key cursor a :=
  mem_remaining.mp (List.mem_of_mem_take member)

/-- Moving the cursor to the last record of an initial segment leaves exactly the rest. -/
theorem Distinct.remaining_advance (distinct : Distinct key records) {front back : List α} {tail : α}
    (split : remaining key cursor records = front ++ back) (last : front.getLast? = some tail) :
    remaining key (some (key tail)) records = back := by
  have strict := distinct.remaining_strict cursor
  rw [split, List.pairwise_append] at strict
  obtain ⟨sortedFront, sortedBack, across⟩ := strict
  have tailFront : tail ∈ front := List.mem_of_getLast? last
  have tailAfter : After key cursor tail :=
    (mem_remaining.mp (split ▸ List.mem_append_left back tailFront)).2
  have belowTail : ∀ a ∈ front, key a ≤ key tail := by
    intro a member
    obtain ⟨initial, rfl⟩ := List.getLast?_eq_some_iff.mp last
    obtain early | rfl := List.mem_append.mp member |>.imp_right List.mem_singleton.mp
    · exact le_of_lt ((List.pairwise_append.mp sortedFront).2.2 a early tail (by simp))
    · exact le_rfl
  refine strict_ext (distinct.remaining_strict _) sortedBack (fun a => ?_)
  rw [mem_remaining, after_some]
  constructor
  · rintro ⟨member, later⟩
    have after : After key cursor a := by
      cases cursor with
      | none => trivial
      | some k => exact lt_trans tailAfter later
    have listed : a ∈ front ++ back := split ▸ mem_remaining.mpr ⟨member, after⟩
    obtain early | late := List.mem_append.mp listed
    · exact absurd later (not_lt.mpr (belowTail a early))
    · exact late
  · intro late
    have listed : a ∈ remaining key cursor records := split ▸ List.mem_append_right front late
    exact ⟨(mem_remaining.mp listed).1, across tail tailFront a late⟩

/-- Every record begins what remains after some cursor. -/
theorem Distinct.begins (distinct : Distinct key records) {a : α} (member : a ∈ records) :
    ∃ cursor rest, remaining key cursor records = a :: rest := by
  have listed : a ∈ remaining key none records := by
    rw [remaining_none]
    exact mem_ordered.mpr member
  obtain ⟨front, rest, split⟩ := List.append_of_mem listed
  cases last : front.getLast? with
  | none =>
    rw [List.getLast?_eq_none_iff.mp last] at split
    exact ⟨none, rest, split⟩
  | some tail => exact ⟨some (key tail), rest, distinct.remaining_advance split last⟩

theorem Distinct.remaining_page (distinct : Distinct key records)
    (last : (page key limit cursor records).getLast? = some tail) :
    remaining key (some (key tail)) records = (remaining key cursor records).drop limit :=
  distinct.remaining_advance (List.take_append_drop limit _).symm last

/-- No record of a page lies after the page's last record. -/
theorem Distinct.page_le (distinct : Distinct key records)
    (last : (page key limit cursor records).getLast? = some tail) {a : α}
    (member : a ∈ page key limit cursor records) : ¬ After key (some (key tail)) a := by
  intro later
  have rest : a ∈ (remaining key cursor records).drop limit := by
    rw [← distinct.remaining_page last, mem_remaining]
    exact ⟨(mem_page member).1, later⟩
  have strict := distinct.remaining_strict cursor
  rw [← List.take_append_drop limit (remaining key cursor records), List.pairwise_append] at strict
  exact absurd (strict.2.2 a member a rest) (lt_irrefl _)

/-- A record behind the cursor stands on the page or behind its last record. -/
theorem Distinct.page_or_after (distinct : Distinct key records)
    (last : (page key limit cursor records).getLast? = some tail) {a : α} (member : a ∈ records)
    (later : After key cursor a) : a ∈ page key limit cursor records ∨ key tail < key a := by
  have listed : a ∈ remaining key cursor records := mem_remaining.mpr ⟨member, later⟩
  rw [← List.take_append_drop limit (remaining key cursor records), List.mem_append] at listed
  refine listed.imp_right (fun dropped => ?_)
  rw [← distinct.remaining_page last] at dropped
  exact (mem_remaining.mp dropped).2

theorem length_page (key : α → κ) (limit : Nat) (cursor : Option κ) (records : List α) :
    (page key limit cursor records).length = min limit (remaining key cursor records).length :=
  List.length_take

/-- A full scan visits each remaining record exactly once, in key order. -/
theorem Distinct.scan_eq (distinct : Distinct key records) (positive : 0 < limit)
    (fuel : Nat) (cursor : Option κ) (enough : (remaining key cursor records).length < fuel) :
    scan key (fun c => page key limit c records) limit fuel cursor =
      remaining key cursor records := by
  induction fuel generalizing cursor with
  | zero => omega
  | succ fuel ih =>
    have size := length_page key limit cursor records
    simp only [scan]
    cases last : (page key limit cursor records).getLast? with
    | none =>
      have empty : (page key limit cursor records).length = 0 :=
        List.length_eq_zero_iff.mpr (List.getLast?_eq_none_iff.mp last)
      exact (List.length_eq_zero_iff.mp (by omega)).symm
    | some tail =>
      have next := distinct.remaining_page last
      by_cases short : (page key limit cursor records).length < limit
      · simp only [short, if_true]
        exact List.take_of_length_le (by omega)
      · have dropped : (remaining key (some (key tail)) records).length + limit =
            (remaining key cursor records).length := by
          rw [next, List.length_drop]
          omega
        simp only [short, if_false]
        rw [ih _ (by omega), next]
        exact List.take_append_drop limit _

end Keyset
