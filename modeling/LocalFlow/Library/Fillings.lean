import LocalFlow.Library.References
import LocalFlow.Library.Related
import Mathlib.Data.Nat.Digits.Lemmas

/-! Two fillings of one text. What is put in place decides which of them weighs more, so that a list
of texts keeps its fillings only where nothing is put in or the same is. -/
namespace References
variable {syn : References} {value other : List Char → Option (List Char)}
  {name text out out' : List Char}

/-- Two fillings meet the references of the text in the same places. -/
theorem Fills.both {motive : List Char → List Char → List Char → Prop}
    (closes : syn.more closing = false)
    (nil : motive [] [] [])
    (reference : ∀ name after text put put' out out', syn.Begins name after text →
      value name = some put →
      other name = some put' → motive after out out' → motive text (put ++ out) (put' ++ out'))
    (char : ∀ c rest out out', (∀ name after, ¬ syn.Begins name after (c :: rest)) →
      motive rest out out' →
      motive (c :: rest) (c :: out) (c :: out'))
    (fills : syn.Fills value text out) (again : syn.Fills other text out') : motive text out out' := by
  induction fills generalizing out' with
  | nil =>
    obtain rfl := fills_nil.mp again
    exact nil
  | @reference name after text put out begins known _ ih =>
    have first := begins_reference? closes begins
    cases again with
    | nil => cases begins.text
    | reference begins' known' later' =>
      rw [begins_reference? closes begins'] at first
      cases first
      exact reference _ _ _ _ _ _ _ begins known known' (ih later')
    | char absent => exact absurd begins (absent _ _)
  | @char c rest out absent _ ih =>
    cases again with
    | reference begins => exact absurd begins (absent _ _)
    | char _ later' => exact char _ _ _ _ absent (ih later')

/-- More than there are characters. -/
def base : Nat := 0x110001

/-- The number that has the characters as its digits, the first one last. -/
def weight (text : List Char) : Nat := Nat.ofDigits base (text.map (fun c => c.toNat + 1))

theorem digits_weight (text : List Char) :
    base.digits (weight text) = text.map (fun c => c.toNat + 1) := by
  apply Nat.digits_ofDigits base (by decide)
  · intro digit member
    obtain ⟨c, _, rfl⟩ := List.mem_map.mp member
    have bound : c.val.toNat < 0x110000 := c.valid.elim (fun low => by omega) (fun high => by omega)
    exact Nat.succ_lt_succ bound
  · intro some
    rw [List.getLast_map]
    omega

theorem weight_injective : Function.Injective weight := by
  intro one two same
  have digits := digits_weight one
  rw [same, digits_weight two] at digits
  refine List.map_injective_iff.mpr (fun a b equal => ?_) digits.symm
  exact Char.toNat_inj.mp (Nat.succ.inj equal)

theorem length_le_of_weight {one two : List Char} (less : weight one ≤ weight two) :
    one.length ≤ two.length := by
  have lengths := Nat.le_length_digits_le base _ _ less
  rwa [digits_weight, digits_weight, List.length_map, List.length_map] at lengths

theorem weight_append (one two : List Char) :
    weight (one ++ two) = weight one + base ^ one.length * weight two := by
  rw [weight, List.map_append, Nat.ofDigits_append, List.length_map]
  rfl

/-- The filling with the lighter values is the lighter one. -/
theorem Fills.weighs (closes : syn.more closing = false)
    (lighter : ∀ name put put', value name = some put → other name = some put' →
      weight put < weight put')
    (fills : syn.Fills value text out) (again : syn.Fills other text out') :
    weight out ≤ weight out' ∧ ∀ name, syn.Mentions name text → weight out < weight out' := by
  refine Fills.both (motive := fun text out out' => weight out ≤ weight out' ∧
    ∀ name, syn.Mentions name text → weight out < weight out') closes ?_ ?_ ?_ fills again
  · refine ⟨Nat.le_refl _, fun name mentions => ?_⟩
    obtain ⟨front, after, whole, _⟩ := mentions
    simp [References.spelled] at whole
  · intro name after text put put' out out' _ known known' later
    have less := lighter name put put' known known'
    have power : base ^ put.length ≤ base ^ put'.length :=
      Nat.pow_le_pow_right (by decide) (length_le_of_weight (Nat.le_of_lt less))
    have rest := Nat.mul_le_mul power later.1
    rw [weight_append, weight_append]
    exact ⟨by omega, fun _ _ => by omega⟩
  · intro c rest out out' absent later
    have single : ∀ tail, weight (c :: tail) = weight [c] + base ^ 1 * weight tail := weight_append [c]
    rw [single, single]
    refine ⟨Nat.add_le_add_left (Nat.mul_le_mul_left _ later.1) _, fun name mentions => ?_⟩
    exact Nat.add_lt_add_left
      (Nat.mul_lt_mul_of_pos_left (later.2 name (mentions.tail absent)) (by decide)) _

end References
