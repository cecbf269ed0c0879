import Mathlib.Data.List.Lex
import Mathlib.Order.Basic
import Mathlib.Data.Char
import Mathlib.Algebra.Order.Group.Nat

/-! Numbers written with a fixed number of digits, most significant first. Such texts compare as
the numbers they show, also in front of further text. -/
namespace Numeral

def digits (base : Nat) : Nat → Nat → List Nat
  | 0, _ => []
  | width + 1, n => n / base ^ width % base :: digits base width n

def digitChar (digit : Nat) : Char := "0123456789abcdef".toList.getD digit '0'

def text (base width n : Nat) : List Char := (digits base width n).map digitChar

/-- The zero of every run of ten decimal digits in Unicode 14. -/
def decimalZeros : List Nat :=
  [0x30, 0x660, 0x6F0, 0x7C0, 0x966, 0x9E6, 0xA66, 0xAE6, 0xB66, 0xBE6, 0xC66, 0xCE6, 0xD66, 0xDE6,
    0xE50, 0xED0,
    0xF20, 0x1040, 0x1090, 0x17E0, 0x1810, 0x1946, 0x19D0, 0x1A80, 0x1A90, 0x1B50, 0x1BB0, 0x1C40,
      0x1C50, 0xA620,
    0xA8D0, 0xA900, 0xA9D0, 0xA9F0, 0xAA50, 0xABF0, 0xFF10, 0x104A0, 0x10D30, 0x11066, 0x110F0,
      0x11136, 0x111D0,
    0x112F0, 0x11450, 0x114D0, 0x11650, 0x116C0, 0x11730, 0x118E0, 0x11950, 0x11C50, 0x11D50,
      0x11DA0, 0x16A60,
    0x16AC0, 0x16B50, 0x1D7CE, 0x1D7D8, 0x1D7E2, 0x1D7EC, 0x1D7F6, 0x1E140, 0x1E2F0, 0x1E950, 0x1FBF0]

/-- The value of a decimal digit of any script. -/
def decimalDigit (point : Nat) : Option Nat :=
  decimalZeros.findSome? (fun first => if first ≤ point ∧ point < first + 10 then
    some (point - first) else none)

theorem length_digits (base width n : Nat) : (digits base width n).length = width := by
  induction width with
  | zero => rfl
  | succ width ih => simp [digits, ih]

theorem digits_lt_base (positive : 0 < base) : ∀ digit ∈ digits base width n, digit < base := by
  induction width with
  | zero => simp [digits]
  | succ width ih =>
    intro digit member
    obtain rfl | later := List.mem_cons.mp member
    · exact Nat.mod_lt _ positive
    · exact ih digit later

/-- Comparing quotients first and remainders second is comparing the numbers. -/
theorem lex_divMod {unit a b c d : Nat} (left : b < unit) (right : d < unit) :
    (a < c ∨ a = c ∧ b < d) ↔ b + unit * a < d + unit * c := by
  constructor
  · rintro (less | ⟨rfl, less⟩)
    · have step : unit * (a + 1) ≤ unit * c := Nat.mul_le_mul_left unit less
      rw [Nat.mul_add, Nat.mul_one] at step
      omega
    · omega
  · intro less
    rcases Nat.lt_trichotomy a c with below | rfl | above
    · exact .inl below
    · exact .inr ⟨rfl, by omega⟩
    · have step : unit * (c + 1) ≤ unit * a := Nat.mul_le_mul_left unit above
      rw [Nat.mul_add, Nat.mul_one] at step
      omega

theorem digits_lt (positive : 0 < base) (width m n : Nat) :
    digits base width m < digits base width n ↔ m % base ^ width < n % base ^ width := by
  induction width with
  | zero => simp [digits, Nat.mod_one]
  | succ width ih =>
    have unit : 0 < base ^ width := Nat.pow_pos positive
    rw [digits, digits, List.cons_lt_cons_iff, ih, Nat.mod_pow_succ, Nat.mod_pow_succ]
    exact lex_divMod (Nat.mod_lt _ unit) (Nat.mod_lt _ unit)

theorem digitChar_lt {a b : Nat} (left : a < 16) (right : b < 16) :
    digitChar a < digitChar b ↔ a < b := by
  have table : ∀ a b : Fin 16, digitChar a < digitChar b ↔ a.val < b.val := by decide
  exact table ⟨a, left⟩ ⟨b, right⟩

theorem map_lt_map {α β : Type*} [LinearOrder α] [LinearOrder β] {f : α → β} {xs ys : List α}
    (mono : ∀ a ∈ xs, ∀ b ∈ ys, f a < f b ↔ a < b) (anti : ∀ a ∈ xs, ∀ b ∈ ys, f b < f a ↔ b < a) :
    xs.map f < ys.map f ↔ xs < ys := by
  induction xs generalizing ys with
  | nil => cases ys <;> simp
  | cons x xs ih =>
    cases ys with
    | nil => simp
    | cons y ys =>
      have same : f x = f y ↔ x = y := by
        have up := mono x (by simp) y (by simp)
        have down := anti x (by simp) y (by simp)
        constructor
        · intro equal
          refine le_antisymm (not_lt.mp (fun less => ?_)) (not_lt.mp (fun less => ?_))
          · exact absurd (down.mpr less) (by simp [equal])
          · exact absurd (up.mpr less) (by simp [equal])
        · exact congrArg f
      rw [List.map_cons, List.map_cons, List.cons_lt_cons_iff, List.cons_lt_cons_iff,
        mono x (by simp) y (by simp), same, ih]
      · exact fun a left b right =>
          mono a (List.mem_cons_of_mem _ left) b (List.mem_cons_of_mem _ right)
      · exact fun a left b right =>
          anti a (List.mem_cons_of_mem _ left) b (List.mem_cons_of_mem _ right)

theorem append_lt_append {α : Type*} [LinearOrder α] {xs ys zs ws : List α}
    (same : xs.length = ys.length) : xs ++ zs < ys ++ ws ↔ xs < ys ∨ xs = ys ∧ zs < ws := by
  induction xs generalizing ys with
  | nil =>
    obtain rfl := List.length_eq_zero_iff.mp same.symm
    simp
  | cons x xs ih =>
    cases ys with
    | nil => simp at same
    | cons y ys =>
      rw [List.cons_append, List.cons_append, List.cons_lt_cons_iff, List.cons_lt_cons_iff,
        ih (by simpa using same)]
      simp only [List.cons.injEq]
      tauto

variable {base width m n : Nat}

theorem text_lt_text (positive : 0 < base) (small : base ≤ 16) (left : m < base ^ width)
    (right : n < base ^ width) : text base width m < text base width n ↔ m < n := by
  have range : ∀ k : Nat, ∀ digit ∈ digits base width k, digit < 16 :=
    fun _ digit member => (digits_lt_base positive digit member).trans_le small
  rw [text, text, map_lt_map, digits_lt positive, Nat.mod_eq_of_lt left, Nat.mod_eq_of_lt right]
  · exact fun a inA b inB => digitChar_lt (range m a inA) (range n b inB)
  · exact fun a inA b inB => digitChar_lt (range n b inB) (range m a inA)

theorem text_inj (positive : 0 < base) (small : base ≤ 16) (left : m < base ^ width)
    (right : n < base ^ width) : text base width m = text base width n ↔ m = n := by
  constructor
  · intro same
    refine le_antisymm (not_lt.mp (fun less => ?_)) (not_lt.mp (fun less => ?_))
    · exact absurd ((text_lt_text positive small right left).mpr less) (by simp [same])
    · exact absurd ((text_lt_text positive small left right).mpr less) (by simp [same])
  · rintro rfl
    rfl

/-- A fixed-width number in front of two texts decides their order unless it is the same. -/
theorem text_append_lt (positive : 0 < base) (small : base ≤ 16) (left : m < base ^ width)
    (right : n < base ^ width) {xs ys : List Char} :
    text base width m ++ xs < text base width n ++ ys ↔ m < n ∨ m = n ∧ xs < ys := by
  rw [append_lt_append (by simp [text, length_digits]), text_lt_text positive small left right,
    text_inj positive small left right]

/-- The digit a character shows, in either case. -/
def digitValue (c : Char) : Option Nat :=
  if '0' ≤ c ∧ c ≤ '9' then some (c.toNat - 48)
  else if 'a' ≤ c ∧ c ≤ 'f' then some (c.toNat - 87)
  else if 'A' ≤ c ∧ c ≤ 'F' then some (c.toNat - 55)
  else none

/-- Read a number of a fixed width off the front of a text. -/
def read (base : Nat) : Nat → List Char → Option (Nat × List Char)
  | 0, text => some (0, text)
  | _ + 1, [] => none
  | width + 1, c :: rest => do
    let digit ← digitValue c
    if digit < base then
      let (n, after) ← read base width rest
      some (digit * base ^ width + n, after)
    else none

theorem digitValue_digitChar {digit : Nat} (small : digit < 16) :
    digitValue (digitChar digit) = some digit := by
  have table : ∀ digit : Fin 16, digitValue (digitChar digit) = some digit.val := by decide
  exact table ⟨digit, small⟩

/-- What was written is read back. -/
theorem read_text (positive : 0 < base) (small : base ≤ 16) (range : n < base ^ width)
    (rest : List Char) :
    read base width (text base width n ++ rest) = some (n, rest) := by
  have reads : ∀ width,
    read base width (text base width n ++ rest) = some (n % base ^ width, rest) := by
    intro width
    induction width with
    | zero => simp [read, text, digits, Nat.mod_one]
    | succ width ih =>
      have digit := Nat.mod_lt (n / base ^ width) positive
      have written : text base (width + 1) n ++ rest =
          digitChar (n / base ^ width % base) :: (text base width n ++ rest) := rfl
      rw [written, read, digitValue_digitChar (digit.trans_le small), Nat.mod_pow_succ]
      simp only [Option.bind_eq_bind, Option.bind_some, digit, if_true, ih]
      rw [Nat.mul_comm, Nat.add_comm]
  rw [reads, Nat.mod_eq_of_lt range]

end Numeral
