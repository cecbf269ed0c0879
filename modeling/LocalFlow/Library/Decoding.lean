import Mathlib.Algebra.Group.Nat.Defs
import Mathlib.Data.List.Basic
import Mathlib.Tactic.Common

/-! Decoding of bytes as UTF-8 by a decoder that goes on behind an error, at once or piece by piece. -/
namespace Utf8

/-- What comes first: a character, bytes that begin none, or a part of one that may go on. -/
inductive Front where
  | char (c : Char) (size : Nat)
  | broken (size : Nat)
  | short
  deriving DecidableEq

/-- The bytes that are known to belong together. -/
def Front.size? : Front → Option Nat
  | char _ size | broken size => some size
  | short => none

/-- How many bytes follow the first byte of a character, and the bounds of the one that comes second. -/
def lead (byte : UInt8) : Option (Nat × UInt8 × UInt8) :=
  if byte < 0xC2 then none
  else if byte < 0xE0 then some (1, 0x80, 0xBF)
  else if byte = 0xE0 then some (2, 0xA0, 0xBF)
  else if byte = 0xED then some (2, 0x80, 0x9F)
  else if byte < 0xF0 then some (2, 0x80, 0xBF)
  else if byte = 0xF0 then some (3, 0x90, 0xBF)
  else if byte < 0xF4 then some (3, 0x80, 0xBF)
  else if byte = 0xF4 then some (3, 0x80, 0x8F)
  else none

/-- The rest of a character, of which `size` bytes are read. -/
def trail : Nat → UInt8 → UInt8 → Nat → Nat → List UInt8 → Front
  | 0, _, _, code, size, _ => .char (Char.ofNat code) size
  | _ + 1, _, _, _, _, [] => .short
  | more + 1, low, high, code, size, byte :: bytes =>
    if low ≤ byte ∧ byte ≤ high then trail more 0x80 0xBF (64 * code + byte.toNat % 64) (size + 1) bytes
    else .broken size

def front : List UInt8 → Front
  | [] => .short
  | byte :: bytes =>
    if byte < 0x80 then .char (Char.ofNat byte.toNat) 1
    else
      match lead byte with
      | none => .broken 1
      | some (more, low, high) => trail more low high (byte.toNat % 2 ^ (6 - more)) 1 bytes

section Fronts
variable {bytes : List UInt8} {size more code n : Nat} {low high : UInt8}

theorem trail_append (known : trail more low high code size bytes ≠ .short) (after : List UInt8) :
    trail more low high code size (bytes ++ after) = trail more low high code size bytes := by
  induction more generalizing low high code size bytes with
  | zero => rfl
  | succ more ih =>
    cases bytes with
    | nil => exact absurd rfl known
    | cons byte bytes =>
      simp only [trail, List.cons_append] at known ⊢
      split
      · next inside =>
        rw [if_pos inside] at known
        exact ih known
      · rfl

/-- What is not short lies within the bytes. -/
theorem trail_size (isSize : (trail more low high code size bytes).size? = some n) :
    size ≤ n ∧ n ≤ size + bytes.length := by
  induction more generalizing low high code size bytes with
  | zero =>
    obtain rfl := Option.some.inj isSize
    exact ⟨Nat.le_refl _, Nat.le_add_right _ _⟩
  | succ more ih =>
    cases bytes with
    | nil => cases isSize
    | cons byte bytes =>
      simp only [trail] at isSize
      rw [List.length_cons]
      split at isSize
      · have := ih isSize
        omega
      · obtain rfl := Option.some.inj isSize
        omega

/-- Once it is known what comes first, later bytes say nothing of it. -/
theorem front_append (known : front bytes ≠ .short) (after : List UInt8) :
    front (bytes ++ after) = front bytes := by
  cases bytes with
  | nil => exact absurd rfl known
  | cons byte bytes =>
    simp only [front, List.cons_append] at known ⊢
    split
    · rfl
    · next high =>
      rw [if_neg high] at known
      split
      · rfl
      · next isLead =>
        rw [isLead] at known
        exact trail_append known after

theorem front_size (isSize : (front bytes).size? = some n) : 0 < n ∧ n ≤ bytes.length := by
  cases bytes with
  | nil => cases isSize
  | cons byte bytes =>
    rw [List.length_cons]
    simp only [front] at isSize
    split at isSize
    · obtain rfl := Option.some.inj isSize
      omega
    · split at isSize
      · obtain rfl := Option.some.inj isSize
        omega
      · have := trail_size isSize
        omega

end Fronts

section Decoder
variable {α : Type} (read : Char → α) (lost : List UInt8 → List α)

/-- What is decoded, and the bytes that wait for more. The first `skip` bytes are decoded already. -/
def decodeFrom (final : Bool) : Nat → List UInt8 → List α × List UInt8
  | _, [] => ([], [])
  | skip + 1, _ :: bytes => decodeFrom final skip bytes
  | 0, byte :: bytes =>
    match front (byte :: bytes) with
    | .char c size =>
      let (text, rest) := decodeFrom final (size - 1) bytes
      (read c :: text, rest)
    | .broken size =>
      let (text, rest) := decodeFrom final (size - 1) bytes
      (lost ((byte :: bytes).take size) ++ text, rest)
    | .short => if final then (lost (byte :: bytes), []) else ([], byte :: bytes)

/-- The text of all the bytes. -/
def decode (bytes : List UInt8) : List α := (decodeFrom read lost true 0 bytes).1

/-- The texts an incremental decoder gives for the pieces, and for their end. -/
def decodePieces : List UInt8 → List (List UInt8) → List (List α)
  | pending, [] => [(decodeFrom read lost true 0 pending).1]
  | pending, piece :: pieces =>
    let (text, rest) := decodeFrom read lost false 0 (pending ++ piece)
    text :: decodePieces rest pieces

variable {read lost} {final : Bool}

/-- A decoder that is stopped within the bytes goes on with those that wait. -/
theorem decodeFrom_append (skip : Nat) (bytes after : List UInt8) (within : skip ≤ bytes.length) :
    (decodeFrom read lost final skip (bytes ++ after)).1 = (decodeFrom read lost false skip bytes).1 ++
      (decodeFrom read lost final 0 ((decodeFrom read lost false skip bytes).2 ++ after)).1 := by
  induction bytes generalizing skip with
  | nil =>
    obtain rfl := Nat.le_zero.mp within
    rfl
  | cons byte bytes ih =>
    cases skip with
    | succ skip => exact ih skip (Nat.le_of_succ_le_succ within)
    | zero =>
      cases isFront : front (byte :: bytes) with
      | char c size =>
        have joined : front (byte :: (bytes ++ after)) = .char c size :=
          (front_append (by rw [isFront]; exact Front.noConfusion) after).trans isFront
        have small := front_size (congrArg Front.size? isFront)
        simp only [List.cons_append, decodeFrom, isFront, joined]
        rw [ih _ (by rw [List.length_cons] at small; omega)]
      | broken size =>
        have joined : front (byte :: (bytes ++ after)) = .broken size :=
          (front_append (by rw [isFront]; exact Front.noConfusion) after).trans isFront
        have small := front_size (congrArg Front.size? isFront)
        simp only [List.cons_append, decodeFrom, isFront, joined]
        rw [ih _ (by rw [List.length_cons] at small; omega), List.append_assoc, ← List.cons_append,
          List.take_append_of_le_length small.2]
      | short => simp only [List.cons_append, decodeFrom, isFront, Bool.false_eq_true, if_false,
          List.nil_append]

/-- Wherever the bytes are cut, the same text is decoded. -/
theorem decodePieces_flatten (pending : List UInt8) (pieces : List (List UInt8)) :
    (decodePieces read lost pending pieces).flatten = decode read lost (pending ++ pieces.flatten) := by
  induction pieces generalizing pending with
  | nil => rw [decodePieces, List.flatten_cons, List.flatten_nil, List.append_nil, List.flatten_nil,
      List.append_nil, decode]
  | cons piece pieces ih =>
    have step := @decodeFrom_append _ read lost true 0 (pending ++ piece) pieces.flatten
      (Nat.zero_le _)
    rw [decodePieces, List.flatten_cons, ih, List.flatten_cons, ← List.append_assoc]
    exact step.symm

end Decoder

/-- `errors="replace"`. -/
def replaced (bytes : List UInt8) : List Char := decode id (fun _ => ['\uFFFD']) bytes

example : replaced [0x41, 0xE2, 0x82, 0xC3, 0xA9, 0xF0, 0x9F] = ['A', '\uFFFD', 'é', '\uFFFD'] := by
  decide

end Utf8
