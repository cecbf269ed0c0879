import Mathlib.Data.List.DropRight
import Mathlib.Data.List.GetD

/-! Base64 with the URL-safe alphabet. A reader takes both alphabets, skips every other character and
stops at the padding of a last group. -/
namespace Base64

def alphabet : List Char := "ABCDEFGHIJKLMNOPQRSTUVWXYZabcdefghijklmnopqrstuvwxyz0123456789-_".toList

def pad : Char := '='

/-- The character of six bits. -/
def char (sextet : Nat) : Char := alphabet.getD sextet 'A'

def sextet? (c : Char) : Option Nat :=
  if c = '+' then some 62
  else if c = '/' then some 63
  else if alphabet.idxOf c < 64 then some (alphabet.idxOf c)
  else none

def encode : List UInt8 → List Char
  | a :: b :: c :: rest =>
    char (a.toNat / 4) :: char (a.toNat % 4 * 16 + b.toNat / 16) ::
      char (b.toNat % 16 * 4 + c.toNat / 64) :: char (c.toNat % 64) :: encode rest
  | [a, b] =>
    [char (a.toNat / 4), char (a.toNat % 4 * 16 + b.toNat / 16), char (b.toNat % 16 * 4), pad]
  | [a] => [char (a.toNat / 4), char (a.toNat % 4 * 16), pad, pad]
  | [] => []

/-- Read on from a position in a group of four, with the bits left over from the last character and
the padding seen since. -/
def decodeFrom : Nat → Nat → Nat → List Char → Option (List UInt8)
  | position, _, _, [] => if position = 0 then some [] else none
  | position, carry, pads, c :: rest =>
    if c = pad then
      if 2 ≤ position ∧ 4 ≤ position + (pads + 1) then some []
      else decodeFrom position carry (if 2 ≤ position then pads + 1 else pads) rest
    else
      match sextet? c with
      | none => decodeFrom position carry pads rest
      | some sextet =>
        match position with
        | 0 => decodeFrom 1 sextet 0 rest
        | 1 => (decodeFrom 2 (sextet % 16) 0 rest).map (UInt8.ofNat (carry * 4 + sextet / 16) :: ·)
        | 2 => (decodeFrom 3 (sextet % 4) 0 rest).map (UInt8.ofNat (carry * 16 + sextet / 4) :: ·)
        | _ => (decodeFrom 0 0 0 rest).map (UInt8.ofNat (carry * 64 + sextet) :: ·)

/-- Only ASCII text can be read. -/
def decode (text : List Char) : Option (List UInt8) :=
  if text.all (fun c => c.toNat < 128) then decodeFrom 0 0 0 text else none

/-- The text without its padding. -/
def trim (text : List Char) : List Char := text.rdropWhile (fun c => c = pad)

/-- The text with the padding its length asks for. -/
def repad (text : List Char) : List Char := text ++ List.replicate ((4 - text.length % 4) % 4) pad

theorem char_facts (sextet : Nat) : char sextet ≠ pad ∧ (char sextet).toNat < 128 := by
  unfold char
  by_cases small : sextet < alphabet.length
  · have table : alphabet.all (fun c => c ≠ pad && c.toNat < 128) = true := by decide
    rw [List.getD_eq_getElem _ _ small]
    simpa using List.all_eq_true.mp table _ (List.getElem_mem small)
  · rw [List.getD_eq_default _ _ (not_lt.mp small)]
    decide

theorem sextet?_char {sextet : Nat} (small : sextet < 64) : sextet? (char sextet) = some sextet := by
  have table : ∀ sextet : Fin 64, sextet? (char sextet) = some sextet.val := by decide +kernel
  exact table ⟨sextet, small⟩

variable {carry pads sextet : Nat} {rest : List Char}

/-- What a character of the alphabet adds, by its place in the group. -/
theorem decodeFrom_char {position : Nat} (small : sextet < 64) :
    decodeFrom position carry pads (char sextet :: rest) =
    match position with
    | 0 => decodeFrom 1 sextet 0 rest
    | 1 => (decodeFrom 2 (sextet % 16) 0 rest).map (UInt8.ofNat (carry * 4 + sextet / 16) :: ·)
    | 2 => (decodeFrom 3 (sextet % 4) 0 rest).map (UInt8.ofNat (carry * 16 + sextet / 4) :: ·)
    | _ => (decodeFrom 0 0 0 rest).map (UInt8.ofNat (carry * 64 + sextet) :: ·) := by
  rw [decodeFrom, if_neg (char_facts sextet).1, sextet?_char small]

/-- The first character of a group is kept for the next. -/
theorem decodeFrom_first (small : sextet < 64) :
    decodeFrom 0 carry pads (char sextet :: rest) = decodeFrom 1 sextet 0 rest := decodeFrom_char small

theorem decodeFrom_second (small : sextet < 64) : decodeFrom 1 carry pads (char sextet :: rest) =
    (decodeFrom 2 (sextet % 16) 0 rest).map (UInt8.ofNat (carry * 4 + sextet / 16) :: ·) :=
  decodeFrom_char small

theorem decodeFrom_third (small : sextet < 64) : decodeFrom 2 carry pads (char sextet :: rest) =
    (decodeFrom 3 (sextet % 4) 0 rest).map (UInt8.ofNat (carry * 16 + sextet / 4) :: ·) :=
  decodeFrom_char small

theorem decodeFrom_fourth (small : sextet < 64) : decodeFrom 3 carry pads (char sextet :: rest) =
    (decodeFrom 0 0 0 rest).map (UInt8.ofNat (carry * 64 + sextet) :: ·) := decodeFrom_char small

/-- One pad ends a group of three characters, two pads a group of two. -/
theorem decodeFrom_padding :
    decodeFrom 3 carry 0 [pad] = some [] ∧ decodeFrom 2 carry 0 [pad, pad] = some [] :=
  ⟨rfl, rfl⟩

theorem byte_eq {byte : UInt8} {n : Nat} (same : n = byte.toNat) : UInt8.ofNat n = byte := by
  rw [same, UInt8.ofNat_toNat]

/-- Every group is read back. -/
theorem decodeFrom_encode (bytes : List UInt8) :
    decodeFrom 0 carry pads (encode bytes) = some bytes := by
  induction bytes using encode.induct generalizing carry pads with
  | case1 a b c rest ih =>
    have ranges := And.intro a.toNat_lt (And.intro b.toNat_lt c.toNat_lt)
    rw [encode, decodeFrom_first (by omega), decodeFrom_second (by omega), decodeFrom_third (by omega),
      decodeFrom_fourth (by omega), ih]
    simp only [Option.map_some, Option.some.injEq, List.cons.injEq, and_true]
    exact ⟨byte_eq (by omega), byte_eq (by omega), byte_eq (by omega)⟩
  | case2 a b =>
    have ranges := And.intro a.toNat_lt b.toNat_lt
    rw [encode, decodeFrom_first (by omega), decodeFrom_second (by omega), decodeFrom_third (by omega),
      decodeFrom_padding.1]
    simp only [Option.map_some, Option.some.injEq, List.cons.injEq, and_true]
    exact ⟨byte_eq (by omega), byte_eq (by omega)⟩
  | case3 a =>
    have range := a.toNat_lt
    rw [encode, decodeFrom_first (by omega), decodeFrom_second (by omega), decodeFrom_padding.2]
    simp only [Option.map_some, Option.some.injEq, List.cons.injEq, and_true]
    exact byte_eq (by omega)
  | case4 => rfl

theorem encode_ascii (bytes : List UInt8) : (encode bytes).all (fun c => c.toNat < 128) = true := by
  have padding : pad.toNat < 128 := by decide
  induction bytes using encode.induct with
  | case1 a b c rest ih => simp [encode, (char_facts _).2, ih]
  | case2 a b => simp [encode, (char_facts _).2, padding]
  | case3 a => simp [encode, (char_facts _).2, padding]
  | case4 => rfl

theorem decode_encode (bytes : List UInt8) : decode (encode bytes) = some bytes := by
  rw [decode, if_pos (encode_ascii bytes), decodeFrom_encode]

/-- The padding fills the last group and stands nowhere else. -/
theorem encode_shape (bytes : List UInt8) :
    ∃ body padding, encode bytes = body ++ List.replicate padding pad ∧
    pad ∉ body ∧ padding < 4 ∧ (body.length + padding) % 4 = 0 := by
  have apart : ∀ sextet, pad ≠ char sextet := fun sextet => (char_facts sextet).1.symm
  induction bytes using encode.induct with
  | case1 a b c rest ih =>
    obtain ⟨body, padding, same, outside, few, whole⟩ := ih
    refine ⟨_ :: _ :: _ :: _ :: body, padding, by rw [encode, same]; rfl, ?_, few, ?_⟩
    · simp [apart, outside]
    · simp only [List.length_cons]
      omega
  | case2 a b =>
    refine ⟨[_, _, _], 1, rfl, ?_, by decide, by simp⟩
    simp [apart]
  | case3 a =>
    refine ⟨[_, _], 2, rfl, ?_, by decide, by simp⟩
    simp [apart]
  | case4 => exact ⟨[], 0, rfl, by simp, by decide, rfl⟩

/-- Padding that was cut off is put back. -/
theorem repad_trim (bytes : List UInt8) : repad (trim (encode bytes)) = encode bytes := by
  obtain ⟨body, padding, same, outside, few, whole⟩ := encode_shape bytes
  have trimmed : trim (encode bytes) = body := by
    rw [same]
    unfold trim
    clear same few whole
    induction padding with
    | zero =>
      rw [List.replicate_zero, List.append_nil, List.rdropWhile_eq_self_iff]
      intro nonempty last
      have member := List.getLast_mem nonempty
      rw [of_decide_eq_true last] at member
      exact outside member
    | succ padding ih =>
      rw [List.replicate_succ', ← List.append_assoc, List.rdropWhile_concat_pos _ _ _ (by simp)]
      exact ih
  rw [trimmed, same, repad]
  congr 2
  omega

end Base64
