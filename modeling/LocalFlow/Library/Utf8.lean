import Mathlib.Data.List.Basic
import Mathlib.Tactic.Common

/-! Character boundaries of a text that is encoded as UTF-8. -/
namespace Utf8

/-- Whether a byte continues a character that an earlier byte begins. -/
def continues (byte : UInt8) : Bool := byte &&& 0xC0 == 0x80

def encode (chars : List Char) : List UInt8 := chars.flatMap String.utf8EncodeChar

/-- The bytes before `place` encode the characters that come first. -/
def Boundary (chars : List Char) (place : Nat) : Prop :=
  ∃ front back, chars = front ++ back ∧ place = (encode front).length

/-- Whether there is a byte at `place`, and it continues a character. -/
def continuesAt (bytes : List UInt8) (place : Nat) : Bool := (bytes[place]?).any continues

variable {bytes front : List UInt8} {chars : List Char} {c : Char} {place : Nat}

theorem continues_low : ∀ v : BitVec 8, v.toNat < 128 → continues ⟨v⟩ = false := by decide
theorem continues_lead₂ : ∀ v : BitVec 8, continues ⟨v &&& 0x1f ||| 0xc0⟩ = false := by decide
theorem continues_lead₃ : ∀ v : BitVec 8, continues ⟨v &&& 0x0f ||| 0xe0⟩ = false := by decide
theorem continues_lead₄ : ∀ v : BitVec 8, continues ⟨v &&& 0x07 ||| 0xf0⟩ = false := by decide
theorem continues_rest : ∀ v : BitVec 8, continues ⟨v &&& 0x3f ||| 0x80⟩ = true := by decide

/-- All bytes of a character but the first continue it. -/
theorem encodeChar_shape (c : Char) : ∃ first rest, String.utf8EncodeChar c = first :: rest ∧
    continues first = false ∧ ∀ byte ∈ rest, continues byte = true := by
  rcases c.utf8Size_eq with one | two | three | four
  · refine ⟨_, _, String.utf8EncodeChar_eq_singleton one, ?_, fun byte found => nomatch found⟩
    apply continues_low
    have low := Char.utf8Size_eq_one_iff.mp one
    show c.val.toUInt8.toNat < 128
    rw [UInt32.toNat_toUInt8]
    have : c.val.toNat ≤ 127 := low
    omega
  · refine ⟨_, _, String.utf8EncodeChar_eq_cons_cons two, continues_lead₂ _, ?_⟩
    intro byte found
    obtain rfl := List.mem_singleton.mp found
    exact continues_rest _
  · refine ⟨_, _, String.utf8EncodeChar_eq_cons_cons_cons three, continues_lead₃ _, ?_⟩
    intro byte found
    rcases List.mem_pair.mp found with rfl | rfl
    · exact continues_rest _
    · exact continues_rest _
  · refine ⟨_, _, String.utf8EncodeChar_eq_cons_cons_cons_cons four, continues_lead₄ _, ?_⟩
    intro byte found
    rcases List.mem_cons.mp found with rfl | found
    · exact continues_rest _
    · rcases List.mem_pair.mp found with rfl | rfl
      · exact continues_rest _
      · exact continues_rest _

theorem encode_cons : encode (c :: chars) = String.utf8EncodeChar c ++ encode chars := rfl

theorem continuesAt_lt (continued : continuesAt bytes place = true) : place < bytes.length := by
  by_contra beyond
  rw [continuesAt, List.getElem?_eq_none (by omega)] at continued
  exact Bool.false_ne_true continued

/-- Within the first character only its first place begins one. -/
theorem continuesAt_head (within : place < (String.utf8EncodeChar c).length) :
    continuesAt (encode (c :: chars)) place = decide (0 < place) := by
  obtain ⟨first, rest, same, begun, continued⟩ := encodeChar_shape c
  rw [continuesAt, encode_cons, List.getElem?_append_left within, same]
  cases place with
  | zero => exact begun
  | succ place =>
    rw [same, List.length_cons] at within
    rw [List.getElem?_cons_succ, List.getElem?_eq_getElem (by omega), Option.any_some]
    exact continued _ (List.getElem_mem _)

theorem continuesAt_append (beyond : front.length ≤ place) :
    continuesAt (front ++ bytes) place = continuesAt bytes (place - front.length) := by
  rw [continuesAt, continuesAt, List.getElem?_append_right beyond]

/-- A place is a boundary where no byte continues a character. -/
theorem boundary_iff :
    Boundary chars place ↔ place ≤ (encode chars).length ∧
      continuesAt (encode chars) place = false := by
  induction chars generalizing place with
  | nil =>
    constructor
    · rintro ⟨front, back, split, rfl⟩
      obtain ⟨rfl, rfl⟩ := List.append_eq_nil_iff.mp split.symm
      exact ⟨Nat.le_refl _, rfl⟩
    · rintro ⟨within, -⟩
      exact ⟨[], [], rfl, Nat.le_zero.mp within⟩
  | cons c chars ih =>
    have positive : 0 < (String.utf8EncodeChar c).length := by
      rw [String.length_utf8EncodeChar]
      exact c.utf8Size_pos
    have total : (encode (c :: chars)).length = (String.utf8EncodeChar c).length +
      (encode chars).length := by
      rw [encode_cons, List.length_append]
    constructor
    · rintro ⟨front, back, split, rfl⟩
      cases front with
      | nil => exact ⟨Nat.zero_le _, continuesAt_head positive⟩
      | cons first front =>
        obtain ⟨rfl, rfl⟩ := List.cons.inj split
        obtain ⟨within, free⟩ := ih.mp ⟨front, back, rfl, rfl⟩
        rw [encode_cons, List.length_append]
        refine ⟨by omega, ?_⟩
        rw [encode_cons, continuesAt_append (Nat.le_add_right _ _), Nat.add_sub_cancel_left]
        exact free
    · rintro ⟨within, free⟩
      rcases Nat.lt_or_ge place (String.utf8EncodeChar c).length with inside | beyond
      · rw [continuesAt_head inside, decide_eq_false_iff_not] at free
        exact ⟨[], c :: chars, rfl, by rw [encode, List.flatMap_nil, List.length_nil]; omega⟩
      · rw [encode_cons, continuesAt_append beyond] at free
        obtain ⟨front, back, rfl, same⟩ := ih.mpr ⟨by omega, free⟩
        refine ⟨c :: front, back, rfl, ?_⟩
        rw [encode_cons, List.length_append]
        omega

/-- A character has at most three bytes after its first. -/
theorem begins_near (chars : List Char) (place : Nat) :
    ∃ k ≤ 3, k ≤ place ∧ continuesAt (encode chars) (place - k) = false := by
  induction chars generalizing place with
  | nil => exact ⟨0, by omega, by omega, rfl⟩
  | cons c chars ih =>
    have small : (String.utf8EncodeChar c).length ≤ 4 := by
      rw [String.length_utf8EncodeChar]
      exact c.utf8Size_le_four
    rcases Nat.lt_or_ge place (String.utf8EncodeChar c).length with inside | beyond
    · refine ⟨place, by omega, Nat.le_refl place, ?_⟩
      rw [Nat.sub_self, continuesAt_head (by omega)]
      rfl
    · obtain ⟨k, three, within, free⟩ := ih (place - (String.utf8EncodeChar c).length)
      refine ⟨k, three, by omega, ?_⟩
      rw [encode_cons, continuesAt_append (by omega), ← free]
      congr 1
      omega

end Utf8
