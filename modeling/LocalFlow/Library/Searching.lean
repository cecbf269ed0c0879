import LocalFlow.Library.Decoding
import LocalFlow.Library.Utf8
import Mathlib.Order.Basic

/-! A text in bytes that may be no UTF-8: where it is spelled, and a decoder that keeps every byte
that belongs to no character, so that offsets come back. -/
namespace Utf8

/-! ## Where characters begin -/

section Bytes
variable {byte : UInt8} {bytes : List UInt8} {c : Char} {size more code n : Nat} {low high : UInt8}

/-- A byte that begins no character. -/
def Inner (byte : UInt8) : Prop := 0x80 ≤ byte ∧ byte ≤ 0xBF

instance (byte : UInt8) : Decidable (Inner byte) := inferInstanceAs (Decidable (_ ∧ _))

theorem inner_least : Inner 0x80 := by decide

theorem inner_most : Inner 0xBF := by decide

theorem lead_inner (inner : Inner byte) : lead byte = none := by
  have below : byte < 0xC2 := UInt8.lt_of_le_of_lt inner.2 (by decide)
  simp only [lead, if_pos below]

theorem front_inner (inner : Inner byte) (bytes : List UInt8) : front (byte :: bytes) = .broken 1 := by
  have high : ¬byte < 0x80 := UInt8.not_lt.mpr inner.1
  simp only [front, if_neg high, lead_inner inner]

/-- The code points of a first byte and the bounds of the second one. -/
def spanOf (byte : UInt8) (more : Nat) (low high : UInt8) : Nat × Nat :=
  let code := byte.toNat % 2 ^ (6 - more)
  (64 ^ (more - 1) * (64 * code + (low.toNat - 128)),
    64 ^ (more - 1) * (64 * code + (high.toNat - 128) + 1))

/-- What the first byte says: the bytes that follow are inner ones, and the code points are those of
the size. -/
structure Leads (byte : UInt8) (more : Nat) (low high : UInt8) : Prop where
  first : Inner low
  last : Inner high
  positive : 0 < more
  least : (if more = 1 then 0x80 else if more = 2 then 0x800
    else 0x10000) ≤ (spanOf byte more low high).1
  bound : (spanOf byte more low high).2 ≤ (if more = 1 then 0x800 else if more = 2 then 0x10000
    else 0x110000)
  scalar : (spanOf byte more low high).2 ≤ 0xD800 ∨ 0xE000 ≤ (spanOf byte more low high).1
  size : more ≤ 3

theorem leads_lead (isLead : lead byte = some (more, low, high)) : Leads byte more low high := by
  have checked : ∀ v : BitVec 8, ∀ found ∈ lead ⟨v⟩,
      (0x80 ≤ found.2.1 ∧ found.2.1 ≤ 0xBF) ∧ (0x80 ≤ found.2.2 ∧ found.2.2 ≤ 0xBF) ∧ 0 < found.1 ∧
      (if found.1 = 1 then 0x80 else if found.1 = 2 then 0x800
        else 0x10000) ≤ (spanOf ⟨v⟩ found.1 found.2.1 found.2.2).1 ∧
      (spanOf ⟨v⟩ found.1 found.2.1 found.2.2).2 ≤ (if found.1 = 1 then 0x800
        else if found.1 = 2 then 0x10000 else 0x110000) ∧
      ((spanOf ⟨v⟩ found.1 found.2.1 found.2.2).2 ≤ 0xD800 ∨
        0xE000 ≤ (spanOf ⟨v⟩ found.1 found.2.1 found.2.2).1) ∧
      found.1 ≤ 3 := by decide +kernel
  obtain ⟨first, last, positive, least, bound, scalar, size⟩ := checked byte.toBitVec _ isLead
  exact ⟨first, last, positive, least, bound, scalar, size⟩

/-- The bytes that `trail` has taken in are inner ones. -/
theorem trail_inner (first : Inner low) (last : Inner high) :
    ∀ i < ((trail more low high code size bytes).size?.getD (size + bytes.length)) - size,
      ∀ byte ∈ bytes[i]?, Inner byte := by
  induction more generalizing low high code size bytes with
  | zero => simp [trail, Front.size?]
  | succ more ih =>
    cases bytes with
    | nil => simp
    | cons byte bytes =>
      simp only [trail]
      split
      · next inside =>
        have inner : Inner byte := ⟨UInt8.le_trans first.1 inside.1, UInt8.le_trans inside.2 last.2⟩
        intro i below found isFound
        cases i with
        | zero =>
          cases isFound
          exact inner
        | succ i =>
          have same : size + (byte :: bytes).length = size + 1 + bytes.length := by
            rw [List.length_cons]; omega
          rw [same] at below
          have earlier : i < (trail more 0x80 0xBF (64 * code + byte.toNat % 64)
            (size + 1) bytes).size?.getD
              (size + 1 + bytes.length) - (size + 1) := by omega
          exact ih inner_least inner_most i earlier found isFound
      · simp [Front.size?]

/-- All bytes of what comes first, but its first one. -/
theorem front_tail (byte : UInt8) (bytes : List UInt8) :
    ∀ i < (front (byte :: bytes)).size?.getD (1 + bytes.length) - 1, ∀ inner ∈ bytes[i]?,
      Inner inner := by
  simp only [front]
  split
  · simp [Front.size?]
  · split
    · simp [Front.size?]
    · next isLead =>
      have leads := leads_lead isLead
      exact trail_inner leads.first leads.last

theorem inner_mod (inner : Inner byte) : byte.toNat % 64 = byte.toNat - 128 := by
  have first : 128 ≤ byte.toNat := inner.1
  have last : byte.toNat ≤ 191 := inner.2
  omega

/-- The code point that `trail` reads lies in the span of its first byte. -/
theorem trail_char (first : Inner low) (last : Inner high)
    (isChar : trail (more + 1) low high code size bytes = .char c n) :
    n = size + (more + 1) ∧ ∃ point, c = Char.ofNat point ∧
      64 ^ more * (64 * code + (low.toNat - 128)) ≤ point ∧
      point < 64 ^ more * (64 * code + (high.toNat - 128) + 1) := by
  induction more generalizing low high code size bytes with
  | zero =>
    cases bytes with
    | nil => cases isChar
    | cons byte bytes =>
      simp only [trail] at isChar
      split at isChar
      · next inside =>
        cases isChar
        have inner : Inner byte := ⟨UInt8.le_trans first.1 inside.1, UInt8.le_trans inside.2 last.2⟩
        have lower : low.toNat ≤ byte.toNat := inside.1
        have upper : byte.toNat ≤ high.toNat := inside.2
        refine ⟨rfl, _, rfl, ?_, ?_⟩ <;> rw [inner_mod inner] <;> omega
      · cases isChar
  | succ more ih =>
    cases bytes with
    | nil => cases isChar
    | cons byte bytes =>
      rw [trail] at isChar
      split at isChar
      · next inside =>
        have inner : Inner byte := ⟨UInt8.le_trans first.1 inside.1, UInt8.le_trans inside.2 last.2⟩
        have lower : low.toNat ≤ byte.toNat := inside.1
        have upper : byte.toNat ≤ high.toNat := inside.2
        obtain ⟨isSize, point, isPoint, least, bound⟩ := ih inner_least inner_most isChar
        refine ⟨by omega, point, isPoint, ?_, ?_⟩
        · refine Nat.le_trans ?_ least
          rw [Nat.pow_succ, Nat.mul_assoc, inner_mod inner]
          refine Nat.mul_le_mul_left _ ?_
          show 64 * (64 * code + (low.toNat - 128)) ≤ 64 * (64 * code + (byte.toNat - 128)) +
            (128 - 128)
          omega
        · refine Nat.lt_of_lt_of_le bound ?_
          rw [Nat.pow_succ, Nat.mul_assoc, inner_mod inner]
          refine Nat.mul_le_mul_left _ ?_
          show 64 * (64 * code + (byte.toNat - 128)) + (191 - 128) + 1 ≤ 64 *
            (64 * code + (high.toNat - 128) + 1)
          omega
      · cases isChar

theorem trail_prefix {after : List UInt8}
    (isChar : trail more low high code size (bytes ++ after) = .char c n)
    (within : n ≤ size + bytes.length) : trail more low high code size bytes = .char c n := by
  induction more generalizing low high code size bytes with
  | zero => exact isChar
  | succ more ih =>
    cases bytes with
    | nil =>
      have : ∀ after, trail (more + 1) low high code size after = .char c n → size < n := by
        intro after isChar
        cases after with
        | nil => cases isChar
        | cons byte after =>
          simp only [trail] at isChar
          split at isChar
          · exact (trail_size (congrArg Front.size? isChar)).1
          · cases isChar
      exact absurd (this after isChar) (by simpa using within)
    | cons byte bytes =>
      simp only [trail, List.cons_append] at isChar ⊢
      split at isChar
      · next inside =>
        rw [if_pos inside]
        exact ih isChar (by rw [List.length_cons] at within; omega)
      · cases isChar

/-- A character that is within the bytes is read from them. -/
theorem front_prefix {after : List UInt8} (isChar : front (bytes ++ after) = .char c size)
    (within : size ≤ bytes.length) :
    front bytes = .char c size := by
  cases bytes with
  | nil => exact absurd (front_size (congrArg Front.size? isChar)).1 (by simpa using within)
  | cons byte bytes =>
    rw [List.length_cons] at within
    simp only [front, List.cons_append] at isChar ⊢
    split at isChar
    · next low =>
      rw [if_pos low]
      exact isChar
    · next high =>
      rw [if_neg high]
      split at isChar
      · cases isChar
      · exact trail_prefix isChar (by omega)

theorem toNat_ofNat {point : Nat} (valid : point.isValidChar) : (Char.ofNat point).toNat = point := by
  rw [Char.ofNat, dif_pos valid]
  rfl

/-- A character that is read is as long as it is written. -/
theorem utf8Size_front (isChar : front bytes = .char c size) : c.utf8Size = size := by
  cases bytes with
  | nil => cases isChar
  | cons byte bytes =>
    simp only [front] at isChar
    split at isChar
    · next low =>
      cases isChar
      have small : byte.toNat < 128 := low
      have isPoint := toNat_ofNat (Or.inl (show byte.toNat < 0xd800 by omega))
      exact Char.utf8Size_eq_one_iff.mpr
        (UInt32.le_iff_toNat_le.mpr (by show (Char.ofNat byte.toNat).toNat ≤ 127; omega))
    · split at isChar
      · cases isChar
      · next more low high isLead =>
        obtain ⟨first, last, positive, least, bound, scalar, sizes⟩ := leads_lead isLead
        have read : size = 1 + more ∧ ∃ point, c = Char.ofNat point ∧
          (spanOf byte more low high).1 ≤ point ∧
            point < (spanOf byte more low high).2 := by
          obtain ⟨more, rfl⟩ := Nat.exists_eq_succ_of_ne_zero (Nat.ne_of_gt positive)
          exact trail_char first last isChar
        obtain ⟨rfl, point, rfl, above, below⟩ := read
        generalize spanOf byte more low high = span at *
        have valid : point.isValidChar := by
          have below : span.2 ≤ 0x110000 := by
            refine Nat.le_trans bound ?_
            split
            · decide
            · split <;> decide
          unfold Nat.isValidChar
          omega
        have isVal : (Char.ofNat point).val.toNat = point := toNat_ofNat valid
        have sized : (Char.ofNat point).utf8Size =
            if point ≤ 127 then 1 else if point ≤ 2047 then 2 else if point ≤ 65535 then 3 else 4 := by
          simp [Char.utf8Size, UInt32.le_iff_toNat_le, isVal]
        rw [sized]
        obtain rfl | rfl | rfl : more = 1 ∨ more = 2 ∨ more = 3 := by omega
        · simp only [if_true] at least bound
          rw [if_neg (by omega), if_pos (by omega)]
        · simp at least bound
          rw [if_neg (by omega), if_neg (by omega), if_pos (by omega)]
        · simp at least bound
          rw [if_neg (by omega), if_neg (by omega), if_neg (by omega)]

/-- Within what comes first no character begins. -/
theorem front_within {i : Nat} (positive : 0 < i) (within : i < (front bytes).size?.getD bytes.length) :
    front (bytes.drop i) = .broken 1 := by
  cases bytes with
  | nil => exact absurd within (Nat.not_lt_zero _)
  | cons byte bytes =>
    obtain ⟨i, rfl⟩ := Nat.exists_eq_succ_of_ne_zero (Nat.ne_of_gt positive)
    have inside : i < bytes.length := by
      cases isSize : (front (byte :: bytes)).size? with
      | none =>
        rw [isSize, Option.getD_none, List.length_cons] at within
        omega
      | some size =>
        have small := (front_size isSize).2
        rw [isSize, Option.getD_some] at within
        rw [List.length_cons] at small
        omega
    rw [List.drop_succ_cons, List.drop_eq_getElem_cons inside]
    refine front_inner (front_tail byte bytes i ?_ _ (List.getElem?_eq_getElem inside)) _
    rw [List.length_cons, Nat.add_comm] at within
    omega

end Bytes

/-! ## `surrogateescape` -/

/-- A character, or a byte that belongs to none. -/
inductive Point where
  | char (c : Char)
  | escape (byte : UInt8)
  deriving DecidableEq

namespace Point

/-- How it is written with `surrogateescape`. -/
def bytes : Point → List UInt8
  | char c => String.utf8EncodeChar c
  | escape byte => [byte]

end Point

/-- `bytes.decode("utf-8", errors="surrogateescape")`. -/
def escaped (bytes : List UInt8) : List Point := decode .char (·.map .escape) bytes

/-- `text.encode("utf-8", errors="surrogateescape")`. -/
def unescaped (text : List Point) : List UInt8 := text.flatMap Point.bytes

section Points
variable {byte : UInt8} {bytes : List UInt8} {c : Char} {size : Nat}

theorem decodeFrom_drop {α : Type} (read : Char → α) (lost : List UInt8 → List α) (final : Bool)
    (skip : Nat) (bytes : List UInt8) :
    decodeFrom read lost final skip bytes = decodeFrom read lost final 0 (bytes.drop skip) := by
  induction skip generalizing bytes with
  | zero => rfl
  | succ skip ih =>
    cases bytes with
    | nil => rfl
    | cons byte bytes => exact ih bytes

@[simp] theorem escaped_nil : escaped [] = [] := rfl

theorem escaped_char (isChar : front bytes = .char c size) :
    escaped bytes = .char c :: escaped (bytes.drop size) := by
  cases bytes with
  | nil => cases isChar
  | cons byte bytes =>
    have positive := (front_size (congrArg Front.size? isChar)).1
    obtain ⟨size, rfl⟩ := Nat.exists_eq_succ_of_ne_zero (Nat.ne_of_gt positive)
    simp only [escaped, decode, decodeFrom, isChar]
    rw [decodeFrom_drop]
    rfl

/-- Bytes that begin no character are kept one by one. -/
theorem escaped_inner (before after : List UInt8) (inner : ∀ byte ∈ before, Inner byte) :
    escaped (before ++ after) = before.map .escape ++ escaped after := by
  induction before with
  | nil => rfl
  | cons byte before ih =>
    have isBroken := front_inner (inner byte List.mem_cons_self) (before ++ after)
    simp only [escaped, decode, List.cons_append, decodeFrom, isBroken, List.map_cons]
    exact congrArg (.escape byte :: ·)
      (ih (fun byte member => inner byte (List.mem_cons_of_mem _ member)))

theorem escaped_lost (noChar : ∀ c size, front (byte :: bytes) ≠ .char c size) :
    escaped (byte :: bytes) = .escape byte :: escaped bytes := by
  have inner := front_tail byte bytes
  have kept (size : Nat) (isSize : ∀ i < size, ∀ inner ∈ bytes[i]?, Inner inner) :
      escaped bytes = (bytes.take size).map .escape ++ escaped (bytes.drop size) := by
    conv_lhs => rw [← List.take_append_drop size bytes]
    refine escaped_inner _ _ (fun byte member => ?_)
    obtain ⟨i, isTaken⟩ := List.mem_iff_getElem?.mp member
    rw [List.getElem?_take] at isTaken
    split at isTaken
    · next below => exact isSize i below byte isTaken
    · cases isTaken
  cases isFront : front (byte :: bytes) with
  | char c size => exact absurd isFront (noChar c size)
  | broken size =>
    have positive := (front_size (congrArg Front.size? isFront)).1
    obtain ⟨size, rfl⟩ := Nat.exists_eq_succ_of_ne_zero (Nat.ne_of_gt positive)
    rw [isFront] at inner
    rw [kept size inner]
    simp only [escaped, decode, decodeFrom, isFront, List.take_succ_cons, List.map_cons,
      List.cons_append]
    rw [decodeFrom_drop]
    rfl
  | short =>
    rw [isFront] at inner
    have whole := kept bytes.length (fun i below => inner i (by simpa [Front.size?] using below))
    rw [List.take_length, List.drop_length, escaped_nil, List.append_nil] at whole
    rw [whole]
    simp only [escaped, decode, decodeFrom, isFront, if_true, List.map_cons]

theorem length_bytes_char (c : Char) : (Point.char c).bytes.length = c.utf8Size :=
  String.length_utf8EncodeChar c

/-- What a decoded text begins with: a character that the bytes begin with and that none begins
within, or a byte. -/
inductive Starts (bytes : List UInt8) : Point → List Point → Prop where
  | char {c : Char} {size : Nat} (isChar : front bytes = .char c size) : Starts bytes (.char c)
      (escaped (bytes.drop size))
  | lost {byte : UInt8} {rest : List UInt8} (isBytes : bytes = byte :: rest)
      (noChar : ∀ c size, front bytes ≠ .char c size) :
      Starts bytes (.escape byte) (escaped rest)

theorem starts_escaped {point : Point} {text : List Point}
    (isText : escaped bytes = point :: text) : Starts bytes point text := by
  cases bytes with
  | nil => cases isText
  | cons byte bytes =>
    cases isFront : front (byte :: bytes) with
    | char c size =>
      rw [escaped_char isFront] at isText
      cases isText
      exact .char isFront
    | broken | short =>
      rw [escaped_lost (by simp [isFront])] at isText
      cases isText
      exact .lost rfl (by simp [isFront])

theorem Starts.length {point : Point} {text : List Point} (starts : Starts bytes point text) :
    0 < point.bytes.length ∧ point.bytes.length ≤ bytes.length ∧
      escaped (bytes.drop point.bytes.length) = text := by
  cases starts with
  | char isChar =>
    have small := front_size (congrArg Front.size? isChar)
    rw [length_bytes_char, utf8Size_front isChar]
    exact ⟨small.1, small.2, rfl⟩
  | lost isBytes => simp [isBytes, Point.bytes]

@[simp] theorem unescaped_nil : unescaped [] = [] := rfl

@[simp] theorem unescaped_cons (point : Point) (text : List Point) :
    unescaped (point :: text) = point.bytes ++ unescaped text :=
  List.flatMap_cons

theorem unescaped_append (before text : List Point) :
    unescaped (before ++ text) = unescaped before ++ unescaped text :=
  List.flatMap_append

theorem bytes_nil_of_escaped (isText : escaped bytes = []) : bytes = [] := by
  cases bytes with
  | nil => rfl
  | cons byte bytes =>
    cases isFront : front (byte :: bytes) with
    | char c size =>
      rw [escaped_char isFront] at isText
      cases isText
    | broken | short =>
      rw [escaped_lost (by simp [isFront])] at isText
      cases isText

theorem length_unescaped (bytes : List UInt8) : (unescaped (escaped bytes)).length = bytes.length := by
  generalize isText : escaped bytes = text
  induction text generalizing bytes with
  | nil => rw [bytes_nil_of_escaped isText, unescaped_nil]
  | cons point text ih =>
    obtain ⟨-, within, isRest⟩ := (starts_escaped isText).length
    rw [unescaped_cons, List.length_append, ih _ isRest, List.length_drop, Nat.add_sub_cancel' within]

theorem length_unescaped_take (n : Nat) (bytes : List UInt8) :
    (unescaped ((escaped bytes).take n)).length ≤ bytes.length := by
  have whole := congrArg (fun text => (unescaped text).length) (List.take_append_drop n (escaped bytes))
  simp only [unescaped_append, List.length_append, length_unescaped] at whole
  omega

end Points

/-! ## Counting -/

section Count
variable {byte first : UInt8} {bytes : List UInt8} {c : Char} {size : Nat}

theorem front_high (high : ¬first < 0x80) (isChar : front (first :: bytes) = .char c size) :
    1 < size := by
  simp only [front, if_neg high] at isChar
  split at isChar
  · cases isChar
  · next isLead =>
    have leads := leads_lead isLead
    obtain ⟨more, rfl⟩ := Nat.exists_eq_succ_of_ne_zero (Nat.ne_of_gt leads.positive)
    have := (trail_char leads.first leads.last isChar).1
    omega

theorem ofNat_low (low : byte < 0x80) :
    (Char.ofNat byte.toNat).toNat = byte.toNat ∧ (Char.ofNat byte.toNat).utf8Size = 1 := by
  have isChar : front [byte] = .char (Char.ofNat byte.toNat) 1 := by simp only [front, if_pos low]
  have small : byte.toNat < 128 := low
  exact ⟨toNat_ofNat (Or.inl (show byte.toNat < 0xd800 by omega)), utf8Size_front isChar⟩

/-- An ASCII byte stands for its character and for nothing else. -/
theorem count_point (low : byte < 0x80) {point : Point} {text : List Point}
    (starts : Starts bytes point text) :
    (bytes.take point.bytes.length).count byte = if point = .char (Char.ofNat byte.toNat) then 1
      else 0 := by
  obtain ⟨positive, within, -⟩ := starts.length
  obtain ⟨first, rest, rfl⟩ := List.exists_cons_of_length_pos (Nat.lt_of_lt_of_le positive within)
  cases starts with
  | lost isBytes noChar =>
    cases isBytes
    have high : ¬first < 0x80 := by
      intro isLow
      exact noChar (Char.ofNat first.toNat) 1 (by simp only [front, if_pos isLow])
    have differs : first ≠ byte := fun same => high (same ▸ low)
    simp [Point.bytes, differs]
  | @char c size isChar =>
    rw [length_bytes_char, utf8Size_front isChar]
    by_cases isLow : first < 0x80
    · simp only [front, if_pos isLow, Front.char.injEq] at isChar
      obtain ⟨rfl, rfl⟩ := isChar
      have same : Char.ofNat first.toNat = Char.ofNat byte.toNat ↔ first = byte := by
        refine ⟨fun same => UInt8.toNat_inj.mp ?_, fun same => same ▸ rfl⟩
        rw [← (ofNat_low isLow).1, ← (ofNat_low low).1, same]
      simp [List.count_cons, same]
    · have more := front_high isLow isChar
      have differs : Point.char c ≠ .char (Char.ofNat byte.toNat) := by
        intro same
        cases same
        have := (utf8Size_front isChar).symm.trans (ofNat_low low).2
        omega
      rw [if_neg differs, List.count_eq_zero]
      intro member
      obtain ⟨i, isByte⟩ := List.mem_iff_getElem?.mp member
      rw [List.getElem?_take] at isByte
      split at isByte
      · next below =>
        cases i with
        | zero =>
          cases isByte
          exact isLow low
        | succ i =>
          have inner := front_tail first rest i
            (by rw [isChar, Front.size?, Option.getD_some]; omega) byte isByte
          exact UInt8.not_lt.mpr inner.1 low
      · cases isByte

theorem count_take (low : byte < 0x80) (n : Nat) (bytes : List UInt8) :
    ((escaped bytes).take n).count (.char (Char.ofNat byte.toNat)) =
      (bytes.take (unescaped ((escaped bytes).take n)).length).count byte := by
  induction n generalizing bytes with
  | zero => simp
  | succ n ih =>
    cases isText : escaped bytes with
    | nil => simp
    | cons point text =>
      have starts := starts_escaped isText
      have counted := count_point low starts
      have isRest := starts.length.2.2
      have rest := ih (bytes.drop point.bytes.length)
      rw [isRest] at rest
      rw [List.take_succ_cons, List.count_cons, rest, unescaped_cons, List.length_append,
        List.take_add, List.count_append, counted,
        Nat.add_comm]
      simp

end Count

/-! ## Searching -/

section Search
variable {κ : Type} [DecidableEq κ] (fold : Char → κ)

/-- How many bytes a text takes that they begin with, where `fold` takes characters for the same. -/
def spells : List Char → List UInt8 → Option Nat
  | [], _ => some 0
  | c :: query, bytes =>
    match front bytes with
    | .char d size => if fold d = fold c then (spells query (bytes.drop size)).map (size + ·) else none
    | _ => none

/-- Whether a decoded text begins with the query. -/
def agrees : List Char → List Point → Bool
  | [], _ => true
  | c :: query, .char d :: text => fold d = fold c && agrees query text
  | _, _ => false

variable (query : List Char)

/-- `pattern.finditer(text)` for a query that is not empty: where the matches start and stop, from
the left and without overlaps. The next `skip` points belong to the last one. -/
def finditer : Nat → Nat → List Point → List (Nat × Nat)
  | _, _, [] => []
  | start, skip + 1, _ :: text => finditer (start + 1) skip text
  | start, 0, point :: text =>
    if agrees fold query (point :: text) then
      (start, start + query.length) :: finditer (start + 1) (query.length - 1) text
    else finditer (start + 1) 0 text

/-- The same among the bytes. -/
def findBytes : Nat → Nat → List UInt8 → List (Nat × Nat)
  | _, _, [] => []
  | start, skip + 1, _ :: bytes => findBytes (start + 1) skip bytes
  | start, 0, byte :: bytes =>
    match spells fold query (byte :: bytes) with
    | some size => (start, start + size) :: findBytes (start + 1) (size - 1) bytes
    | none => findBytes (start + 1) 0 bytes

/-- Everywhere the query is spelled. -/
def occurrences : Nat → List UInt8 → List (Nat × Nat)
  | _, [] => []
  | start, byte :: bytes =>
    ((spells fold query (byte :: bytes)).map (fun size => (start, start + size))).toList ++
      occurrences (start + 1) bytes

/-- No proper part of the query at its end is one at its beginning. -/
def Unbordered : Prop :=
  ∀ shift, 0 < shift → shift < query.length → ∃ i, ∃ c ∈ query[i + shift]?, ∃ d ∈ query[i]?,
    fold c ≠ fold d

variable {fold query} {bytes after : List UInt8} {start skip size n : Nat} {found : Nat × Nat}

theorem spells_escaped : spells fold query bytes =
    if agrees fold query (escaped bytes) then
      some (unescaped ((escaped bytes).take query.length)).length else none := by
  induction query generalizing bytes with
  | nil => simp [spells, agrees]
  | cons c query ih =>
    cases isFront : front bytes with
    | char d size =>
      rw [escaped_char isFront]
      simp only [spells, isFront, agrees, Bool.and_eq_true, decide_eq_true_eq, List.length_cons,
        List.take_succ_cons,
        unescaped_cons, List.length_append, length_bytes_char, utf8Size_front isFront]
      by_cases same : fold d = fold c
      · rw [if_pos same, ih]
        split <;> simp_all
      · simp [same]
    | broken | short =>
      simp only [spells, isFront]
      rw [if_neg]
      cases bytes with
      | nil => simp [agrees]
      | cons byte bytes =>
        rw [escaped_lost (by simp [isFront])]
        simp [agrees]

theorem spells_within (nonempty : query ≠ []) (noChar : ∀ c size, front bytes ≠ .char c size) :
    spells fold query bytes = none := by
  cases query with
  | nil => exact absurd rfl nonempty
  | cons c query =>
    cases isFront : front bytes with
    | char d size => exact absurd isFront (noChar d size)
    | broken | short => simp only [spells, isFront]

theorem findBytes_skip (fold : Char → κ) (query : List Char) (start more : Nat)
    (within : n ≤ bytes.length) :
    findBytes fold query start (n + more) bytes = findBytes fold query (start + n) more
    (bytes.drop n) := by
  induction n generalizing start bytes with
  | zero => rw [Nat.zero_add, Nat.add_zero, List.drop_zero]
  | succ n ih =>
    cases bytes with
    | nil => exact absurd within (Nat.not_succ_le_zero n)
    | cons byte bytes =>
      rw [Nat.succ_add, findBytes, ih _ (Nat.le_of_succ_le_succ within), List.drop_succ_cons,
        Nat.add_assoc, Nat.add_comm 1 n]

theorem findBytes_quiet (start : Nat) (within : n ≤ bytes.length)
    (quiet : ∀ i < n, spells fold query (bytes.drop i) = none) :
    findBytes fold query start 0 bytes = findBytes fold query (start + n) 0 (bytes.drop n) := by
  induction n generalizing start bytes with
  | zero => rw [Nat.add_zero, List.drop_zero]
  | succ n ih =>
    cases bytes with
    | nil => exact absurd within (Nat.not_succ_le_zero n)
    | cons byte bytes =>
      have none := quiet 0 (Nat.succ_pos n)
      rw [List.drop_zero] at none
      rw [findBytes, none, List.drop_succ_cons]
      refine (ih _ (Nat.le_of_succ_le_succ within) (fun i below => ?_)).trans ?_
      · exact quiet (i + 1) (Nat.succ_lt_succ below)
      · rw [Nat.add_assoc, Nat.add_comm 1 n]

/-- Scanning the decoded text is scanning the bytes. -/
theorem finditer_bytes (nonempty : query ≠ []) (base : Nat) (before text : List Point) (skip : Nat)
    (isText : escaped bytes = text) :
    (finditer fold query before.length skip text).map (fun found =>
        (base + (unescaped ((before ++ text).take found.1)).length,
          base + (unescaped ((before ++ text).take found.2)).length)) =
      findBytes fold query (base + (unescaped before).length)
      (unescaped (text.take skip)).length bytes := by
  induction text generalizing before skip bytes with
  | nil =>
    cases bytes_nil_of_escaped isText
    cases skip <;> rfl
  | cons point text ih =>
    have starts := starts_escaped isText
    obtain ⟨positive, within, isRest⟩ := starts.length
    have next (skip : Nat) : (finditer fold query (before.length + 1) skip text).map (fun found =>
          (base + (unescaped ((before ++ point :: text).take found.1)).length,
            base + (unescaped ((before ++ point :: text).take found.2)).length)) =
        findBytes fold query (base + (unescaped before).length + point.bytes.length)
          (unescaped (text.take skip)).length
          (bytes.drop point.bytes.length) := by
      have := ih (before ++ [point]) skip isRest
      simpa [unescaped_append, Nat.add_assoc] using this
    cases skip with
    | succ skip =>
      rw [finditer, next, List.take_succ_cons, unescaped_cons, List.length_append,
        findBytes_skip fold query _ _ within]
    | zero =>
      rw [List.take_zero, unescaped_nil, List.length_nil, finditer]
      obtain ⟨byte, rest, rfl⟩ := List.exists_cons_of_length_pos (Nat.lt_of_lt_of_le positive within)
      obtain ⟨size, isSize⟩ := Nat.exists_eq_succ_of_ne_zero (Nat.ne_of_gt positive)
      have inside : size ≤ rest.length := by
        rw [isSize, List.length_cons] at within
        exact Nat.le_of_succ_le_succ within
      have spelled := @spells_escaped κ _ fold query (byte :: rest)
      rw [isText] at spelled
      rw [isSize, List.drop_succ_cons] at next
      split
      · next same =>
        rw [if_pos same] at spelled
        obtain ⟨c, query, rfl⟩ := List.exists_cons_of_ne_nil nonempty
        rw [List.length_cons, List.take_succ_cons, unescaped_cons, List.length_append,
          isSize] at spelled
        have rest_size : size.succ + (unescaped (text.take query.length)).length - 1 =
            size + (unescaped (text.take query.length)).length := by omega
        simp only [List.map_cons, findBytes, spelled, List.length_cons, Nat.add_sub_cancel, next,
          rest_size,
          findBytes_skip fold _ _ _ inside]
        congr 1
        · have whole : before.take (before.length + (query.length + 1)) = before :=
            List.take_of_length_le (by omega)
          simp [List.take_append, unescaped_append, isSize, whole, Nat.add_assoc]
        · congr 1
          omega
      · next differs =>
        rw [if_neg differs] at spelled
        rw [next]
        simp only [findBytes, spelled, List.take_zero, unescaped_nil, List.length_nil]
        rw [findBytes_quiet (base + (unescaped before).length + 1) inside (fun i below => ?_)]
        · congr 1
          omega
        refine spells_within nonempty (fun c size => ?_)
        cases starts with
        | char isChar =>
          rw [length_bytes_char, utf8Size_front isChar] at isSize
          have inner := front_within (Nat.succ_pos i)
            (by rw [isChar, Front.size?, Option.getD_some]; omega)
          rw [List.drop_succ_cons] at inner
          simp [inner]
        | lost =>
          simp only [Point.bytes, List.length_singleton] at isSize
          omega

/-! ### Where the query is spelled -/

theorem spells_positive (nonempty : query ≠ []) (spelled : spells fold query bytes = some size) :
    0 < size := by
  cases query with
  | nil => exact absurd rfl nonempty
  | cons c query =>
    cases isFront : front bytes with
    | broken | short => simp [spells, isFront] at spelled
    | char d n =>
      have positive := (front_size (congrArg Front.size? isFront)).1
      simp only [spells, isFront, Option.ite_none_right_eq_some, Option.map_eq_some_iff] at spelled
      obtain ⟨_, rest, _, rfl⟩ := spelled
      omega

theorem spells_length (spelled : spells fold query bytes = some size) :
    size ≤ bytes.length ∧ size ≤ 4 * query.length := by
  induction query generalizing bytes size with
  | nil =>
    cases spelled
    exact ⟨Nat.zero_le _, Nat.zero_le _⟩
  | cons c query ih =>
    cases isFront : front bytes with
    | broken | short => simp [spells, isFront] at spelled
    | char d n =>
      have small := (front_size (congrArg Front.size? isFront)).2
      have four := utf8Size_front isFront ▸ d.utf8Size_le_four
      simp only [spells, isFront, Option.ite_none_right_eq_some, Option.map_eq_some_iff] at spelled
      obtain ⟨_, rest, isRest, rfl⟩ := spelled
      have := ih isRest
      rw [List.length_drop] at this
      rw [List.length_cons]
      omega

/-- What comes behind the text does not matter. -/
theorem spells_append (after : List UInt8) (within : size ≤ bytes.length) :
    spells fold query (bytes ++ after) = some size ↔ spells fold query bytes = some size := by
  induction query generalizing bytes size with
  | nil => rfl
  | cons c query ih =>
    cases isFront : front bytes with
    | char d n =>
      have known : front (bytes ++ after) = .char d n :=
        (front_append (by simp [isFront]) after).trans isFront
      have small := (front_size (congrArg Front.size? isFront)).2
      simp only [spells, isFront, known, Option.ite_none_right_eq_some, Option.map_eq_some_iff,
        List.drop_append_of_le_length small]
      refine and_congr_right (fun _ => exists_congr (fun rest => and_congr_left (fun isSize => ih ?_)))
      rw [List.length_drop]
      omega
    | broken n =>
      have known : front (bytes ++ after) = .broken n :=
        (front_append (by simp [isFront]) after).trans isFront
      simp only [spells, isFront, known]
    | short =>
      simp only [spells, isFront, reduceCtorEq, iff_false]
      intro spelled
      cases isLonger : front (bytes ++ after) with
      | broken | short => simp [isLonger] at spelled
      | char d n =>
        simp only [isLonger, Option.ite_none_right_eq_some, Option.map_eq_some_iff] at spelled
        obtain ⟨_, rest, _, rfl⟩ := spelled
        have known := front_prefix isLonger (Nat.le_trans (Nat.le_add_right n rest) within)
        rw [isFront] at known
        cases known

theorem spells_within_char {i : Nat} {c : Char} (nonempty : query ≠ [])
    (isChar : front bytes = .char c n) (positive : 0 < i)
    (below : i < n) : spells fold query (bytes.drop i) = none := by
  have inner := @front_within bytes i positive
    (by rw [isChar, Front.size?, Option.getD_some]; exact below)
  exact spells_within nonempty (by simp [inner])

/-- Of two texts that begin one after the other, the longer one ends later. -/
theorem spells_later {other : List Char} {more i : Nat} (isLonger : query.length < other.length)
    (spelled : spells fold query bytes = some size)
    (inside : spells fold other (bytes.drop i) = some more) : size < i + more := by
  induction query generalizing bytes size i other more with
  | nil =>
    cases spelled
    have := spells_positive (List.ne_nil_of_length_pos isLonger) inside
    omega
  | cons c query ih =>
    obtain ⟨d, rest, rfl⟩ :=
      List.exists_cons_of_length_pos (Nat.lt_of_le_of_lt (Nat.zero_le _) isLonger)
    have shorter : query.length < rest.length := Nat.lt_of_succ_lt_succ isLonger
    cases isFront : front bytes with
    | broken | short => simp [spells, isFront] at spelled
    | char e n =>
      simp only [spells, isFront, Option.ite_none_right_eq_some, Option.map_eq_some_iff] at spelled
      obtain ⟨_, tail, isTail, rfl⟩ := spelled
      rcases Nat.lt_or_ge i n with within | beyond
      · rcases Nat.eq_zero_or_pos i with rfl | positive
        · simp only [List.drop_zero, spells, isFront, Option.ite_none_right_eq_some,
            Option.map_eq_some_iff] at inside
          obtain ⟨_, other, isOther, rfl⟩ := inside
          have := ih shorter isTail
            (show spells fold rest ((bytes.drop n).drop 0) = some other from isOther)
          omega
        · rw [spells_within_char (List.cons_ne_nil _ _) isFront positive within] at inside
          cases inside
      · have deeper : spells fold (d :: rest) ((bytes.drop n).drop (i - n)) = some more := by
          rwa [List.drop_drop, Nat.add_sub_cancel' beyond]
        have longer : query.length < (d :: rest).length := Nat.lt_succ_of_lt shorter
        have := ih longer isTail deeper
        omega

/-- What begins later ends later. -/
theorem spells_ordered {more i : Nat} (positive : 0 < i) (spelled : spells fold query bytes = some size)
    (later : spells fold query (bytes.drop i) = some more) (nonempty : query ≠ []) :
    size < i + more := by
  cases query with
  | nil => exact absurd rfl nonempty
  | cons c query =>
    cases isFront : front bytes with
    | broken | short => simp [spells, isFront] at spelled
    | char e n =>
      have beyond : n ≤ i := by
        by_contra within
        rw [spells_within_char nonempty isFront positive (Nat.lt_of_not_ge within)] at later
        cases later
      simp only [spells, isFront, Option.ite_none_right_eq_some, Option.map_eq_some_iff] at spelled
      obtain ⟨_, tail, isTail, rfl⟩ := spelled
      have deeper : spells fold (c :: query) ((bytes.drop n).drop (i - n)) = some more := by
        rwa [List.drop_drop, Nat.add_sub_cancel' beyond]
      have := spells_later (Nat.lt_succ_self _) isTail deeper
      omega

/-- Two texts that are spelled across each other share characters. -/
theorem spells_across {other : List Char} {more i : Nat} (positive : 0 < i) (below : i < size)
    (nonempty : other ≠ [])
    (spelled : spells fold query bytes = some size)
    (across : spells fold other (bytes.drop i) = some more) :
    ∃ shift, 0 < shift ∧ shift < query.length ∧ ∀ j :
    Nat, ∀ c ∈ query[j + shift]?, ∀ d ∈ other[j]?, fold c = fold d := by
  have aligned : ∀ {query other : List Char} {bytes : List UInt8} {size more : Nat},
    spells fold query bytes = some size →
      spells fold other bytes = some more → ∀ j : Nat, ∀ c ∈ query[j]?, ∀ d ∈ other[j]?,
        fold c = fold d := by
    intro query
    induction query with
    | nil => simp
    | cons c query ih =>
      intro other bytes size more spelled same j
      cases other with
      | nil => simp
      | cons d other =>
        cases isFront : front bytes with
        | broken | short => simp [spells, isFront] at spelled
        | char e n =>
          simp only [spells, isFront, Option.ite_none_right_eq_some,
            Option.map_eq_some_iff] at spelled same
          obtain ⟨one, _, isRest, _⟩ := spelled
          obtain ⟨two, _, isSame, _⟩ := same
          cases j with
          | zero => simp [← one, ← two]
          | succ j => simpa using ih isRest isSame j
  induction query generalizing bytes size i with
  | nil =>
    cases spelled
    exact absurd below (Nat.not_lt_zero i)
  | cons c query ih =>
    cases isFront : front bytes with
    | broken | short => simp [spells, isFront] at spelled
    | char e n =>
      simp only [spells, isFront, Option.ite_none_right_eq_some, Option.map_eq_some_iff] at spelled
      obtain ⟨_, tail, isTail, rfl⟩ := spelled
      rcases Nat.lt_trichotomy i n with within | rfl | beyond
      · rw [spells_within_char nonempty isFront positive within] at across
        cases across
      · have tailed : 0 < query.length := by
          cases query with
          | nil =>
            cases isTail
            omega
          | cons => exact Nat.succ_pos _
        exact ⟨1, Nat.one_pos, Nat.succ_lt_succ tailed, fun j => by simpa using aligned isTail across j⟩
      · have deeper : spells fold other ((bytes.drop n).drop (i - n)) = some more := by
          rwa [List.drop_drop, Nat.add_sub_cancel' (Nat.le_of_lt beyond)]
        obtain ⟨shift, isPositive, inside, same⟩ :=
          ih (Nat.sub_pos_of_lt beyond) (by omega) isTail deeper
        exact ⟨shift + 1, Nat.succ_pos _, Nat.succ_lt_succ inside,
          fun j => by simpa [← Nat.add_assoc] using same j⟩

theorem Unbordered.quiet {i : Nat} (unbordered : Unbordered fold query)
    (spelled : spells fold query bytes = some size)
    (positive : 0 < i) (below : i < size) : spells fold query (bytes.drop i) = none := by
  cases later : spells fold query (bytes.drop i) with
  | none => rfl
  | some more =>
    have nonempty : query ≠ [] := by
      rintro rfl
      cases spelled
      exact absurd below (Nat.not_lt_zero i)
    obtain ⟨shift, isPositive, inside, same⟩ := spells_across positive below nonempty spelled later
    obtain ⟨j, c, isC, d, isD, differ⟩ := unbordered shift isPositive inside
    exact absurd (same j c isC d isD) differ

/-! ### All occurrences -/

theorem mem_occurrences (nonempty : query ≠ []) (member : found ∈ occurrences fold query start bytes) :
    ∃ i size, i < bytes.length ∧ found = (start + i, start + i + size) ∧
      spells fold query (bytes.drop i) = some size ∧
      0 < size ∧ i + size ≤ bytes.length ∧ size ≤ 4 * query.length := by
  induction bytes generalizing start with
  | nil => cases member
  | cons byte bytes ih =>
    rw [occurrences, List.mem_append] at member
    obtain first | later := member
    · rw [Option.mem_toList, Option.map_eq_some_iff] at first
      obtain ⟨size, spelled, rfl⟩ := first
      have small := spells_length spelled
      exact ⟨0, size, Nat.succ_pos _, rfl, spelled, spells_positive nonempty spelled, by omega, small.2⟩
    · obtain ⟨i, size, below, rfl, spelled, positive, within, small⟩ := ih later
      rw [List.length_cons]
      refine ⟨i + 1, size, Nat.succ_lt_succ below, ?_, spelled, positive, by omega, small⟩
      rw [Nat.add_assoc, Nat.add_comm 1 i]

/-- They are in the order of where they begin and of where they end. -/
theorem occurrences_ordered (nonempty : query ≠ []) :
    (occurrences fold query start bytes).Pairwise (fun one other => one.1 < other.1 ∧
      one.2 < other.2) := by
  induction bytes generalizing start with
  | nil => exact List.Pairwise.nil
  | cons byte bytes ih =>
    rw [occurrences]
    cases spelled : spells fold query (byte :: bytes) with
    | none => simpa using ih
    | some size =>
      refine List.Pairwise.cons (fun other member => ?_) ih
      obtain ⟨i, more, _, rfl, later, _⟩ := mem_occurrences nonempty member
      have := spells_ordered (Nat.succ_pos i) spelled later nonempty
      exact ⟨by show start < _; omega, by show start + size < _; omega⟩

theorem occurrences_take (nonempty : query ≠ []) (after : List UInt8) :
    (occurrences fold query start (bytes ++ after)).filter
    (fun found => found.2 ≤ start + bytes.length) =
      occurrences fold query start bytes := by
  induction bytes generalizing start with
  | nil =>
    refine List.filter_eq_nil_iff.mpr (fun found member => ?_)
    obtain ⟨i, size, _, rfl, _, positive, _⟩ := mem_occurrences nonempty member
    simp only [List.length_nil, decide_eq_true_eq]
    omega
  | cons byte bytes ih =>
    have next := @ih (start + 1)
    rw [Nat.add_right_comm, Nat.add_assoc] at next
    rw [List.cons_append, occurrences, occurrences, List.filter_append, List.length_cons, next]
    congr 1
    rw [← List.cons_append]
    cases spelled : spells fold query (byte :: bytes) with
    | some size =>
      have small := (spells_length spelled).1
      rw [(spells_append after small).mpr spelled]
      rw [List.length_cons] at small
      simp [small]
    | none =>
      cases longer : spells fold query (byte :: bytes ++ after) with
      | none => rfl
      | some size =>
        have beyond : ¬size ≤ (byte :: bytes).length := by
          intro within
          rw [(spells_append after within).mp longer] at spelled
          cases spelled
        rw [List.length_cons] at beyond
        simp [beyond]

theorem occurrences_drop (fold : Char → κ) (query : List Char) (start : Nat)
    (within : n ≤ bytes.length) :
    (occurrences fold query start bytes).filter (fun found => start + n ≤ found.1) =
      occurrences fold query (start + n) (bytes.drop n) := by
  have all : ∀ {start least : Nat} {bytes : List UInt8}, least ≤ start →
      (occurrences fold query start bytes).filter (fun found => least ≤ found.1) =
        occurrences fold query start bytes := by
    intro start least bytes isLeast
    induction bytes generalizing start with
    | nil => rfl
    | cons byte bytes ih =>
      rw [occurrences, List.filter_append, ih (Nat.le_succ_of_le isLeast)]
      cases spells fold query (byte :: bytes) <;> simp [isLeast]
  induction n generalizing start bytes with
  | zero => exact all (Nat.le_refl _)
  | succ n ih =>
    cases bytes with
    | nil => exact absurd within (Nat.not_succ_le_zero n)
    | cons byte bytes =>
      have next := ih (start + 1) (Nat.le_of_succ_le_succ within)
      rw [Nat.add_assoc, Nat.add_comm 1 n] at next
      rw [occurrences, List.filter_append, next, List.drop_succ_cons]
      cases spells fold query (byte :: bytes) <;> simp

theorem findBytes_sublist :
    (findBytes fold query start skip bytes).Sublist (occurrences fold query start bytes) := by
  induction bytes generalizing start skip with
  | nil => cases skip <;> exact List.Sublist.refl _
  | cons byte bytes ih =>
    cases skip with
    | succ skip =>
      rw [findBytes, occurrences]
      exact ih.trans (List.sublist_append_right _ _)
    | zero =>
      rw [findBytes, occurrences]
      cases spells fold query (byte :: bytes) with
      | none => exact ih
      | some size => exact ih.cons_cons _

/-- Where the query cannot overlap itself, scanning from the left misses nothing. -/
theorem findBytes_unbordered (unbordered : Unbordered fold query)
    (quiet : ∀ i < skip, spells fold query (bytes.drop i) = none) :
    findBytes fold query start skip bytes = occurrences fold query start bytes := by
  induction bytes generalizing start skip with
  | nil => cases skip <;> rfl
  | cons byte bytes ih =>
    cases skip with
    | succ skip =>
      have none := quiet 0 (Nat.succ_pos skip)
      rw [List.drop_zero] at none
      rw [findBytes, occurrences, none]
      exact ih (fun i below => quiet (i + 1) (Nat.succ_lt_succ below))
    | zero =>
      rw [findBytes, occurrences]
      cases spelled : spells fold query (byte :: bytes) with
      | none => exact ih (fun i below => absurd below (Nat.not_lt_zero i))
      | some size =>
        refine congrArg _ (ih (fun i below => ?_))
        have none := unbordered.quiet spelled (Nat.succ_pos i) (by omega)
        rwa [List.drop_succ_cons] at none

end Search

/-! ### Windows -/

/-- What ends behind `low` and not behind `high`. -/
def window (low high : Nat) (found : List (Nat × Nat)) : List (Nat × Nat) :=
  found.filter (fun one => low < one.2 ∧ one.2 ≤ high)

theorem window_empty (place : Nat) (found : List (Nat × Nat)) : window place place found = [] :=
  List.filter_eq_nil_iff.mpr (fun one _ => by simp only [decide_eq_true_eq]; omega)

/-- Windows one behind the other are one window. -/
theorem window_append {low middle high : Nat} {found : List (Nat × Nat)}
    (ordered : found.Pairwise (fun one other => one.2 < other.2))
    (first : low ≤ middle) (last : middle ≤ high) :
    window low middle found ++ window middle high found = window low high found := by
  induction found with
  | nil => rfl
  | cons one rest ih =>
    obtain ⟨later, ordered⟩ := List.pairwise_cons.mp ordered
    have rest_same := ih ordered
    simp only [window, List.filter_cons] at rest_same ⊢
    rcases Nat.lt_or_ge middle one.2 with beyond | within
    · have none : rest.filter (fun one => low < one.2 ∧ one.2 ≤ middle) = [] := by
        refine List.filter_eq_nil_iff.mpr (fun other member => ?_)
        have := later other member
        simp only [decide_eq_true_eq]
        omega
      rw [none, List.nil_append] at rest_same
      rw [if_neg (by simp only [decide_eq_true_eq]; omega), none, rest_same, List.nil_append]
      simp only [decide_eq_true_eq]
      congr 1
      simp only [eq_iff_iff]
      omega
    · rw [if_neg (show ¬(decide (middle < one.2 ∧ one.2 ≤ high) =
        true) by simp only [decide_eq_true_eq]; omega)]
      simp only [decide_eq_true_eq]
      by_cases inside : low < one.2
      · rw [if_pos ⟨inside, within⟩, if_pos ⟨inside, Nat.le_trans within last⟩, List.cons_append,
          rest_same]
      · rw [if_neg (fun both => inside both.1), if_neg (fun both => inside both.1), rest_same]

theorem window_all {κ : Type} [DecidableEq κ] {fold : Char → κ} {query : List Char}
    (nonempty : query ≠ []) (bytes : List UInt8) :
    window 0 bytes.length (occurrences fold query 0 bytes) = occurrences fold query 0 bytes := by
  refine List.filter_eq_self.mpr (fun found member => ?_)
  obtain ⟨i, size, _, rfl, _, positive, within, _⟩ := mem_occurrences nonempty member
  simp only [decide_eq_true_eq]
  omega

/-- A window of what a text spells is one of its end: it has all that can reach into the window. -/
theorem window_tail {κ : Type} [DecidableEq κ] {fold : Char → κ} {query : List Char}
    {done raw after : List UInt8} {n : Nat}
    (nonempty : query ≠ []) (enough : n + 4 * query.length ≤ done.length ∨ n = 0) :
    window done.length (done.length + raw.length) (occurrences fold query 0 (done ++ (raw ++ after))) =
      (occurrences fold query n ((done ++ raw).drop n)).filter
      (fun found => done.length < found.2) := by
  have within : n ≤ (done ++ raw).length := by
    rw [List.length_append]
    omega
  have dropped := occurrences_drop fold query 0 within
  rw [Nat.zero_add] at dropped
  rw [← dropped, ← @occurrences_take _ _ fold query (done ++ raw) 0 nonempty after,
    ← List.append_assoc, List.filter_filter,
    List.filter_filter, window]
  refine List.filter_congr (fun found member => ?_)
  obtain ⟨i, size, _, rfl, _, positive, _, small⟩ := mem_occurrences nonempty member
  rw [List.length_append, ← Bool.decide_and, ← Bool.decide_and, decide_eq_decide]
  omega

end Utf8
