import LocalFlow.Library.Numeral

/-! JSON strings: written with every character outside printable ASCII escaped, or with the control
characters alone, and read with every escape. A surrogate that is not half of a pair is no character
here and is not read. -/
namespace Quoted
open Numeral

def quote : Char := Char.ofNat 34
def slash : Char := Char.ofNat 92

/-- The characters with a letter of their own. -/
def letters : List (Char × Char) :=
  [(quote, quote), (slash, slash), ('\n', 'n'), ('\r', 'r'), ('\t', 't'), (Char.ofNat 12, 'f'),
    (Char.ofNat 8, 'b')]

def unescapes : List (Char × Char) := ('/', '/') :: letters.map Prod.swap

/-- A UTF-16 code unit. -/
def unit (n : Nat) : List Char := slash :: 'u' :: text 16 4 n

def escape (c : Char) : List Char :=
  match letters.lookup c with
  | some letter => [slash, letter]
  | none =>
    if 32 ≤ c.toNat ∧ c.toNat ≤ 126 then [c]
    else if c.toNat < 65536 then unit c.toNat
    else unit (55296 + (c.toNat - 65536) / 1024) ++ unit (56320 + (c.toNat - 65536) % 1024)

def write (text : List Char) : List Char := quote :: text.flatMap escape ++ [quote]

/-- Four hexadecimal digits. -/
def unit? (a b c d : Char) : Option Nat := (read 16 4 [a, b, c, d]).map Prod.fst

/-- The rest of a string, and what stands behind it. -/
def readBody : List Char → Option (List Char × List Char)
  | [] => none
  | first :: rest =>
    if first = quote then some ([], rest)
    else if first = slash then
      match rest with
      | 'u' :: a :: b :: c :: d :: after =>
        match unit? a b c d with
        | none => none
        | some high =>
          if 55296 ≤ high ∧ high < 56320 then
            match after with
            | second :: 'u' :: e :: f :: g :: h :: later =>
              match unit? e f g h with
              | none => none
              | some low =>
                if second = slash ∧ 56320 ≤ low ∧ low < 57344 then
                  (readBody later).map (fun found =>
                    (Char.ofNat (65536 + (high - 55296) * 1024 + (low - 56320)) :: found.1, found.2))
                else none
            | _ => none
          else if 56320 ≤ high ∧ high < 57344 then none
          else (readBody after).map (fun found => (Char.ofNat high :: found.1, found.2))
      | letter :: after =>
        match unescapes.lookup letter with
        | none => none
        | some c => (readBody after).map (fun found => (c :: found.1, found.2))
      | [] => none
    else if first.toNat < 32 then none
    else (readBody rest).map (fun found => (first :: found.1, found.2))

def readString : List Char → Option (List Char × List Char)
  | [] => none
  | first :: rest => if first = quote then readBody rest else none

theorem unit?_text {n : Nat} (range : n < 65536) :
    ∃ a b c d, text 16 4 n = [a, b, c, d] ∧ unit? a b c d = some n := by
  have reads := read_text (by decide : 0 < 16) (by decide) (by simpa using range : n < 16 ^ 4) []
  rw [List.append_nil] at reads
  refine ⟨_, _, _, _, rfl, ?_⟩
  exact congrArg (Option.map Prod.fst) reads

theorem readBody_letter {c letter : Char} (found : letters.lookup c = some letter) (rest : List Char) :
    readBody (slash :: letter :: rest) = (readBody rest).map
    (fun found => (c :: found.1, found.2)) := by
  have known : (c, letter) ∈ letters := by
    obtain ⟨before, after, same, _⟩ := List.lookup_eq_some_iff.mp found
    rw [same]
    exact List.mem_append_right _ List.mem_cons_self
  simp only [letters, List.mem_cons, Prod.mk.injEq, List.not_mem_nil, or_false] at known
  rcases known with ⟨rfl, rfl⟩ | ⟨rfl, rfl⟩ | ⟨rfl, rfl⟩ | ⟨rfl, rfl⟩ | ⟨rfl, rfl⟩ | ⟨rfl,
    rfl⟩ | ⟨rfl, rfl⟩ <;> rfl

/-- A code unit that is no surrogate is a character. -/
theorem readBody_unit {n : Nat} (range : n < 55296 ∨ 57344 ≤ n ∧ n < 65536) (rest : List Char) :
    readBody (unit n ++ rest) = (readBody rest).map
    (fun found => (Char.ofNat n :: found.1, found.2)) := by
  obtain ⟨a, b, c, d, written, reads⟩ := @unit?_text n (by omega)
  have shape : unit n ++ rest = slash :: 'u' :: a :: b :: c :: d :: rest := by
    rw [unit, written]
    rfl
  rw [shape, readBody, if_neg (by decide), if_pos rfl]
  simp only [reads]
  rw [if_neg (by omega), if_neg (by omega)]

/-- A pair of surrogates is one character. -/
theorem readBody_pair {high low : Nat} (isHigh : high < 1024) (isLow : low < 1024) (rest : List Char) :
    readBody (unit (55296 + high) ++ unit (56320 + low) ++ rest) = (readBody rest).map (fun found =>
      (Char.ofNat (65536 + high * 1024 + low) :: found.1, found.2)) := by
  obtain ⟨a, b, c, d, first, readsHigh⟩ := @unit?_text (55296 + high) (by omega)
  obtain ⟨e, f, g, h, second, readsLow⟩ := @unit?_text (56320 + low) (by omega)
  have shape : unit (55296 + high) ++ unit (56320 + low) ++ rest =
      slash :: 'u' :: a :: b :: c :: d :: slash :: 'u' :: e :: f :: g :: h :: rest := by
    rw [unit, unit, first, second]
    rfl
  rw [shape, readBody, if_neg (by decide), if_pos rfl]
  simp only [readsHigh, readsLow]
  rw [if_pos (by omega), if_pos (by simp; omega)]
  simp only [Nat.add_sub_cancel_left]

/-- Every character is read back. -/
theorem readBody_escape (c : Char) (rest : List Char) :
    readBody (escape c ++ rest) = (readBody rest).map (fun found => (c :: found.1, found.2)) := by
  have valid : c.toNat < 55296 ∨ 57344 ≤ c.toNat ∧ c.toNat < 1114112 := by
    obtain small | ⟨above, below⟩ := c.valid
    · exact .inl small
    · exact .inr ⟨above, below⟩
  unfold escape
  split
  · rename_i letter found
    exact readBody_letter found rest
  · rename_i unlisted
    have apart := List.lookup_eq_none_iff.mp unlisted
    have plain : c ≠ quote ∧ c ≠ slash := by
      have first := apart (quote, quote) (by simp [letters])
      have second := apart (slash, slash) (by simp [letters])
      exact ⟨by simpa using first, by simpa using second⟩
    split
    · rename_i printable
      rw [List.singleton_append, readBody.eq_def]
      simp only [if_neg plain.1, if_neg plain.2]
      rw [if_neg (by omega)]
    split
    · rename_i small
      rw [readBody_unit (by omega), Char.ofNat_toNat]
    · rw [readBody_pair (by omega) (by omega)]
      have whole : 65536 + (c.toNat - 65536) / 1024 * 1024 + (c.toNat - 65536) % 1024 =
        c.toNat := by omega
      rw [whole, Char.ofNat_toNat]

theorem readBody_escapes (text rest : List Char) :
    readBody (text.flatMap escape ++ quote :: rest) = some (text, rest) := by
  induction text with
  | nil => rw [List.flatMap_nil, List.nil_append, readBody.eq_def]; rfl
  | cons c later ih =>
    rw [List.flatMap_cons, List.append_assoc, readBody_escape, ih]
    rfl

theorem readString_write (text rest : List Char) :
    readString (write text ++ rest) = some (text, rest) := by
  have shape : write text ++ rest = quote :: (text.flatMap escape ++ quote :: rest) := by
    simp [write]
  rw [shape, readString, if_pos rfl]
  exact readBody_escapes text rest

/-- What `ensure_ascii=False` leaves of the escapes. -/
def escapeControl (c : Char) : List Char :=
  match letters.lookup c with
  | some letter => [slash, letter]
  | none => if 32 ≤ c.toNat then [c] else unit c.toNat

def writePlain (text : List Char) : List Char := quote :: text.flatMap escapeControl ++ [quote]

theorem readBody_escapeControl (c : Char) (rest : List Char) :
    readBody (escapeControl c ++ rest) = (readBody rest).map
    (fun found => (c :: found.1, found.2)) := by
  unfold escapeControl
  split
  · rename_i letter found
    exact readBody_letter found rest
  · rename_i unlisted
    have apart := List.lookup_eq_none_iff.mp unlisted
    have plain : c ≠ quote ∧ c ≠ slash := by
      have first := apart (quote, quote) (by simp [letters])
      have second := apart (slash, slash) (by simp [letters])
      exact ⟨by simpa using first, by simpa using second⟩
    split
    · rename_i printable
      rw [List.singleton_append, readBody.eq_def]
      simp only [if_neg plain.1, if_neg plain.2]
      rw [if_neg (by omega)]
    · rename_i control
      rw [readBody_unit (by omega), Char.ofNat_toNat]

theorem readString_writePlain (text rest : List Char) :
    readString (writePlain text ++ rest) = some (text, rest) := by
  have shape : writePlain text ++ rest = quote :: (text.flatMap escapeControl ++ quote :: rest) := by
    simp [writePlain]
  rw [shape, readString, if_pos rfl]
  clear shape
  induction text with
  | nil =>
    rw [List.flatMap_nil, List.nil_append, readBody.eq_def]
    rfl
  | cons c later ih =>
    rw [List.flatMap_cons, List.append_assoc, readBody_escapeControl, ih]
    rfl

/-- Two texts that go on after a string agree on the string. -/
theorem writePlain_append {a b rest rest' : List Char}
    (same : writePlain a ++ rest = writePlain b ++ rest') :
    a = b ∧ rest = rest' := by
  have read := readString_writePlain a rest
  rw [same, readString_writePlain b rest'] at read
  cases read
  exact ⟨rfl, rfl⟩

/-- The items of a list behind the first one, and its end. -/
def writeRest : List (List Char) → List Char
  | [] => [']']
  | item :: rest => ',' :: (writePlain item ++ writeRest rest)

/-- A list of strings, without white space. -/
def writeList : List (List Char) → List Char
  | [] => ['[', ']']
  | item :: rest => '[' :: (writePlain item ++ writeRest rest)

theorem writeRest_append {items others : List (List Char)} {tail tail' : List Char}
    (same : writeRest items ++ tail = writeRest others ++ tail') : items = others ∧ tail = tail' := by
  induction items generalizing others with
  | nil =>
    cases others with
    | nil => exact ⟨rfl, (List.cons.inj same).2⟩
    | cons other others => exact absurd (List.cons.inj same).1 (by decide)
  | cons item items ih =>
    cases others with
    | nil => exact absurd (List.cons.inj same).1 (by decide)
    | cons other others =>
      have inner : writePlain item ++ (writeRest items ++ tail) = writePlain other ++
        (writeRest others ++ tail') := by
        simpa [writeRest] using same
      obtain ⟨rfl, later⟩ := writePlain_append inner
      obtain ⟨rfl, rfl⟩ := ih later
      exact ⟨rfl, rfl⟩

theorem writeList_append {items others : List (List Char)} {tail tail' : List Char}
    (same : writeList items ++ tail = writeList others ++ tail') : items = others ∧ tail = tail' := by
  cases items with
  | nil =>
    cases others with
    | nil => exact ⟨rfl, by simpa [writeList] using same⟩
    | cons other others => exact absurd (List.cons.inj (List.cons.inj same).2).1 (by decide)
  | cons item items =>
    cases others with
    | nil => exact absurd (List.cons.inj (List.cons.inj same).2).1 (by decide)
    | cons other others =>
      have inner : writePlain item ++ (writeRest items ++ tail) = writePlain other ++
        (writeRest others ++ tail') := by
        simpa [writeList] using same
      obtain ⟨rfl, later⟩ := writePlain_append inner
      obtain ⟨rfl, rfl⟩ := writeRest_append later
      exact ⟨rfl, rfl⟩

/-- JSON white space is skipped. -/
def skip (text : List Char) : List Char :=
  text.dropWhile (fun c => c = ' ' || c = '\t' || c = '\n' || c = '\r')

def expect (c : Char) (text : List Char) : Option (List Char) :=
  match skip text with
  | [] => none
  | first :: rest => if first = c then some rest else none

/-- A list of two strings, without white space. -/
def writePair (a b : List Char) : List Char := '[' :: (write a ++ ',' :: (write b ++ [']']))

/-- A list of two strings and nothing behind it. -/
def readPair (text : List Char) : Option (List Char × List Char) := do
  let rest ← expect '[' text
  let (a, rest) ← readString (skip rest)
  let rest ← expect ',' rest
  let (b, rest) ← readString (skip rest)
  let rest ← expect ']' rest
  if skip rest = [] then some (a, b) else none

theorem skip_write (text rest : List Char) : skip (write text ++ rest) = write text ++ rest := rfl

theorem readPair_writePair (a b : List Char) : readPair (writePair a b) = some (a, b) := by
  have opened : ∀ rest, expect '[' ('[' :: rest) = some rest := fun _ => rfl
  have parted : ∀ rest, expect ',' (',' :: rest) = some rest := fun _ => rfl
  have closed : expect ']' [']'] = some [] := rfl
  rw [readPair, writePair, opened]
  simp only [Option.bind_eq_bind, Option.bind_some, skip_write, readString_write, parted, closed]
  rfl

end Quoted
