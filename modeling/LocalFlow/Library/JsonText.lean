import LocalFlow.Library.Quoted
import Mathlib.Data.Int.Log
import Mathlib.Data.List.Chain
import Mathlib.Data.Rat.Floor

/-! JSON texts as Python reads them: `NaN` and `Infinity` are numbers, floats are rounded to 64
bits, a string is a list of code points in which half a surrogate pair can stand alone, and nesting
is limited by the interpreter. -/
namespace JsonText
open Quoted (quote slash)

inductive Double where
  | finite (q : Rat)
  | infinite | nan

inductive Value where
  | null
  | bool (b : Bool)
  | int (n : Int)
  | float (value : Double)
  | str (points : List Nat)
  | arr (items : List Value)
  | obj (fields : List (List Nat × Value))

/-- `ValueError`, or `RecursionError`. -/
inductive Fault where
  | decode | recursion
  deriving DecidableEq

/-! ## Numbers -/

/-- The nearest integer, and the even one of two. -/
def roundEven (q : Rat) : Int :=
  if q - q.floor < 1 / 2 then q.floor
  else if 1 / 2 < q - q.floor then q.floor + 1
  else if q.floor % 2 = 0 then q.floor
  else q.floor + 1

/-- The nearest 64-bit float. -/
def double (q : Rat) : Double :=
  if q = 0 then .finite 0
  else
    let unit : Rat := 2 ^ (max (Int.log 2 |q|) (-1022) - 52)
    let rounded := roundEven (|q| / unit) * unit
    if 2 ^ (1024 : Int) ≤ rounded then .infinite else .finite (if q < 0 then -rounded else rounded)

def natOf (digits : List Char) : Nat := digits.foldl (fun n c => 10 * n + (c.toNat - 48)) 0

/-- How many digits an integer may have. -/
def maxDigits : Nat := 4300

/-- `0` stands alone. -/
def wholeDigits (text : List Char) : List Char :=
  match text.takeWhile Char.isDigit with
  | '0' :: _ => ['0']
  | digits => digits

def fractionDigits : List Char → List Char
  | '.' :: rest => rest.takeWhile Char.isDigit
  | _ => []

/-- The exponent with the number of its characters. -/
def exponent : List Char → Option (Int × Nat)
  | c :: rest =>
    if c = 'e' ∨ c = 'E' then
      let (negative, signs, body) := match rest with
        | '-' :: body => (true, 1, body)
        | '+' :: body => (false, 1, body)
        | body => (false, 0, body)
      let digits := body.takeWhile Char.isDigit
      if digits = [] then none
      else some (if negative then -(natOf digits : Int) else natOf digits, 1 + signs + digits.length)
    else none
  | [] => none

/-- A number without its sign, and what stands behind it. -/
def readNumeral (negative : Bool) (text : List Char) : Option (Value × List Char) :=
  let whole := wholeDigits text
  if whole = [] then none
  else
    let rest := text.drop whole.length
    let fraction := fractionDigits rest
    let rest := if fraction = [] then rest else rest.drop (1 + fraction.length)
    match exponent rest with
    | some (power, size) =>
      let q : Rat := natOf (whole ++ fraction) * 10 ^ (power - fraction.length)
      some (.float (double (if negative then -q else q)), rest.drop size)
    | none =>
      if fraction ≠ [] then
        let q : Rat := natOf (whole ++ fraction) * 10 ^ (-(fraction.length : Int))
        some (.float (double (if negative then -q else q)), rest)
      else if maxDigits < whole.length then none
      else some (.int (if negative then -(natOf whole : Int) else natOf whole), rest)

/-! ## Strings -/

def hex? (c : Char) : Option Nat :=
  if 48 ≤ c.toNat ∧ c.toNat ≤ 57 then some (c.toNat - 48)
  else if 97 ≤ c.toNat ∧ c.toNat ≤ 102 then some (c.toNat - 87)
  else if 65 ≤ c.toNat ∧ c.toNat ≤ 70 then some (c.toNat - 55)
  else none

def unit? (a b c d : Char) : Option Nat := do
  return (((← hex? a) * 16 + (← hex? b)) * 16 + (← hex? c)) * 16 + (← hex? d)

def isHigh (n : Nat) : Bool := 55296 ≤ n && n < 56320
def isLow (n : Nat) : Bool := 56320 ≤ n && n < 57344

def join (high low : Nat) : Nat := 65536 + (high - 55296) * 1024 + (low - 56320)

/-- A code point in front of a string. Two halves of a surrogate pair are one character. -/
def cons (n : Nat) : List Nat → List Nat
  | [] => [n]
  | next :: points => if isHigh n && isLow next then join n next :: points else n :: next :: points

def push (n : Nat) (found : Option (List Nat × List Char)) : Option (List Nat × List Char) :=
  found.map (fun found => (cons n found.1, found.2))

/-- The rest of a string, and what stands behind it. -/
def readBody : List Char → Option (List Nat × List Char)
  | [] => none
  | first :: rest =>
    if first = quote then some ([], rest)
    else if first = slash then
      match rest with
      | 'u' :: a :: b :: c :: d :: after =>
        match unit? a b c d with
        | none => none
        | some n => push n (readBody after)
      | letter :: after =>
        match Quoted.unescapes.lookup letter with
        | none => none
        | some c => push c.toNat (readBody after)
      | [] => none
    else if first.toNat < 32 then none
    else push first.toNat (readBody rest)

/-! ## Values -/

def skip (text : List Char) : List Char := text.dropWhile (fun c => c.toNat ∈ [32, 9, 10, 13])

/-- A field set in a dictionary keeps its place. -/
def putField (fields : List (List Nat × Value)) (key : List Nat) (value : Value) :
    List (List Nat × Value) :=
  if fields.any (fun field => field.1 = key) then
    fields.map (fun field => if field.1 = key then (key, value) else field)
  else fields ++ [(key, value)]

/-- The words that are values. -/
def readWord (text : List Char) : Option (Value × List Char) :=
  [("null", Value.null), ("true", .bool true), ("false", .bool false), ("NaN", .float .nan),
    ("Infinity", .float .infinite), ("-Infinity", .float .infinite)].findSome? (fun word =>
      if word.1.toList.isPrefixOf text then some (word.2, text.drop word.1.length) else none)

def readPlain (text : List Char) : Except Fault (Value × List Char) :=
  let found := match readWord text with
    | some found => some found
    | none =>
      match text with
      | '-' :: rest => readNumeral true rest
      | _ => readNumeral false text
  match found with
  | some found => .ok found
  | none => .error .decode

section Read
variable (limit : Nat)

mutual
/-- A value at a depth. The fuel is more than the characters left. -/
def readValue : Nat → Nat → List Char → Except Fault (Value × List Char)
  | 0, _, _ => .error .decode
  | _ + 1, _, [] => .error .decode
  | fuel + 1, depth, first :: rest =>
    if first = quote then
      match readBody rest with
      | some (points, rest) => .ok (.str points, rest)
      | none => .error .decode
    else if first = '\x7b' then
      if limit ≤ depth then .error .recursion
      else
        match skip rest with
        | '\x7d' :: rest => .ok (.obj [], rest)
        | text => readFields fuel (depth + 1) [] text
    else if first = '[' then
      if limit ≤ depth then .error .recursion
      else
        match skip rest with
        | ']' :: rest => .ok (.arr [], rest)
        | text => readItems fuel (depth + 1) [] text
    else readPlain (first :: rest)

def readFields : Nat → Nat → List (List Nat × Value) → List Char → Except Fault (Value × List Char)
  | 0, _, _, _ => .error .decode
  | _ + 1, _, _, [] => .error .decode
  | fuel + 1, depth, fields, first :: rest =>
    if first = quote then
      match readBody rest with
      | none => .error .decode
      | some (key, rest) =>
        match skip rest with
        | ':' :: rest =>
          match readValue fuel depth (skip rest) with
          | .error fault => .error fault
          | .ok (value, rest) =>
            match skip rest with
            | '\x7d' :: rest => .ok (.obj (putField fields key value), rest)
            | ',' :: rest => readFields fuel depth (putField fields key value) (skip rest)
            | _ => .error .decode
        | _ => .error .decode
    else .error .decode

def readItems : Nat → Nat → List Value → List Char → Except Fault (Value × List Char)
  | 0, _, _, _ => .error .decode
  | fuel + 1, depth, items, text =>
    match readValue fuel depth text with
    | .error fault => .error fault
    | .ok (value, rest) =>
      match skip rest with
      | ']' :: rest => .ok (.arr (items ++ [value]), rest)
      | ',' :: rest => readItems fuel depth (items ++ [value]) (skip rest)
      | _ => .error .decode
end

/-- `json.loads`. -/
def loads (text : List Char) : Except Fault Value :=
  match readValue limit (text.length + 1) 0 (skip text) with
  | .error fault => .error fault
  | .ok (value, rest) => if skip rest = [] then .ok value else .error .decode

end Read

/-! ## Strings that are written -/

/-- `json.dumps` of a code point. -/
def escape (n : Nat) : List Char :=
  if isHigh n || isLow n then Quoted.unit n else Quoted.escape (Char.ofNat n)

def writeString (points : List Nat) : List Char := quote :: points.flatMap escape ++ [quote]

/-! ## Reading what was written -/

/-- What a string can hold: no two of its code points would be read as one. -/
structure Points (points : List Nat) : Prop where
  range : ∀ n ∈ points, n < 1114112
  paired : points.IsChain (fun n next => (isHigh n && isLow next) = false)

variable {n : Nat} {points : List Nat} {text rest : List Char}

theorem isLow_of_isHigh (high : isHigh n = true) : isLow n = false := by
  simp only [isHigh, isLow, Bool.and_eq_true, decide_eq_true_eq, Bool.and_eq_false_iff,
    decide_eq_false_iff_not] at high ⊢
  omega

theorem isHigh_of_isLow (low : isLow n = true) : isHigh n = false := by
  cases high : isHigh n with
  | false => rfl
  | true => exact absurd low (by rw [isLow_of_isHigh high]; decide)

/-- Above the surrogates nothing is half of a pair. -/
theorem isHigh_above (above : 57344 ≤ n) : isHigh n = false := by
  simp only [isHigh, Bool.and_eq_false_iff, decide_eq_false_iff_not]
  omega

theorem join_range (high : isHigh n = true) {low : Nat} (isLow' : isLow low = true) :
    65536 ≤ join n low ∧ join n low < 1114112 := by
  simp only [isHigh, isLow, Bool.and_eq_true, decide_eq_true_eq] at high isLow'
  unfold join
  omega

theorem cons_of_paired (valid : Points (n :: points)) : cons n points = n :: points := by
  cases points with
  | nil => rfl
  | cons next points =>
    have apart := List.isChain_cons_cons.mp valid.paired
    rw [cons, apart.1]
    rfl

theorem cons_plain (plain : isHigh n = false) (points : List Nat) : cons n points = n :: points := by
  cases points with
  | nil => rfl
  | cons next points =>
    rw [cons, plain]
    rfl

theorem cons_pair (high : isHigh n = true) {low : Nat} (isLow' : isLow low = true) (points : List Nat) :
    cons n (low :: points) = join n low :: points := by
  rw [cons, high, isLow']
  rfl

theorem Points.cons (valid : Points points) (range : n < 1114112) : Points (cons n points) := by
  cases points with
  | nil => exact ⟨by simpa [JsonText.cons] using range, List.isChain_singleton _⟩
  | cons next points =>
    rw [JsonText.cons]
    split
    · rename_i pair
      obtain ⟨high, low⟩ := Bool.and_eq_true_iff.mp pair
      obtain ⟨above, below⟩ := join_range high low
      constructor
      · intro m member
        rcases List.mem_cons.mp member with same | later
        · exact lt_of_eq_of_lt same below
        · exact valid.range m (List.mem_cons_of_mem _ later)
      · cases points with
        | nil => exact List.isChain_singleton _
        | cons second points =>
          refine List.isChain_cons_cons.mpr ⟨?_, (List.isChain_cons_cons.mp valid.paired).2⟩
          rw [isHigh_above (by omega)]
          rfl
    · rename_i apart
      constructor
      · intro m member
        rcases List.mem_cons.mp member with rfl | later
        · exact range
        · exact valid.range m later
      · exact List.isChain_cons_cons.mpr ⟨Bool.eq_false_iff.mpr apart, valid.paired⟩

theorem hex?_range {c : Char} (found : hex? c = some n) : n < 16 := by
  unfold hex? at found
  split at found
  · cases found
    omega
  split at found
  · cases found
    omega
  split at found
  · cases found
    omega
  · cases found

theorem unit?_range {a b c d : Char} (found : unit? a b c d = some n) : n < 65536 := by
  simp only [unit?, bind, Option.bind_eq_some_iff, pure, Option.some.injEq] at found
  obtain ⟨_, isA, _, isB, _, isC, _, isD, rfl⟩ := found
  have boundA := hex?_range isA
  have boundB := hex?_range isB
  have boundC := hex?_range isC
  have boundD := hex?_range isD
  omega

theorem push_points {found : Option (List Nat × List Char)}
    (valid : ∀ found' ∈ found, Points found'.1) (range : n < 1114112) :
    ∀ found' ∈ push n found, Points found'.1 := by
  intro found' member
  obtain ⟨earlier, isFound, rfl⟩ := Option.map_eq_some_iff.mp member
  exact (valid earlier isFound).cons range

theorem char_range (c : Char) : c.toNat < 1114112 := by
  rcases c.valid with small | ⟨_, below⟩
  · exact Nat.lt_trans small (by decide)
  · exact below

/-- A string that was read holds no pair of code points that would be read as one. -/
theorem readBody_points (text : List Char) : ∀ found ∈ readBody text, Points found.1 := by
  fun_induction readBody text with
  | case1 => nofun
  | case2 => rintro _ ⟨⟩; exact ⟨nofun, .nil⟩
  | case3 => nofun
  | case4 a b c d after n found _ ih =>
    exact push_points ih (Nat.lt_trans (unit?_range found) (by decide))
  | case5 => nofun
  | case6 letter after _ c found _ ih => exact push_points ih (char_range c)
  | case7 => nofun
  | case8 => nofun
  | case9 first rest _ _ _ ih => exact push_points ih (char_range first)

theorem unit?_text (range : n < 65536) :
    ∃ a b c d, Numeral.text 16 4 n = [a, b, c, d] ∧ unit? a b c d = some n := by
  have digit : ∀ d : Fin 16, hex? (Numeral.digitChar d.val) = some d.val := by decide
  have reads (m : Nat) : hex? (Numeral.digitChar (m % 16)) = some (m % 16) :=
    digit ⟨m % 16, Nat.mod_lt _ (by decide)⟩
  refine ⟨_, _, _, _, rfl, ?_⟩
  simp only [unit?, reads, bind, Option.bind_some, pure, Option.some.injEq]
  omega

theorem readBody_unit (range : n < 65536) (rest : List Char) :
    readBody (Quoted.unit n ++ rest) = push n (readBody rest) := by
  obtain ⟨a, b, c, d, written, reads⟩ := unit?_text range
  have shape : Quoted.unit n ++ rest = slash :: 'u' :: a :: b :: c :: d :: rest := by
    rw [Quoted.unit, written]
    rfl
  rw [shape, readBody, if_neg (by decide), if_pos rfl]
  simp only [reads]

theorem readBody_letter {c letter : Char} (found : Quoted.letters.lookup c = some letter)
    (rest : List Char) :
    readBody (slash :: letter :: rest) = push c.toNat (readBody rest) := by
  have known : (c, letter) ∈ Quoted.letters := by
    obtain ⟨before, after, same, _⟩ := List.lookup_eq_some_iff.mp found
    rw [same]
    exact List.mem_append_right _ List.mem_cons_self
  simp only [Quoted.letters, List.mem_cons, Prod.mk.injEq, List.not_mem_nil, or_false] at known
  rcases known with ⟨rfl, rfl⟩ | ⟨rfl, rfl⟩ | ⟨rfl, rfl⟩ | ⟨rfl, rfl⟩ | ⟨rfl, rfl⟩ | ⟨rfl,
    rfl⟩ | ⟨rfl, rfl⟩ <;> rfl

/-- A pair of surrogates is one character. -/
theorem push_pair {found : Option (List Nat × List Char)} (above : 65536 ≤ n) (below : n < 1114112) :
    push (55296 + (n - 65536) / 1024) (push (56320 + (n - 65536) % 1024) found) = push n found := by
  have high : isHigh (55296 + (n - 65536) / 1024) = true := by
    rw [isHigh, Bool.and_eq_true, decide_eq_true_eq, decide_eq_true_eq]
    omega
  have low : isLow (56320 + (n - 65536) % 1024) = true := by
    rw [isLow, Bool.and_eq_true, decide_eq_true_eq, decide_eq_true_eq]
    omega
  have whole : join (55296 + (n - 65536) / 1024) (56320 + (n - 65536) % 1024) = n := by
    unfold join
    omega
  cases found with
  | none => rw [push, push, push, Option.map_none, Option.map_none, Option.map_none]
  | some found =>
    have joined (points : List Nat) :
        cons (55296 + (n - 65536) / 1024) (cons (56320 + (n - 65536) % 1024) points) =
          cons n points := by
      rw [cons_plain (isHigh_of_isLow low), cons_pair high low, whole,
        cons_plain (isHigh_above (Nat.le_trans (by decide) above))]
    rw [push, push, push, Option.map_some, Option.map_some, Option.map_some, joined]

theorem readBody_escape (range : n < 1114112) (rest : List Char) :
    readBody (escape n ++ rest) = push n (readBody rest) := by
  unfold escape
  split
  · rename_i half
    refine readBody_unit ?_ rest
    simp only [isHigh, isLow, Bool.or_eq_true, Bool.and_eq_true, decide_eq_true_eq] at half
    omega
  · rename_i whole
    have valid : n.isValidChar := by
      simp only [isHigh, isLow, Bool.or_eq_true, Bool.and_eq_true, decide_eq_true_eq] at whole
      simp only [Nat.isValidChar]
      omega
    have same : (Char.ofNat n).toNat = n := by rw [Char.ofNat, dif_pos valid]; rfl
    unfold Quoted.escape
    split
    · rename_i letter found
      exact same ▸ readBody_letter found rest
    · rename_i unlisted
      have apart := List.lookup_eq_none_iff.mp unlisted
      have plain : Char.ofNat n ≠ quote ∧ Char.ofNat n ≠ slash := by
        have first := apart (quote, quote) (by simp [Quoted.letters])
        have second := apart (slash, slash) (by simp [Quoted.letters])
        exact ⟨by simpa using first, by simpa using second⟩
      rw [same]
      split
      · rename_i printable
        rw [List.singleton_append, readBody.eq_def]
        simp only [if_neg plain.1, if_neg plain.2, same]
        rw [if_neg (by omega)]
      split
      · rename_i small
        exact readBody_unit small rest
      · rw [List.append_assoc, readBody_unit (by omega), readBody_unit (by omega),
          push_pair (by omega) range]

/-- A string is read back. -/
theorem readBody_writeString (valid : Points points) (rest : List Char) :
    readBody (points.flatMap escape ++ quote :: rest) = some (points, rest) := by
  induction points with
  | nil =>
    rw [List.flatMap_nil, List.nil_append, readBody.eq_def]
    rfl
  | cons n points ih =>
    have later : Points points :=
      ⟨fun m member => valid.range m (List.mem_cons_of_mem _ member), valid.paired.tail⟩
    rw [List.flatMap_cons, List.append_assoc,
      readBody_escape (valid.range n List.mem_cons_self), ih later]
    exact congrArg (fun found => some (found, rest)) (cons_of_paired valid)

/-- The strings of a value and of its fields hold what a string can hold. -/
def Value.Sound : Value → Prop
  | .str points => Points points
  | .obj fields => ∀ field ∈ fields, ∀ points, field.2 = .str points → Points points
  | _ => True

theorem empty_sound : (Value.obj []).Sound := fun _ member => absurd member List.not_mem_nil

theorem readWord_sound {found : Value × List Char} (isWord : readWord text = some found) :
    found.1.Sound := by
  obtain ⟨word, member, same⟩ := List.exists_of_findSome?_eq_some isWord
  split at same
  · cases same
    simp only [List.mem_cons, List.not_mem_nil, or_false] at member
    rcases member with rfl | rfl | rfl | rfl | rfl | rfl <;> exact trivial
  · cases same

theorem readNumeral_sound {negative : Bool} {found : Value × List Char}
    (isNumeral : readNumeral negative text = some found) :
    found.1.Sound := by
  unfold readNumeral at isNumeral
  dsimp only at isNumeral
  split at isNumeral
  · cases isNumeral
  · generalize text.drop (wholeDigits text).length = rest at isNumeral
    split at isNumeral
    · cases isNumeral
      exact trivial
    · split at isNumeral
      · cases isNumeral
        exact trivial
      · split at isNumeral
        · cases isNumeral
        · cases isNumeral
          exact trivial

theorem readPlain_sound {value : Value} (isPlain : readPlain text = .ok (value, rest)) :
    value.Sound := by
  unfold readPlain at isPlain
  dsimp only at isPlain
  cases word : readWord text with
  | some found =>
    rw [word] at isPlain
    cases isPlain
    exact readWord_sound word
  | none =>
    rw [word] at isPlain
    dsimp only at isPlain
    split at isPlain
    · rename_i found numeral
      cases isPlain
      split at numeral
      · exact readNumeral_sound numeral
      · exact readNumeral_sound numeral
    · cases isPlain

theorem putField_sound {fields : List (List Nat × Value)} {value : Value} (key : List Nat)
    (sound : (Value.obj fields).Sound) (isSound : value.Sound) :
    (Value.obj (putField fields key value)).Sound := by
  have own (points : List Nat) (same : value = .str points) : Points points := by
    subst same
    exact isSound
  intro field member points isString
  unfold putField at member
  split at member
  · obtain ⟨old, isOld, rfl⟩ := List.mem_map.mp member
    split at isString
    · exact own points isString
    · exact sound old isOld points isString
  · rcases List.mem_append.mp member with old | new
    · exact sound field old points isString
    · cases List.mem_singleton.mp new
      exact own points isString

/-- Each of the three readers, for the fuel it has. -/
theorem read_sound (limit fuel : Nat) :
    (∀ depth text value rest, readValue limit fuel depth text = .ok (value, rest) → value.Sound) ∧
    (∀ depth fields text value rest, (Value.obj fields).Sound →
      readFields limit fuel depth fields text = .ok (value, rest) →
      value.Sound) ∧
    (∀ depth items text value rest, readItems limit fuel depth items text = .ok (value, rest) →
      value.Sound) := by
  induction fuel with
  | zero =>
    refine ⟨fun _ _ _ _ read => ?_, fun _ _ _ _ _ _ read => ?_, fun _ _ _ _ _ read => ?_⟩
    · cases read
    · cases read
    · cases read
  | succ fuel ih =>
    obtain ⟨values, objects, lists⟩ := ih
    refine ⟨fun depth text value rest read => ?_, fun depth fields text value rest sound read => ?_,
      fun depth items text value rest read => ?_⟩
    · cases text with
      | nil => cases read
      | cons first later =>
        rw [readValue] at read
        split at read
        · split at read
          · rename_i isString
            cases read
            exact readBody_points later _ isString
          · cases read
        split at read
        · split at read
          · cases read
          split at read
          · cases read
            exact empty_sound
          · exact objects _ _ _ _ _ empty_sound read
        split at read
        · split at read
          · cases read
          split at read
          · cases read
            exact trivial
          · exact lists _ _ _ _ _ read
        · exact readPlain_sound read
    · cases text with
      | nil => cases read
      | cons first later =>
        rw [readFields] at read
        split at read
        · split at read
          · cases read
          split at read
          · split at read
            · cases read
            · rename_i value' rest' isValue
              have isSound := putField_sound (by assumption) sound (values _ _ _ _ isValue)
              split at read
              · cases read
                exact isSound
              · exact objects _ _ _ _ _ isSound read
              · cases read
          · cases read
        · cases read
    · rw [readItems] at read
      split at read
      · cases read
      split at read
      · cases read
        exact trivial
      · exact lists _ _ _ _ _ read
      · cases read

theorem loads_sound {limit : Nat} {value : Value} (loaded : loads limit text = .ok value) :
    value.Sound := by
  unfold loads at loaded
  split at loaded
  · cases loaded
  · rename_i read
    split at loaded
    · cases loaded
      exact (read_sound limit _).1 _ _ _ _ read
    · cases loaded

end JsonText
