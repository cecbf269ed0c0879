import LocalFlow.Library.Scan
import LocalFlow.Storage.Drafts
import Mathlib.Data.List.Chain

/-! The verdict on a complete simulator log. The log arrives in chunks; the scanner keeps a short
tail of it and the head of the current line. -/
namespace LocalFlow
namespace Results
open Scanning

/-- The value of a character of the class `\d`. -/
def decimal (c : Char) : Option Nat := Numeral.decimalDigit c.toNat

def isDecimal (c : Char) : Bool := (decimal c).isSome

def value (digits : List Char) : Nat := digits.foldl (fun n c => 10 * n + (decimal c).getD 0) 0

/-- `int` on a run of digits. -/
def int (digits : List Char) : Except String Nat :=
  if 4300 < digits.length then
    throw ("Exceeds the limit (4300 digits) for integer string conversion: value has " ++
      toString digits.length ++
      " digits; use sys.set_int_max_str_digits() to increase the limit")
  else pure (value digits)

/-- How `re.IGNORECASE` compares a character with an ASCII one. -/
def folded (c : Char) : Char :=
  if c = '\u0131' ∨ c = '\u0130' then 'i' else if c = '\u017f' then 's'
    else if c = '\u212a' then 'k' else c.toLower

/-- `str.upper` on what `folded` takes for an ASCII letter. -/
def upper (c : Char) : Char :=
  if c = '\u0131' then 'I' else if c = '\u017f' then 'S' else c.toUpper

/-- `re.sub(r"\s+", " ", text)`, inside a run or not. -/
def compactFrom : Bool → List Char → List Char
  | _, [] => []
  | inside, c :: rest =>
    if isSpace c then if inside then compactFrom true rest else ' ' :: compactFrom true rest
    else c :: compactFrom false rest

def compact (text : List Char) : List Char := compactFrom false text

/-- What is left after a literal of an expression that ignores case. -/
def literal : List Char → List Char → Option (List Char)
  | [], text => some text
  | _ :: _, [] => none
  | p :: pattern, c :: text => if folded c = folded p then literal pattern text else none

inductive Event where
  | header
  | count (name digits : List Char)

def Event.isCount : Event → Bool
  | .header => false
  | .count _ _ => true

def reportHeader : List Char := "UVM Report Summary".toList

def severities : List (List Char) := ["INFO".toList, "WARNING".toList, "ERROR".toList, "FATAL".toList]

/-- `_EVENT.match`, with the length of the match. -/
def event (text : List Char) : Option (Event × Nat) :=
  if (literal reportHeader text).isSome then some (.header, reportHeader.length)
  else
    match literal "UVM_".toList text with
    | none => none
    | some named =>
      match severities.findSome? (fun severity => literal severity named) with
      | none => none
      | some rest =>
        match rest.dropWhile isSpace with
        | ':' :: more =>
          let number := more.dropWhile isSpace
          let digits := number.takeWhile isDecimal
          if digits = [] then none
          else some (.count (named.take (named.length - rest.length)) digits,
            text.length - (number.dropWhile isDecimal).length)
        | _ => none

structure SummaryScan where
  pending : List Char
  counts : List (List Char × Nat)
  reports : Nat

namespace SummaryScan

def start : SummaryScan := ⟨[], [], 0⟩

def record (scan : SummaryScan) : Event → Except String SummaryScan
  | .header => pure { scan with counts := [], reports := scan.reports + 1 }
  | .count name digits => do
    let count ← int digits
    pure { scan with counts := (name.map upper, count) :: scan.counts }

/-- The loop of `feed`. -/
def feedLoop (final : Bool) (length : Nat) :
    List (Match Event) → Nat → SummaryScan → Except String (Nat × SummaryScan)
  | [], boundary, scan => pure (boundary, scan)
  | found :: rest, boundary, scan =>
    if final = false ∧ found.token.isCount = true ∧ found.stop = length then
      pure (min boundary found.start, scan)
    else do
      let scan ← scan.record found.token
      feedLoop final length rest (max boundary found.stop) scan

def feed (scan : SummaryScan) (text : List Char) (final : Bool) : Except String SummaryScan := do
  let text := compact (scan.pending ++ compact text)
  let (boundary, scan) ← feedLoop final text.length (finditer event 0 0 text)
    (if final then text.length else text.length - 128) scan
  let pending := text.drop boundary
  if 4096 < pending.length then throw "UVM summary count exceeds supported integer size"
  else pure { scan with pending }

/-- `counts.get(severity)`. -/
def get? (scan : SummaryScan) (severity : List Char) : Option Nat := scan.counts.lookup severity

end SummaryScan

/-- `\s*:`. -/
def colon (text : List Char) : Bool := (text.dropWhile isSpace).head? = some ':'

/-- `-|\s*:\s*`. -/
def divider (text : List Char) : Bool := (literal ['-'] text).isSome || colon text

/-- `_FATAL.match`. -/
def isFatal (line : List Char) : Bool :=
  let text := line.dropWhile isSpace
  (literal "Fatal".toList text).any divider || (literal "Error-[NOA]".toList text).isSome ||
    (literal "*F,".toList text).isSome

/-- `_ERROR.match`. -/
def isError (line : List Char) : Bool :=
  let text := line.dropWhile isSpace
  (literal "Error".toList text).any divider || (literal "*E,".toList text).isSome

/-- The part of a line that decides. -/
def lineHead (line : List Char) : List Char := ((compact line).dropWhile isSpace).take 128

inductive VcsStatus where
  | passed | error | fatal
  deriving DecidableEq

/-- The variables of `evaluate_vcs_chunks`. -/
structure VcsScan where
  summary : SummaryScan
  fatal : Nat
  error : Nat
  line : List Char
  lastReports : Nat

namespace VcsScan

def start : VcsScan := ⟨.start, 0, 0, [], 0⟩

def reset (scan : VcsScan) (summary : SummaryScan) : VcsScan :=
  if summary.reports = scan.lastReports then { scan with summary }
  else { scan with
    summary
    fatal := 0
    error := 0
    lastReports := summary.reports }

def consume (scan : VcsScan) (segment : List Char) (endLine : Bool) : Except String VcsScan := do
  let summary ← scan.summary.feed (segment ++ if endLine then ['\n'] else []) false
  let scan := scan.reset summary
  let line := lineHead (scan.line ++ compact segment)
  if endLine then
    pure { scan with
      fatal := scan.fatal + (isFatal line).toNat
      error := scan.error + (isError line).toNat
      line := [] }
  else pure { scan with line }

def consumeChunk (scan : VcsScan) (chunk : List Char) : Except String VcsScan := do
  let parts := chunk.splitOn '\n'
  let scan ← parts.dropLast.foldlM (fun scan segment => scan.consume segment true) scan
  scan.consume (parts.getLastD []) false

/-- The decisions at the end. -/
def result (scan : VcsScan) : Except String (VcsStatus × Nat) :=
  let fatals := scan.summary.get? "FATAL".toList
  let errors := scan.summary.get? "ERROR".toList
  if fatals.getD 0 ≠ 0 ∨ scan.fatal ≠ 0 then pure (.fatal, fatals.getD 0 + scan.fatal)
  else if errors.getD 0 ≠ 0 ∨ scan.error ≠ 0 then pure (.error, errors.getD 0 + scan.error)
  else if (scan.summary.reports ≠ 0 ∨ scan.summary.counts ≠ []) ∧ ¬ (errors.isSome ∧ fatals.isSome) then
    throw "final UVM report is incomplete: ERROR and FATAL counts are required"
  else pure (.passed, 0)

end VcsScan

def evaluateVcsChunks (chunks : List (List Char)) : Except String (VcsStatus × Nat) := do
  let scan ← chunks.foldlM VcsScan.consumeChunk .start
  let scan ← scan.consume [] true
  let summary ← scan.summary.feed [] true
  VcsScan.result { scan with summary }

section Reference

/-- The events of a whole text. -/
def events (text : List Char) : List Event := (finditer event 0 0 (compact text)).map Match.token

/-- How many reports a text has begun. -/
def reports (text : List Char) : Nat := (events text).countP (fun e => !e.isCount)

/-- The counts of the last report. -/
def lastReport (text : List Char) : List Event :=
  ((events text).reverse.takeWhile Event.isCount).reverse

def countOf (severity : String) : Event → Option Nat
  | .header => none
  | .count name digits => if name.map folded = severity.toList.map folded then
      some (value digits) else none

/-- The last count of a severity. -/
def lastCount (severity : String) (report : List Event) : Option Nat :=
  (report.filterMap (countOf severity)).getLast?

/-- The lines that match and end when the last report header is complete. -/
def lineCount (matching : List Char → Bool) (text : List Char) : Nat :=
  (text.splitOn '\n').inits.tail.countP (fun lines =>
    reports (['\n'].intercalate lines) = reports text ∧ matching (lineHead (lines.getLastD [])) = true)

/-- The verdict on a whole text. -/
def verdict (text : List Char) : Except String (VcsStatus × Nat) :=
  let report := lastReport text
  let fatals := (lastCount "fatal" report).getD 0 + lineCount isFatal text
  let errors := (lastCount "error" report).getD 0 + lineCount isError text
  if 0 < fatals then pure (.fatal, fatals)
  else if 0 < errors then pure (.error, errors)
  else if (0 < reports text ∨ report ≠ []) ∧
      ¬ ((lastCount "error" report).isSome ∧ (lastCount "fatal" report).isSome) then
    throw "final UVM report is incomplete: ERROR and FATAL counts are required"
  else pure (.passed, 0)

end Reference

section Characters
variable {c p q : Char}

theorem lower_cases (shift : q.val + 32 = p.val) (same : c.toLower = p) : c = p ∨ c = q := by
  unfold Char.toLower at same
  split at same
  · have moved : c.val + 32 = q.val + 32 := (congrArg Char.val same).trans shift.symm
    refine .inr (Char.ext ?_)
    calc c.val = c.val + 32 - 32 := (UInt32.add_sub_cancel _ _).symm
      _ = q.val + 32 - 32 := by rw [moved]
      _ = q.val := UInt32.add_sub_cancel _ _
  · exact .inl same

theorem upper_cases (shift : q.val + 32 = p.val) (same : c.toUpper = q) : c = p ∨ c = q := by
  unfold Char.toUpper at same
  split at same
  · have moved := Char.ext_iff.mp same
    have wraps : ('A'.val - 'a'.val) + 32 = 0 := by decide
    refine .inl (Char.ext ?_)
    rw [← shift, ← moved, UInt32.add_assoc, wraps, UInt32.add_zero]
  · exact .inr same

/-- What an expression takes for a letter that has no other forms. -/
theorem folded_cases (shift : q.val + 32 = p.val) (plain : p ≠ 'i' ∧ p ≠ 's' ∧ p ≠ 'k')
    (same : folded c = p) : c = p ∨ c = q := by
  unfold folded at same
  split at same
  · exact absurd same.symm plain.1
  · split at same
    · exact absurd same.symm plain.2.1
    · split at same
      · exact absurd same.symm plain.2.2
      · exact lower_cases shift same

theorem raised_cases (shift : q.val + 32 = p.val) (plain : q ≠ 'I' ∧ q ≠ 'S') (same : upper c = q) :
    c = p ∨ c = q := by
  unfold upper at same
  split at same
  · exact absurd same.symm plain.1
  · split at same
    · exact absurd same.symm plain.2
    · exact upper_cases shift same

/-- No digit is a space. -/
theorem decimal_solid (digit : isDecimal c = true) : isSpace c = false := by
  have apart : Numeral.decimalZeros.all
    (fun first => [9, 10, 11, 12, 13, 28, 29, 30, 31, 32, 0x85, 0xA0, 0x1680, 0x2028, 0x2029,
      0x202F, 0x205F, 0x3000].all (fun space => space < first || first + 9 < space) &&
      (first + 9 < 0x2000 || 0x200A < first)) = true := by
    decide
  obtain ⟨value, found⟩ := Option.isSome_iff_exists.mp digit
  obtain ⟨first, member, within⟩ := List.exists_of_findSome?_eq_some found
  split at within
  · rename_i range
    have clear := List.all_eq_true.mp apart first member
    rw [Bool.and_eq_true, List.all_eq_true, Bool.or_eq_true, decide_eq_true_eq,
      decide_eq_true_eq] at clear
    rw [isSpace, Bool.or_eq_false_iff, decide_eq_false_iff_not, Bool.and_eq_false_iff]
    constructor
    · intro space
      have outside := clear.1 _ space
      rw [Bool.or_eq_true, decide_eq_true_eq, decide_eq_true_eq] at outside
      omega
    · rw [decide_eq_false_iff_not, decide_eq_false_iff_not]
      have outside := clear.2
      omega
  · cases within

/-- The first letter of an event is neither a space nor a digit nor the colon. -/
theorem folded_u (same : folded c = 'u') : isSpace c = false ∧ isDecimal c = false ∧ c ≠ ':' := by
  obtain rfl | rfl := @folded_cases c 'u' 'U' rfl (by decide) same
  · decide
  · decide

end Characters

section Grammar
variable {s y p w rest : List Char} {e : Event} {n : Nat}

theorem literal_append (same : w.map folded = p.map folded) (rest : List Char) :
    literal p (w ++ rest) = some rest := by
  induction p generalizing w with
  | nil =>
    obtain rfl := List.map_eq_nil_iff.mp same
    rfl
  | cons first pattern ih =>
    cases w with
    | nil => cases same
    | cons c w =>
      rw [List.map_cons, List.map_cons, List.cons.injEq] at same
      rw [List.cons_append, literal, if_pos same.1]
      exact ih same.2

theorem literal_some (same : literal p s = some rest) :
    ∃ w, s = w ++ rest ∧ w.map folded = p.map folded := by
  induction p generalizing s with
  | nil =>
    cases same
    exact ⟨[], rfl, rfl⟩
  | cons first pattern ih =>
    cases s with
    | nil => cases same
    | cons c s =>
      rw [literal] at same
      split at same
      · rename_i equal
        obtain ⟨w, rfl, folds⟩ := ih same
        exact ⟨c :: w, rfl, by rw [List.map_cons, List.map_cons, equal, folds]⟩
      · cases same

/-- A text that is an event as a whole. -/
inductive Body : Event → List Char → Prop where
  | header (w : List Char) (word : w.map folded = reportHeader.map folded) : Body .header w
  | count (u name blank blank' digits severity : List Char)
      (word : u.map folded = "UVM_".toList.map folded)
      (listed : severity ∈ severities) (named : name.map folded = severity.map folded)
      (blanks : ∀ c ∈ blank, isSpace c = true) (blanks' : ∀ c ∈ blank', isSpace c = true)
        (some_digit : digits ≠ [])
      (decimals : ∀ c ∈ digits, isDecimal c = true) :
      Body (.count name digits) (u ++ (name ++ (blank ++ ':' :: (blank' ++ digits))))

/-- What may follow an event. -/
def Stops (e : Event) (rest : List Char) : Prop :=
  e.isCount = true → ∀ c, rest.head? = some c → isDecimal c = false

theorem body_length (body : Body e w) : 0 < w.length := by
  cases body with
  | header w word =>
    have length := congrArg List.length word
    rw [List.length_map, List.length_map] at length
    rw [length]
    decide
  | count =>
    rw [List.length_append, List.length_append, List.length_append, List.length_cons]
    omega

theorem dropWhile_blanks {blank : List Char} (blanks : ∀ c ∈ blank, isSpace c = true)
    (rest : List Char) :
    (blank ++ rest).dropWhile isSpace = rest.dropWhile isSpace := List.dropWhile_append_of_pos blanks

theorem event_body (same : event s = some (e, n)) :
    ∃ w rest, s = w ++ rest ∧ n = w.length ∧ Body e w ∧ Stops e rest := by
  unfold event at same
  split at same
  · rename_i header
    cases same
    obtain ⟨rest, read⟩ := Option.isSome_iff_exists.mp header
    obtain ⟨w, rfl, word⟩ := literal_some read
    have length := congrArg List.length word
    rw [List.length_map, List.length_map] at length
    exact ⟨w, rest, rfl, length.symm, .header w word, fun counts => nomatch counts⟩
  · split at same
    · cases same
    · rename_i named read
      obtain ⟨u, rfl, word⟩ := literal_some read
      split at same
      · cases same
      · rename_i rest listed
        obtain ⟨severity, member, spelled⟩ := List.exists_of_findSome?_eq_some listed
        obtain ⟨name, rfl, isName'⟩ := literal_some spelled
        split at same
        · rename_i more isMore
          dsimp only at same
          split at same
          · cases same
          · rename_i some_digit
            cases same
            have isRest : rest = rest.takeWhile isSpace ++ ':' :: more := by
              rw [← isMore, List.takeWhile_append_dropWhile]
            have isMore' : more = more.takeWhile isSpace ++ more.dropWhile isSpace :=
              List.takeWhile_append_dropWhile.symm
            generalize more.dropWhile isSpace = number at isMore' some_digit
            have isNumber : number = number.takeWhile isDecimal ++ number.dropWhile isDecimal :=
              List.takeWhile_append_dropWhile.symm
            have isName : (name ++ rest).take ((name ++ rest).length - rest.length) = name := by
              rw [List.length_append, Nat.add_sub_cancel, List.take_left]
            have whole : u ++ (name ++ rest) = u ++
              (name ++ (rest.takeWhile isSpace ++ ':' :: (more.takeWhile isSpace ++
                number.takeWhile isDecimal))) ++ number.dropWhile isDecimal := by
              simp only [List.append_assoc, List.cons_append]
              rw [← isNumber, ← isMore', ← isRest]
            rw [isName]
            refine ⟨_, _, whole, ?_, ?_, fun _ c first => ?_⟩
            · rw [whole, List.length_append, Nat.add_sub_cancel]
            · exact .count _ _ _ _ _ severity word member isName' (fun c => List.mem_takeWhile_imp)
                (fun c => List.mem_takeWhile_imp)
                some_digit (fun c => List.mem_takeWhile_imp)
            · have stop := List.head?_dropWhile_not isDecimal number
              rw [first] at stop
              exact stop
        · cases same

/-- A literal whose first letter is another one is not there. -/
theorem literal_other (other : p.head?.map folded ≠ s.head?.map folded) (some_letter : p ≠ []) :
    literal p s = none := by
  cases p with
  | nil => exact absurd rfl some_letter
  | cons first p =>
    cases s with
    | nil => rfl
    | cons c s => exact if_neg (fun same => other (congrArg some same.symm))

/-- The name of a severity is not taken for another one. -/
theorem severity_read {name severity : List Char} (listed : severity ∈ severities)
    (named : name.map folded = severity.map folded)
    (rest : List Char) :
    severities.findSome? (fun severity => literal severity (name ++ rest)) = some rest := by
  have read := literal_append named rest
  have some_letter : ∀ severity ∈ severities, severity ≠ [] := by decide
  have head : (name ++ rest).head?.map folded = severity.head?.map folded := by
    cases name with
    | nil => exact absurd (List.map_eq_nil_iff.mp named.symm) (some_letter severity listed)
    | cons c name =>
      have heads := congrArg List.head? named
      rw [List.head?_map, List.head?_map] at heads
      exact heads
  have distinct : ∀ a ∈ severities, ∀ b ∈ severities, a ≠ b →
    a.head?.map folded ≠ b.head?.map folded := by decide
  have other : ∀ a ∈ severities, a ≠ severity → literal a (name ++ rest) = none :=
    fun a member differs =>
    literal_other (head ▸ distinct a member severity listed differs) (some_letter a member)
  have reads : ∀ listed : List (List Char), severity ∈ listed → (∀ a ∈ listed, a ∈ severities) →
      listed.findSome? (fun severity => literal severity (name ++ rest)) = some rest := by
    intro listed member among
    induction listed with
    | nil => cases member
    | cons a more ih =>
      rw [List.findSome?_cons]
      by_cases same : a = severity
      · rw [same, read]
      · rw [other a (among a (List.mem_cons_self ..)) same]
        exact ih ((List.mem_cons.mp member).resolve_left (fun equal => same equal.symm))
          (fun b later => among b (List.mem_cons_of_mem _ later))
  exact reads severities listed (fun a member => member)

theorem body_event (body : Body e w) (stops : Stops e rest) :
    event (w ++ rest) = some (e, w.length) := by
  cases body with
  | header w word =>
    have length := congrArg List.length word
    rw [List.length_map, List.length_map] at length
    unfold event
    rw [literal_append word, length]
    rfl
  | count u name blank blank' digits severity word listed named blanks blanks' some_digit decimals =>
    have unread : literal reportHeader (u ++ (name ++ (blank ++ ':' :: (blank' ++ digits))) ++ rest) =
        none := by
      rw [Option.eq_none_iff_forall_not_mem]
      intro rest' read
      -- the fourth letter tells a header from a count
      obtain ⟨w, same, header⟩ := literal_some read
      have heads := congrArg (fun text => (text.map folded).take 4) same
      simp only [List.map_append, word, header, List.append_assoc] at heads
      rw [List.take_append_of_le_length (by decide), List.take_append_of_le_length (by decide)] at heads
      revert heads
      decide
    have text : u ++ (name ++ (blank ++ ':' :: (blank' ++ digits))) ++ rest =
        u ++ (name ++ (blank ++ ':' :: (blank' ++ (digits ++ rest)))) := by
      simp only [List.append_assoc, List.cons_append]
    have isNumber : (blank' ++ (digits ++ rest)).dropWhile isSpace = digits ++ rest := by
      rw [dropWhile_blanks blanks']
      cases digits with
      | nil => exact absurd rfl some_digit
      | cons d more =>
        exact List.dropWhile_cons_of_neg
          (Bool.eq_false_iff.mp (decimal_solid (decimals d (List.mem_cons_self ..))))
    have isDigits : (digits ++ rest).takeWhile isDecimal = digits ∧
        (digits ++ rest).dropWhile isDecimal = rest := by
      rw [List.takeWhile_append_of_pos decimals, List.dropWhile_append_of_pos decimals]
      cases rest with
      | nil => exact ⟨List.append_nil _, rfl⟩
      | cons c more =>
        have stop := Bool.eq_false_iff.mp (stops rfl c rfl)
        rw [List.takeWhile_cons_of_neg stop, List.dropWhile_cons_of_neg stop, List.append_nil]
        exact ⟨rfl, rfl⟩
    have isRest : (blank ++ ':' :: (blank' ++ (digits ++ rest))).dropWhile isSpace = ':' ::
      (blank' ++ (digits ++ rest)) := by
      rw [dropWhile_blanks blanks, List.dropWhile_cons_of_neg (by decide)]
    unfold event
    rw [unread, text, literal_append word]
    generalize isMore : blank ++ ':' :: (blank' ++ (digits ++ rest)) = more at isRest
    dsimp only
    rw [severity_read listed named]
    dsimp only
    rw [isRest]
    simp only [isNumber, isDigits.1, isDigits.2, if_neg some_digit]
    have isName : (name ++ more).take ((name ++ more).length - more.length) = name := by
      rw [List.length_append, Nat.add_sub_cancel, List.take_left]
    rw [isName, ← isMore, ← text, List.length_append, Nat.add_sub_cancel]
    rfl

theorem event_iff : event s = some (e, n) ↔ ∃ w rest, s = w ++ rest ∧ n = w.length ∧ Body e w ∧
    Stops e rest := by
  constructor
  · exact event_body
  · rintro ⟨w, rest, rfl, rfl, body, stops⟩
    exact body_event body stops

/-- Every event begins with the same two letters. -/
theorem event_letters (same : event s = some (e, n)) : (s.map folded).take 2 = ['u', 'v'] := by
  obtain ⟨w, rest, rfl, -, body, -⟩ := event_iff.mp same
  have letters : (reportHeader.map folded).take 2 = ['u', 'v'] ∧
    ("UVM_".toList.map folded).take 2 = ['u', 'v'] := by
    decide
  cases body with
  | header w word =>
    rw [List.map_append, word, List.take_append_of_le_length (by decide)]
    exact letters.1
  | count u name blank blank' digits severity word =>
    rw [List.map_append, List.map_append, word, List.append_assoc,
      List.take_append_of_le_length (by decide)]
    exact letters.2

/-- Behind its first letter a count has none with which an event begins. -/
theorem count_quiet {name digits : List Char} (body : Body (.count name digits) w) :
    ∀ c ∈ w.tail, folded c ≠ 'u' := by
  cases body with
  | count u name blank blank' digits severity word listed named blanks blanks' some_digit decimals =>
    have letters : 'u' ∉ ("UVM_".toList.map folded).tail ∧ ∀ severity ∈ severities,
      'u' ∉ severity.map folded := by
      decide
    intro c member same
    obtain ⟨solid, other, uncolon⟩ := folded_u same
    have some_u : u ≠ [] := by
      rintro rfl
      cases word
    rw [List.tail_append_of_ne_nil some_u] at member
    simp only [List.mem_append, List.mem_cons] at member
    obtain inWord | inName | inBlank | rfl | inBlank | inDigits := member
    · refine letters.1 ?_
      rw [← word, ← List.map_tail, ← same]
      exact List.mem_map_of_mem inWord
    · refine letters.2 severity listed ?_
      rw [← named, ← same]
      exact List.mem_map_of_mem inName
    · rw [blanks c inBlank] at solid
      cases solid
    · exact uncolon rfl
    · rw [blanks' c inBlank] at solid
      cases solid
    · rw [decimals c inDigits] at other
      cases other

theorem events_apart {i : Nat} (same : event s = some (e, n)) (positive : 0 < i) (inside : i < n) :
    event (s.drop i) = none := by
  rw [Option.eq_none_iff_forall_not_mem]
  rintro ⟨e', n'⟩ again
  have letters := event_letters again
  rw [List.map_drop] at letters
  have first : (s.map folded)[i]? = some 'u' := by
    have heads := congrArg List.head? letters
    rwa [List.head?_take, if_neg (by decide), List.head?_drop] at heads
  have second : (s.map folded)[i + 1]? = some 'v' := by
    have nexts := congrArg (fun text => text[1]?) letters
    rwa [List.getElem?_take_of_lt (by decide), List.getElem?_drop] at nexts
  obtain ⟨w, rest, rfl, rfl, body, -⟩ := event_iff.mp same
  rw [List.map_append] at first second
  rw [List.getElem?_append_left (by rwa [List.length_map])] at first
  cases body with
  | header w word =>
    have apart : ∀ i < 18, 0 < i → (reportHeader.map folded)[i]? = some 'u' → i + 1 < 18 ∧
        (reportHeader.map folded)[i + 1]? ≠ some 'v' := by decide
    have length : (w.map folded).length = 18 := by
      rw [word]
      decide
    rw [List.length_map] at length
    obtain ⟨below, differs⟩ := apart i (length ▸ inside) positive (word ▸ first)
    rw [List.getElem?_append_left (by rw [List.length_map, length]; exact below), word] at second
    exact differs second
  | count u name blank blank' digits severity word listed named blanks blanks' some_digit decimals =>
    rw [List.getElem?_map] at first
    obtain ⟨c, isChar, folds⟩ := Option.map_eq_some_iff.mp first
    refine count_quiet (.count u name blank blank' digits severity word listed named blanks blanks'
      some_digit decimals) c ?_ folds
    refine List.mem_of_getElem? (i := i - 1) ?_
    rw [List.getElem?_tail, Nat.sub_add_cancel positive]
    exact isChar

/-- Runs of blanks are single. -/
def Compacted (text : List Char) : Prop :=
  text.IsChain (fun a b => ¬ (isSpace a = true ∧ isSpace b = true))

theorem event_kept (y : List Char) (same : event s = some (e, n))
    (closed : n < s.length ∨ e.isCount = false) :
    event (s ++ y) = some (e, n) := by
  obtain ⟨w, rest, rfl, rfl, body, stops⟩ := event_iff.mp same
  refine event_iff.mpr ⟨w, rest ++ y, List.append_assoc .., rfl, body, fun counts c first => ?_⟩
  obtain more | never := closed
  · cases rest with
    | nil => exact absurd more (by simp)
    | cons d rest => exact stops counts c first
  · rw [counts] at never
    cases never

theorem event_found (same : event (s ++ y) = some (e, n)) (inside : n ≤ s.length) :
    event s = some (e, n) := by
  obtain ⟨w, rest, isText, rfl, body, stops⟩ := event_iff.mp same
  obtain ⟨more, rfl, rfl⟩ : ∃ more, s = w ++ more ∧ rest = more ++ y := by
    obtain ⟨more, rfl, rfl⟩ | ⟨more, rfl, rfl⟩ := List.append_eq_append_iff.mp isText
    · rw [List.length_append] at inside
      obtain rfl := List.length_eq_zero_iff.mp (show more.length = 0 by omega)
      exact ⟨[], by simp, rfl⟩
    · exact ⟨more, rfl, rfl⟩
  refine event_iff.mpr ⟨w, more, rfl, rfl, body, fun counts c first => stops counts c ?_⟩
  rw [List.head?_append, first]
  rfl

/-- A compact text that ends inside two blanks ends before the second. -/
theorem ends_before {a b : Char} {h m t : List Char} (compacted : Compacted s)
    (same : s ++ m = h ++ a :: b :: t)
    (blank : isSpace a = true) (blank' : isSpace b = true) : s.length < h.length + 2 := by
  by_contra long
  obtain ⟨more, rfl⟩ : ∃ more, s = h ++ a :: b :: more := by
    have split : s ++ m = (h ++ [a, b]) ++ t := by
      rw [same, List.append_assoc]
      rfl
    obtain ⟨more, isPair, _⟩ | ⟨more, rfl, _⟩ := List.append_eq_append_iff.mp split
    · have length := congrArg List.length isPair
      simp only [List.length_append, List.length_cons, List.length_nil] at length
      obtain rfl := List.length_eq_zero_iff.mp (show more.length = 0 by omega)
      exact ⟨[], by rw [← List.append_nil s, ← isPair]⟩
    · exact ⟨more, by rw [List.append_assoc]; rfl⟩
  exact (List.isChain_append_cons_cons.mp compacted).2.1 ⟨blank, blank'⟩

/-- What stands before the digits of a count in a compact text is short. -/
theorem head_short {u name blank blank' digits severity m : List Char} (compacted : Compacted s)
    (isWhole : s ++ m = u ++ (name ++ (blank ++ ':' :: (blank' ++ digits))))
    (word : u.map folded = "UVM_".toList.map folded)
    (listed : severity ∈ severities) (named : name.map folded = severity.map folded)
    (blanks : ∀ c ∈ blank, isSpace c = true) (blanks' : ∀ c ∈ blank', isSpace c = true) :
    s.length < 15 ∨ (u ++ (name ++ (blank ++ ':' :: blank'))).length ≤ 14 := by
  have lengthWord : u.length = 4 := by
    have length := congrArg List.length word
    rwa [List.length_map, List.length_map] at length
  have lengthName : name.length ≤ 7 := by
    have length := congrArg List.length named
    rw [List.length_map, List.length_map] at length
    have short : ∀ severity ∈ severities, severity.length ≤ 7 := by decide
    exact length ▸ short severity listed
  have single : s.length < 13 ∨ blank.length ≤ 1 := by
    match blank with
    | [] => exact .inr (Nat.zero_le _)
    | [_] => exact .inr (Nat.le_refl _)
    | a :: b :: blank =>
      have short := @ends_before s a b (u ++ name) m (blank ++ ':' :: (blank' ++ digits)) compacted
        (by rw [isWhole]; simp only [List.append_assoc, List.cons_append]) (blanks a (by simp))
          (blanks b (by simp))
      rw [List.length_append] at short
      exact .inl (by omega)
  obtain short | single := single
  · exact .inl (by omega)
  have single' : s.length < 15 ∨ blank'.length ≤ 1 := by
    match blank' with
    | [] => exact .inr (Nat.zero_le _)
    | [_] => exact .inr (Nat.le_refl _)
    | a :: b :: blank' =>
      have short := @ends_before s a b (u ++ (name ++ (blank ++ [':']))) m (blank' ++ digits) compacted
        (by rw [isWhole]; simp only [List.append_assoc, List.cons_append, List.nil_append])
        (blanks' a (by simp)) (blanks' b (by simp))
      simp only [List.length_append, List.length_cons, List.length_nil] at short
      exact .inl (by omega)
  refine single'.imp id (fun single' => ?_)
  simp only [List.length_append, List.length_cons]
  omega

/-- A count in a compact text is hardly longer than its digits. -/
theorem count_short {name digits : List Char} (compacted : Compacted w)
    (body : Body (.count name digits) w) :
    w.length ≤ 14 + digits.length := by
  cases body with
  | count u name blank blank' digits severity word listed named blanks blanks' some_digit decimals =>
    obtain short | short := head_short compacted (List.append_nil _) word listed named blanks blanks'
    · simp only [List.length_append, List.length_cons] at short ⊢
      have positive := List.length_pos_iff.mpr some_digit
      omega
    · simp only [List.length_append, List.length_cons] at short ⊢
      omega

/-- In a compact text an unfinished event is short. -/
theorem event_begun (compacted : Compacted s) (same : event (s ++ y) = some (e, n))
    (more : s.length < n) :
    s.length < 18 ∨ ∃ e', event s = some (e', s.length) := by
  obtain ⟨w, rest, isText, rfl, body, -⟩ := event_iff.mp same
  obtain ⟨m, rfl⟩ : ∃ m, w = s ++ m := by
    obtain ⟨m, rfl, _⟩ | ⟨m, rfl, _⟩ := List.append_eq_append_iff.mp isText
    · exact ⟨m, rfl⟩
    · rw [List.length_append] at more
      omega
  generalize isWhole : s ++ m = w at body
  cases body with
  | header w word =>
    have length := congrArg List.length word
    rw [List.length_map, List.length_map, ← isWhole] at length
    refine .inl (Nat.lt_of_lt_of_eq more ?_)
    rw [length]
    decide
  | count u name blank blank' digits severity word listed named blanks blanks' some_digit decimals =>
    obtain short | short := head_short compacted isWhole word listed named blanks blanks'
    · exact .inl (by omega)
    have split : s ++ m = (u ++ (name ++ (blank ++ ':' :: blank'))) ++ digits := by
      rw [isWhole]
      simp only [List.append_assoc, List.cons_append]
    obtain ⟨left, isHead, _⟩ | ⟨read, isText, rfl⟩ := List.append_eq_append_iff.mp split
    · rw [isHead, List.length_append] at short
      exact .inl (by omega)
    · by_cases unread : read = []
      · rw [unread, List.append_nil] at isText
        rw [isText]
        exact .inl (by omega)
      -- the digits that are there make a count already
      · have isBody : u ++ (name ++ (blank ++ ':' :: blank')) ++ read =
            u ++ (name ++ (blank ++ ':' :: (blank' ++ read))) := by
          simp only [List.append_assoc, List.cons_append]
        have body : Body (.count name read) s := by
          rw [isText, isBody]
          exact .count u name blank blank' read severity word listed named blanks blanks' unread
            (fun c member => decimals c (List.mem_append_left _ member))
        exact .inr ⟨_, event_iff.mpr ⟨s, [], (List.append_nil s).symm, rfl, body, fun _ c first =>
          nomatch first⟩⟩

/-- The events as tokens of the scanner. -/
def eventGrammar : Grammar Char Event where
  token := event
  grows := Event.isCount
  valid := Compacted
  bound := 18
  within := fun {_ _ _} same => by
    obtain ⟨w, rest, rfl, rfl, body, -⟩ := event_iff.mp same
    refine ⟨body_length body, ?_⟩
    rw [List.length_append]
    exact Nat.le_add_right _ _
  kept := event_kept
  found := event_found
  begun := event_begun
  apart := events_apart
  suffix := List.IsChain.tail

end Grammar

end Results
end LocalFlow
