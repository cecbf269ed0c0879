import LocalFlow.Results
import LocalFlow.Library.Separated
import Mathlib.Data.List.Infix

/-! The verdict of the chunks is the verdict of the whole text. -/
namespace LocalFlow
namespace Results
open Scanning

section Compaction
variable {b b' : Bool} {s t digits : List Char} {c : Char}

/-- Whether a text ends inside a run of blanks. -/
def ends : Bool → List Char → Bool
  | b, [] => b
  | _, c :: rest => ends (isSpace c) rest

theorem compactFrom_append : compactFrom b (s ++ t) = compactFrom b s ++ compactFrom (ends b s) t := by
  induction s generalizing b with
  | nil => rfl
  | cons c s ih =>
    rw [List.cons_append, compactFrom, compactFrom, ends]
    cases isSpace c with
    | false => simp [ih]
    | true => cases b <;> simp [ih]

theorem ends_append : ends b (s ++ t) = ends (ends b s) t := by
  induction s generalizing b with
  | nil => rfl
  | cons c s ih => exact ih

theorem ends_compactFrom : ends b (compactFrom b s) = ends b s := by
  induction s generalizing b with
  | nil => rfl
  | cons c s ih =>
    rw [compactFrom, ends]
    cases space : isSpace c with
    | false => simp [ends, space, ih]
    | true =>
      cases b with
      | false => exact ih
      | true => exact ih

theorem compactFrom_twice : compactFrom b (compactFrom b' s) = compactFrom (b || b') s := by
  induction s generalizing b b' with
  | nil => rfl
  | cons c s ih =>
    have blank : isSpace ' ' = true := by decide
    rw [compactFrom, compactFrom]
    cases space : isSpace c with
    | false => simp [compactFrom, space, ih]
    | true => cases b <;> cases b' <;> simp [compactFrom, blank, ih]

theorem compact_append_compact (s t : List Char) : compact (s ++ compact t) = compact (s ++ t) := by
  rw [compact, compactFrom_append, compact, compactFrom_twice, Bool.or_false, compact,
    compactFrom_append]

/-- In what `compactFrom` leaves, blanks are single spaces, and none follows the run before it. -/
theorem compacted_compactFrom :
    Compacted (compactFrom b s) ∧ (∀ c ∈ compactFrom b s, isSpace c = true → c = ' ') ∧
    (b = true → ∀ c, (compactFrom b s).head? = some c → isSpace c = false) := by
  induction s generalizing b with
  | nil => exact ⟨.nil, fun c member => (nomatch member), fun _ c first => (nomatch first)⟩
  | cons c s ih =>
    rw [compactFrom]
    cases space : isSpace c with
    | false =>
      obtain ⟨chain, blank, -⟩ := @ih false
      refine ⟨?_, fun d member isBlank => ?_, fun _ d first => ?_⟩
      · rw [Compacted, if_neg (by simp), List.isChain_cons]
        exact ⟨fun d _ both => Bool.false_ne_true (space.symm.trans both.1), chain⟩
      · obtain rfl | later := List.mem_cons.mp member
        · rw [space] at isBlank
          cases isBlank
        · exact blank d later isBlank
      · cases first
        exact space
    | true =>
      obtain ⟨chain, blank, solid⟩ := @ih true
      cases b with
      | true => exact ⟨chain, blank, solid⟩
      | false =>
        refine ⟨?_, fun d member isBlank => ?_, fun inside => nomatch inside⟩
        · rw [Compacted, if_pos rfl, if_neg (by simp), List.isChain_cons]
          refine ⟨fun d next both => ?_, chain⟩
          rw [solid rfl d next] at both
          cases both.2
        · obtain rfl | later := List.mem_cons.mp member
          · rfl
          · exact blank d later isBlank

theorem compactFrom_self (chain : Compacted s) (blank : ∀ c ∈ s, isSpace c = true → c = ' ')
    (solid : b = true → ∀ c, s.head? = some c → isSpace c = false) : compactFrom b s = s := by
  induction s generalizing b with
  | nil => rfl
  | cons c s ih =>
    rw [compactFrom]
    have rest := fun d member => blank d (List.mem_cons_of_mem _ member)
    cases space : isSpace c with
    | false =>
      have same := @ih false chain.tail rest (fun inside => (nomatch inside))
      rw [if_neg (by simp), same]
    | true =>
      cases b with
      | true =>
        rw [solid rfl c rfl] at space
        cases space
      | false =>
        have same := @ih true chain.tail rest (fun _ d first => by
          rw [Compacted, List.isChain_cons] at chain
          rw [Bool.eq_false_iff]
          exact fun both => chain.1 d first ⟨space, both⟩)
        rw [if_pos rfl, if_neg (by simp), blank c (List.mem_cons_self ..) space, same]

theorem compactFrom_head (s : List Char) : (compact s).dropWhile isSpace = compactFrom true s := by
  have blank : isSpace ' ' = true := by decide
  have stays : ∀ s, (compactFrom true s).dropWhile isSpace = compactFrom true s := fun s => by
    obtain ⟨_, _, solid⟩ := @compacted_compactFrom true s
    cases first : compactFrom true s with
    | nil => rfl
    | cons c rest =>
      rw [first] at solid
      exact List.dropWhile_cons_of_neg (Bool.eq_false_iff.mp (solid rfl c rfl))
  cases s with
  | nil => rfl
  | cons c s =>
    rw [compact, compactFrom, compactFrom]
    cases space : isSpace c with
    | false => exact List.dropWhile_cons_of_neg (by rw [space]; exact Bool.false_ne_true)
    | true =>
      rw [if_pos rfl, if_neg (by simp), if_pos rfl, List.dropWhile_cons_of_pos blank]
      exact stays s

/-- The head of a line does not depend on how the line arrives. -/
theorem lineHead_append (s t : List Char) : lineHead (lineHead s ++ compact t) = lineHead (s ++ t) := by
  unfold lineHead
  rw [compactFrom_head, compactFrom_head, compactFrom_head]
  obtain ⟨chain, blank, solid⟩ := @compacted_compactFrom true s
  have idempotent : compactFrom true ((compactFrom true s).take 128) =
    (compactFrom true s).take 128 := by
    refine compactFrom_self (chain.take 128) (fun c member => blank c (List.mem_of_mem_take member)) ?_
    intro _ c first
    rw [List.head?_take, if_neg (by decide)] at first
    exact solid rfl c first
  rw [compactFrom_append, compactFrom_append, idempotent]
  by_cases short : (compactFrom true s).length ≤ 128
  · rw [List.take_of_length_le short, ends_compactFrom, compact, compactFrom_twice, Bool.or_false]
  · have full : ((compactFrom true s).take 128).length = 128 := List.length_take_of_le (by omega)
    rw [List.take_append_of_le_length full.ge, List.take_append_of_le_length (by omega),
      List.take_take, Nat.min_self]

/-- A run of digits is a run of digits of the text before compaction. -/
theorem digits_compactFrom (decimals : ∀ c ∈ digits, isDecimal c = true)
    (member : digits <:+: compactFrom b s ++ t) :
    digits <:+: s ++ t := by
  have begins : ∀ {s digits}, (∀ c ∈ digits, isDecimal c = true) → digits <+: compactFrom false s ++
    t → digits <+: s ++ t := by
    intro s
    induction s with
    | nil => exact fun _ begins => begins
    | cons c s ih =>
      intro digits decimals begins
      cases digits with
      | nil => exact List.nil_prefix
      | cons d digits =>
        have solid := decimal_solid (decimals d (List.mem_cons_self ..))
        rw [compactFrom] at begins
        cases space : isSpace c with
        | true =>
          rw [space, if_pos rfl, if_neg (by simp), List.cons_append, List.cons_prefix_cons] at begins
          rw [begins.1] at solid
          cases solid
        | false =>
          rw [space, if_neg (by simp), List.cons_append, List.cons_prefix_cons] at begins
          rw [List.cons_append, List.cons_prefix_cons]
          exact ⟨begins.1, ih (fun e later => decimals e (List.mem_cons_of_mem _ later)) begins.2⟩
  induction s generalizing b with
  | nil => exact member
  | cons c s ih =>
    rw [compactFrom] at member
    cases space : isSpace c with
    | true =>
      rw [space, if_pos rfl] at member
      cases b with
      | true => exact (ih member).trans (List.suffix_cons c _).isInfix
      | false =>
        rw [if_neg (by simp), List.cons_append, List.infix_cons_iff] at member
        obtain first | later := member
        · cases digits with
          | nil => exact List.nil_infix
          | cons d digits =>
            have solid := decimal_solid (decimals d (List.mem_cons_self ..))
            rw [(List.cons_prefix_cons.mp first).1] at solid
            cases solid
        · exact (ih later).trans (List.suffix_cons c _).isInfix
    | false =>
      rw [space, if_neg (by simp), List.cons_append, List.infix_cons_iff] at member
      obtain first | later := member
      · cases digits with
        | nil => exact List.nil_infix
        | cons d digits =>
          rw [List.cons_prefix_cons] at first
          refine List.IsPrefix.isInfix ?_
          rw [List.cons_append, List.cons_prefix_cons]
          exact ⟨first.1, begins (fun e later => decimals e (List.mem_cons_of_mem _ later)) first.2⟩
      · exact (ih later).trans (List.suffix_cons c _).isInfix

end Compaction

section Scans
variable {s t text more : List Char} {c : Char} {e : Event} {n : Nat} {scan : SummaryScan}
  {done : List Event}

theorem finditer_events (s : List Char) : (finditer event 0 0 s).map Match.token = hits event s :=
  @finditer_hits _ _ eventGrammar s 0 0 (fun i below => absurd below (Nat.not_lt_zero i))

theorem events_hits (text : List Char) : events text = hits event (compact text) := finditer_events _

/-- What `feed` may forget of a compact text. -/
theorem settled_events (compacted : Compacted s) :
    let result := settle Event.isCount false s.length (finditer event 0 0 s) (s.length - 128)
    (∀ y, hits event (s ++ y) = result.1 ++ hits event (s.drop result.2 ++ y)) ∧
    (∀ e ∈ hits event (s.drop result.2), e.isCount = true) ∧
    ((s.drop result.2).length ≤ 128 ∨
      ∃ e, event (s.drop result.2) = some (e, (s.drop result.2).length)) :=
  @settled_all _ _ eventGrammar s 128 (by decide) compacted

theorem blank_hits (s : List Char) : hits event (' ' :: s) = hits event s := by
  refine hits_none ?_
  rw [Option.eq_none_iff_forall_not_mem]
  rintro ⟨e, n⟩ same
  have letters := event_letters same
  rw [List.map_cons, List.take_succ_cons, List.cons.injEq] at letters
  exact absurd letters.1 (by decide)

/-- A run of blanks that is cut hides no event. -/
theorem compactFrom_hits (b : Bool) (s : List Char) :
    hits event (compactFrom b s) = hits event (compact s) := by
  cases b with
  | false => rfl
  | true =>
    cases s with
    | nil => rfl
    | cons c s =>
      rw [compact, compactFrom, compactFrom]
      cases isSpace c with
      | false => rfl
      | true =>
        rw [if_pos rfl, if_pos rfl, if_pos rfl, if_neg (by simp)]
        exact (blank_hits _).symm

theorem event_blank (s : List Char) : event (s ++ [' ']) = event s := by
  cases same : event s with
  | some found =>
    obtain ⟨e, n⟩ := found
    obtain ⟨w, rest, rfl, rfl, body, stops⟩ := event_iff.mp same
    refine event_iff.mpr ⟨w, rest ++ [' '], List.append_assoc .., rfl, body, fun counts c first => ?_⟩
    cases rest with
    | nil =>
      cases first
      decide
    | cons d rest => exact stops counts c first
  | none =>
    rw [Option.eq_none_iff_forall_not_mem]
    rintro ⟨e, n⟩ begins
    by_cases inside : n ≤ s.length
    · rw [event_found begins inside] at same
      cases same
    -- no event ends with a blank
    · obtain ⟨w, rest, isText, rfl, body, -⟩ := event_iff.mp begins
      have whole : w = s ++ [' '] := by
        have length := congrArg List.length isText
        rw [List.length_append, List.length_append, List.length_singleton] at length
        obtain rfl := List.length_eq_zero_iff.mp (show rest.length = 0 by omega)
        rw [isText, List.append_nil]
      have last : w.getLast? = some ' ' := by rw [whole, List.getLast?_append]; rfl
      cases body with
      | header w word =>
        have lasts := congrArg List.getLast? word
        rw [List.getLast?_map, List.getLast?_map, last] at lasts
        exact absurd lasts (by decide)
      | count u name blank blank' digits severity word listed named blanks blanks' some_digit
          decimals =>
        have isLast : digits.getLast? = some ' ' := by
          have split : u ++ (name ++ (blank ++ ':' :: (blank' ++ digits))) =
              u ++ (name ++ (blank ++ ':' :: blank')) ++ digits := by
            simp only [List.append_assoc, List.cons_append]
          rw [← last, split, List.getLast?_append_of_ne_nil _ some_digit]
        have digit := decimals ' ' (List.mem_of_getLast? isLast)
        exact absurd digit (by decide)

theorem hits_blank (s : List Char) : hits event (s ++ [' ']) = hits event s := by
  induction s with
  | nil => exact blank_hits []
  | cons c s ih =>
    have same := event_blank (c :: s)
    rw [List.cons_append] at same ⊢
    rw [hits, hits, same, ih]

theorem events_newline (text : List Char) : events (text ++ ['\n']) = events text := by
  have blank : isSpace '\n' = true := by decide
  rw [events_hits, events_hits, compact, compactFrom_append, compactFrom, blank, if_pos rfl]
  cases ends false text with
  | true => rw [if_pos rfl, compactFrom, List.append_nil, compact]
  | false => exact hits_blank _

/-- More text takes no report away. -/
theorem reports_mono (text more : List Char) : reports text ≤ reports (text ++ more) := by
  obtain ⟨future, late, -⟩ := @settled_events (compact text) compacted_compactFrom.1
  generalize settle _ _ _ _ _ = result at future late
  have silent : (hits event ((compact text).drop result.2)).countP (fun e => !e.isCount) = 0 := by
    rw [List.countP_eq_zero]
    intro e member
    simp [late e member]
  have now := future []
  rw [List.append_nil, List.append_nil] at now
  have longer : compact (text ++ more) = compact text ++ compactFrom (ends false text) more :=
    compactFrom_append
  unfold reports
  rw [events_hits, events_hits, longer, future, now, List.countP_append, List.countP_append, silent,
    Nat.add_zero]
  exact Nat.le_add_right _ _

/-- What is counted for an event. -/
def entry : Event → Option (List Char × Nat)
  | .header => none
  | .count name digits => some (name.map upper, value digits)

/-- The counts after some events. -/
def tally (events : List Event) : List (List Char × Nat) :=
  (events.reverse.takeWhile Event.isCount).filterMap entry

/-- `record` of a count that `int` accepts. -/
def note (scan : SummaryScan) : Event → SummaryScan
  | .header => { scan with counts := [], reports := scan.reports + 1 }
  | .count name digits => { scan with counts := (name.map upper, value digits) :: scan.counts }

/-- The digits of an event are few enough for `int`. -/
def Short : Event → Prop
  | .header => True
  | .count _ digits => digits.length ≤ 4000

theorem record_note (short : Short e) : scan.record e = .ok (note scan e) := by
  cases e with
  | header => rfl
  | count name digits =>
    have few : ¬ 4300 < digits.length := by
      have := show digits.length ≤ 4000 from short
      omega
    have accepted : int digits = .ok (value digits) := if_neg few
    rw [SummaryScan.record, accepted]
    rfl

/-- The loop of `feed` records the events that are settled. -/
theorem feedLoop_settle (final : Bool) (length boundary : Nat) (scan : SummaryScan)
    (found : List (Match Event))
    (short : ∀ e ∈ found.map Match.token, Short e) :
    SummaryScan.feedLoop final length found boundary scan =
      .ok ((settle Event.isCount final length found boundary).2,
        (settle Event.isCount final length found boundary).1.foldl note scan) := by
  induction found generalizing boundary scan with
  | nil => rfl
  | cons first rest ih =>
    rw [List.map_cons, List.forall_mem_cons] at short
    rw [SummaryScan.feedLoop, settle]
    split
    · rfl
    · rw [record_note short.1]
      exact ih _ _ short.2

theorem tally_snoc (e : Event) :
    tally (done ++ [e]) = if e.isCount then (entry e).toList ++ tally done else [] := by
  unfold tally
  rw [List.reverse_append, List.reverse_singleton, List.singleton_append, List.takeWhile_cons]
  cases e with
  | header => rfl
  | count name digits => rfl

/-- The record of the events that are done with. -/
structure Recorded (scan : SummaryScan) (done : List Event) : Prop where
  counts : scan.counts = tally done
  reports : scan.reports = done.countP (fun e => !e.isCount)

theorem Recorded.notes (recorded : Recorded scan done) (found : List Event) :
    Recorded (found.foldl note scan) (done ++ found) := by
  induction found generalizing scan done with
  | nil =>
    rw [List.append_nil]
    exact recorded
  | cons e rest ih =>
    have next : Recorded (note scan e) (done ++ [e]) := by
      constructor
      · rw [tally_snoc]
        cases e with
        | header => rfl
        | count name digits =>
          change (name.map upper, value digits) :: scan.counts = (name.map upper, value digits) ::
            tally done
          rw [recorded.counts]
      · rw [List.countP_append, ← recorded.reports]
        cases e <;> rfl
    have rest := ih next
    rwa [List.append_assoc] at rest

/-- Every run of digits is short. -/
def DigitRuns (text : List Char) : Prop :=
  ∀ digits, (∀ c ∈ digits, isDecimal c = true) → digits <:+: text → digits.length ≤ 4000

theorem DigitRuns.count {name digits : List Char} (runs : DigitRuns s)
    (inside : ∃ w, Body (.count name digits) w ∧ w <:+: s) : digits.length ≤ 4000 := by
  obtain ⟨w, body, inside⟩ := inside
  cases body with
  | count u name blank blank' digits severity word listed named blanks blanks' some_digit decimals =>
    refine runs digits decimals
      (List.IsInfix.trans ⟨u ++ (name ++ (blank ++ ':' :: blank')), [], ?_⟩ inside)
    simp only [List.append_assoc, List.cons_append, List.append_nil]

/-- The scanner after a text: what it has recorded and what is pending are the events of the text
and of any continuation, and only a count may be pending. -/
structure Scanned (text : List Char) (scan : SummaryScan) (done : List Event) : Prop where
  recorded : Recorded scan done
  future : ∀ more, hits event (compact (text ++ more)) = done ++
    hits event (compact (scan.pending ++ more))
  late : ∀ e ∈ hits event (compact scan.pending), e.isCount = true
  runs : ∀ digits more, (∀ c ∈ digits, isDecimal c = true) → digits <:+: scan.pending ++ more →
    digits <:+: text ++ more

theorem Scanned.start : Scanned [] .start [] where
  recorded := ⟨rfl, rfl⟩
  future _ := rfl
  late := fun _ member => nomatch member
  runs _ _ _ member := member

theorem Scanned.reports (scanned : Scanned text scan done) : scan.reports = reports text := by
  have all := scanned.future []
  have silent : (hits event (compact scan.pending)).countP (fun e => !e.isCount) = 0 := by
    rw [List.countP_eq_zero]
    intro e member
    simp [scanned.late e member]
  rw [List.append_nil, List.append_nil] at all
  rw [Results.reports, events_hits, all, List.countP_append, silent, scanned.recorded.reports]
  rfl

/-- The digits of an event stand in the text. -/
theorem hit_digits (member : e ∈ hits event s) (runs : DigitRuns s) : Short e := by
  induction s with
  | nil => cases member
  | cons c s ih =>
    have later : DigitRuns s := fun digits decimals inside =>
      runs digits decimals (inside.trans (List.suffix_cons c s).isInfix)
    rw [hits, List.mem_append] at member
    obtain first | rest := member
    · obtain ⟨⟨e', n⟩, begins, rfl⟩ := Option.map_eq_some_iff.mp (Option.mem_toList.mp first)
      obtain ⟨w, rest, isText, -, body, -⟩ := event_iff.mp begins
      cases e' with
      | header => trivial
      | count name digits => exact runs.count ⟨w, body, isText ▸ (List.prefix_append w rest).isInfix⟩
    · exact ih rest later

variable (scanned : Scanned text scan done)
include scanned

/-- Another piece of the text, with short runs of digits. -/
theorem Scanned.feed (runs : DigitRuns (text ++ more)) :
    ∃ next done', scan.feed more false = .ok next ∧ Scanned (text ++ more) next done' := by
  have isText : compact (scan.pending ++ compact more) = compact (scan.pending ++ more) :=
    compact_append_compact ..
  obtain ⟨compacted, blank, -⟩ := @compacted_compactFrom false (scan.pending ++ more)
  obtain ⟨future, late, short⟩ := @settled_events (compact (scan.pending ++ more)) compacted
  have runs' : ∀ digits rest, (∀ c ∈ digits, isDecimal c = true) →
    digits <:+: compact (scan.pending ++ more) ++ rest →
      digits <:+: text ++ more ++ rest := fun digits rest decimals inside => by
    have before := @digits_compactFrom false (scan.pending ++ more) rest digits decimals inside
    rw [List.append_assoc] at before ⊢
    exact scanned.runs digits (more ++ rest) decimals before
  have few : DigitRuns (compact (scan.pending ++ more)) := fun digits decimals inside =>
    runs digits decimals (by simpa using runs' digits [] decimals (by simpa using inside))
  have fewDigits : ∀ e ∈ (finditer event 0 0 (compact (scan.pending ++ more))).map Match.token,
    Short e := fun e member => by
    rw [finditer_events] at member
    exact hit_digits member few
  have looped := @feedLoop_settle false (compact (scan.pending ++ more)).length
    ((compact (scan.pending ++ more)).length - 128) scan _ fewDigits
  generalize settle Event.isCount false (compact (scan.pending ++ more)).length
    (finditer event 0 0 (compact (scan.pending ++ more)))
      ((compact (scan.pending ++ more)).length - 128) = result
    at future late short looped
  have tail : Compacted ((compact (scan.pending ++ more)).drop result.2) := compacted.drop _
  have same : compact ((compact (scan.pending ++ more)).drop result.2) =
    (compact (scan.pending ++ more)).drop result.2 :=
    compactFrom_self tail (fun c member => blank c (List.mem_of_mem_drop member))
      (fun inside => nomatch inside)
  have fits : ¬ 4096 < ((compact (scan.pending ++ more)).drop result.2).length := by
    obtain short | ⟨e, begins⟩ := short
    · omega
    · obtain ⟨w, rest, isTail, isLength, body, -⟩ := event_iff.mp begins
      obtain rfl : rest = [] := by
        have length := congrArg List.length isTail
        rw [List.length_append] at length
        exact List.length_eq_zero_iff.mp (by omega)
      rw [List.append_nil] at isTail
      rw [isTail] at tail ⊢
      cases e with
      | header =>
        cases body with
        | header w word =>
          have length := congrArg List.length word
          rw [List.length_map, List.length_map] at length
          rw [length]
          decide
      | count name digits =>
        have bounded := count_short tail body
        have run : digits.length ≤ 4000 := few.count ⟨w, body, isTail ▸ (List.drop_suffix _ _).isInfix⟩
        omega
  refine
    ⟨{ result.1.foldl note scan with pending := (compact (scan.pending ++ more)).drop result.2 },
      done ++ result.1, ?_, ?_⟩
  · rw [SummaryScan.feed, isText]
    dsimp only
    rw [if_neg Bool.false_ne_true, looped]
    exact if_neg fits
  · obtain ⟨counts, reports⟩ := scanned.recorded.notes result.1
    refine ⟨⟨counts, reports⟩, fun rest => ?_, fun e member =>
      ?_, fun digits rest decimals inside => ?_⟩
    · have after : compact (scan.pending ++ more ++ rest) =
          compact (scan.pending ++ more) ++ compactFrom (ends false (scan.pending ++ more)) rest :=
            compactFrom_append
      have next : compact ((compact (scan.pending ++ more)).drop result.2 ++ rest) =
          compact ((compact (scan.pending ++ more)).drop result.2) ++
            compactFrom (ends false ((compact (scan.pending ++ more)).drop result.2)) rest :=
              compactFrom_append
      rw [List.append_assoc text, scanned.future, ← List.append_assoc scan.pending, after, future,
        List.append_assoc]
      congr 2
      dsimp only
      rw [next, same]
      -- a tail that is not empty ends as the text does
      cases isTail : (compact (scan.pending ++ more)).drop result.2 with
      | nil => rw [List.nil_append, List.nil_append, compactFrom_hits, compactFrom_hits]
      | cons c tail =>
        rw [← ends_compactFrom,
          ← List.take_append_drop result.2 (compactFrom false (scan.pending ++ more)), ends_append]
        change hits event (c :: tail ++
          compactFrom (ends _ ((compact (scan.pending ++ more)).drop result.2)) rest) = _
        rw [isTail]
        rfl
    · dsimp only at member
      rw [same] at member
      exact late e member
    · exact runs' digits rest decimals
        (inside.trans ⟨(compact (scan.pending ++ more)).take result.2, [], by
        rw [List.append_nil, ← List.append_assoc, List.take_append_drop]⟩)

/-- The end of the text. -/
theorem Scanned.finish (runs : DigitRuns text) :
    ∃ next, scan.feed [] true = .ok next ∧ Recorded next (events text) := by
  have isText : compact (scan.pending ++ compact []) = compact scan.pending := by
    rw [compact_append_compact, List.append_nil]
  have few : DigitRuns (compact scan.pending) := fun digits decimals inside => by
    have before := @digits_compactFrom false scan.pending [] digits decimals
      (by rw [List.append_nil]; exact inside)
    have later := scanned.runs digits [] decimals before
    rw [List.append_nil] at later
    exact runs digits decimals later
  have fewDigits : ∀ e ∈ (finditer event 0 0 (compact scan.pending)).map Match.token, Short e :=
    fun e member => by
    rw [finditer_events] at member
    exact hit_digits member few
  have looped := @feedLoop_settle true (compact scan.pending).length
    (compact scan.pending).length scan _ fewDigits
  have tokens := settle_final Event.isCount (compact scan.pending).length (compact scan.pending).length
    (finditer event 0 0 (compact scan.pending))
  have last := settle_last Event.isCount (compact scan.pending).length (compact scan.pending).length
    (finditer event 0 0 (compact scan.pending))
  generalize settle Event.isCount true _ _ _ = result at looped tokens last
  have all : events text = done ++ result.1 := by
    have future := scanned.future []
    rw [List.append_nil, List.append_nil] at future
    rw [tokens, events_hits, future, finditer_events]
  refine ⟨{ result.1.foldl note scan with pending := (compact scan.pending).drop result.2 }, ?_, ?_⟩
  · have fits : ¬ 4096 < ((compact scan.pending).drop result.2).length := by
      rw [List.drop_of_length_le last]
      decide
    rw [SummaryScan.feed, isText]
    dsimp only
    rw [if_pos rfl, looped]
    exact if_neg fits
  · rw [all]
    obtain ⟨counts, reports⟩ := scanned.recorded.notes result.1
    exact ⟨counts, reports⟩

end Scans

section Lines
variable {lines : List (List Char)} {line segment : List Char} {scan : VcsScan}
  {matching : List Char → Bool}

/-- Lines that have ended. -/
def joined (lines : List (List Char)) : List Char := lines.flatMap (fun line => line ++ ['\n'])

theorem joined_append (lines more : List (List Char)) :
    joined (lines ++ more) = joined lines ++ joined more :=
  List.flatMap_append

theorem joined_singleton (line : List Char) : joined [line] = line ++ ['\n'] :=
  List.flatMap_singleton ..

theorem intercalate_joined (lines : List (List Char)) (line : List Char) :
    ['\n'].intercalate (lines ++ [line]) = joined lines ++ line := by
  induction lines with
  | nil => exact List.intercalate_singleton
  | cons first rest ih =>
    rw [List.cons_append, List.intercalate_cons_of_ne_nil (by simp), ih]
    change _ = (first ++ ['\n']) ++ joined rest ++ line
    rw [List.append_assoc, List.append_assoc, List.append_assoc]

/-- The lines that match and end when the text has as many reports. -/
def lineTotal (matching : List Char → Bool) (lines : List (List Char)) (count : Nat) : Nat :=
  lines.inits.tail.countP (fun before => reports (joined before) = count ∧
    matching (lineHead (before.getLastD [])) = true)

theorem inits_snoc (line : List Char) :
    (lines ++ [line]).inits.tail = lines.inits.tail ++ [lines ++ [line]] := by
  have first : lines.inits ≠ [] := by
    cases lines <;> exact List.cons_ne_nil _ _
  rw [List.inits_append, List.tail_append_of_ne_nil first]
  rfl

theorem lineTotal_snoc (line : List Char) (count : Nat) : lineTotal matching (lines ++ [line]) count =
    lineTotal matching lines count +
      if reports (joined (lines ++ [line])) = count ∧ matching (lineHead line) = true then 1
        else 0 := by
  rw [lineTotal, inits_snoc, List.countP_append, List.countP_singleton, List.getLastD_concat]
  simp only [decide_eq_true_eq]
  rfl

/-- No line that has ended has more reports before it than the text. -/
theorem lineTotal_later {count : Nat} (later : reports (joined lines ++ line) < count) :
    lineTotal matching lines count = 0 := by
  rw [lineTotal, List.countP_eq_zero]
  intro before member
  rw [decide_eq_true_eq]
  rintro ⟨same, _⟩
  obtain ⟨rest, rfl⟩ := (List.mem_inits _ _).mp (List.mem_of_mem_tail member)
  have grows := reports_mono (joined before) (joined rest ++ line)
  rw [← List.append_assoc, ← joined_append] at grows
  omega

/-- The variables after the lines and the beginning of another one. -/
structure Follows (lines : List (List Char)) (line : List Char) (scan : VcsScan) : Prop where
  scanned : ∃ done, Scanned (joined lines ++ line) scan.summary done
  last : scan.lastReports = scan.summary.reports
  line : scan.line = lineHead line
  fatal : scan.fatal = lineTotal isFatal lines scan.summary.reports
  error : scan.error = lineTotal isError lines scan.summary.reports

theorem Follows.start : Follows [] [] .start where
  scanned := ⟨[], .start⟩
  last := rfl
  line := rfl
  fatal := rfl
  error := rfl

/-- A report that the segment completes forgets the lines that have ended before. -/
theorem Follows.reset (follows : Follows lines line scan) {summary : SummaryScan} {more : List Char}
    {done : List Event}
    (scanned : Scanned (joined lines ++ line ++ more) summary done) :
    (scan.reset summary).summary = summary ∧ (scan.reset summary).lastReports = summary.reports ∧
    (scan.reset summary).line = lineHead line ∧
    (scan.reset summary).fatal = lineTotal isFatal lines summary.reports ∧
    (scan.reset summary).error = lineTotal isError lines summary.reports := by
  obtain ⟨before, was⟩ := follows.scanned
  unfold VcsScan.reset
  split
  · rename_i same
    rw [same, follows.last]
    exact ⟨rfl, rfl, follows.line, follows.fatal, follows.error⟩
  · rename_i differs
    rw [follows.last, was.reports, scanned.reports] at differs
    have later : reports (joined lines ++ line) < summary.reports := by
      have grows := reports_mono (joined lines ++ line) more
      rw [scanned.reports]
      omega
    exact ⟨rfl, rfl, follows.line, (lineTotal_later later).symm, (lineTotal_later later).symm⟩

/-- A segment of the current line. -/
theorem Follows.goes (follows : Follows lines line scan)
    (runs : DigitRuns (joined lines ++ line ++ segment)) :
    ∃ next, scan.consume segment false = .ok next ∧ Follows lines (line ++ segment) next := by
  obtain ⟨done, scanned⟩ := follows.scanned
  obtain ⟨summary, done', fed, after⟩ := scanned.feed runs
  obtain ⟨isSummary, last, isLine, fatal, error⟩ := follows.reset after
  refine ⟨{ scan.reset summary with line := lineHead ((scan.reset summary).line ++ compact segment) }, ?_, ?_⟩
  · rw [VcsScan.consume, if_neg Bool.false_ne_true, List.append_nil, fed]
    rfl
  · refine ⟨⟨done', ?_⟩, ?_, ?_, ?_, ?_⟩
    · dsimp only
      rw [isSummary, ← List.append_assoc]
      exact after
    · exact last.trans (congrArg _ isSummary.symm)
    · exact (congrArg (fun line => lineHead (line ++ compact segment)) isLine).trans
        (lineHead_append line segment)
    · exact fatal.trans (congrArg
        (fun summary => lineTotal isFatal lines summary.reports) isSummary.symm)
    · exact error.trans (congrArg
        (fun summary => lineTotal isError lines summary.reports) isSummary.symm)

/-- The last segment of a line. -/
theorem Follows.ended (follows : Follows lines line scan)
    (runs : DigitRuns (joined lines ++ line ++ (segment ++ ['\n']))) :
    ∃ next, scan.consume segment true = .ok next ∧ Follows (lines ++ [line ++ segment]) [] next := by
  obtain ⟨done, scanned⟩ := follows.scanned
  obtain ⟨summary, done', fed, after⟩ := scanned.feed runs
  obtain ⟨isSummary, last, isLine, fatal, error⟩ := follows.reset after
  have isText : joined (lines ++ [line ++ segment]) = joined lines ++ line ++ (segment ++ ['\n']) := by
    rw [joined_append, joined_singleton, List.append_assoc, List.append_assoc]
  have counted : ∀ {matching : List Char → Bool},
    lineTotal matching (lines ++ [line ++ segment]) summary.reports =
      lineTotal matching lines summary.reports + (matching (lineHead (line ++ segment))).toNat := by
    intro matching
    rw [lineTotal_snoc, isText, ← after.reports]
    cases matching (lineHead (line ++ segment)) <;> simp
  have isHead : lineHead ((scan.reset summary).line ++ compact segment) = lineHead (line ++ segment) :=
    (congrArg (fun line => lineHead (line ++ compact segment)) isLine).trans
      (lineHead_append line segment)
  refine ⟨{ scan.reset summary with
    fatal := (scan.reset summary).fatal + (isFatal (lineHead (line ++ segment))).toNat
    error := (scan.reset summary).error + (isError (lineHead (line ++ segment))).toNat
    line := [] }, ?_, ?_⟩
  · rw [VcsScan.consume, if_pos rfl, fed, ← isHead]
    rfl
  · refine ⟨⟨done', ?_⟩, ?_, rfl, ?_, ?_⟩
    · dsimp only
      rw [isSummary, List.append_nil, isText]
      exact after
    · exact last.trans (congrArg _ isSummary.symm)
    · dsimp only
      rw [isSummary, counted, fatal]
    · dsimp only
      rw [isSummary, counted, error]

end Lines

section Chunks
variable {lines : List (List Char)} {line segment text more chunk : List Char} {scan : VcsScan}
  {matching : List Char → Bool}

theorem DigitRuns.left (runs : DigitRuns (text ++ more)) : DigitRuns text :=
  fun digits decimals inside =>
  runs digits decimals (inside.trans (List.prefix_append text more).isInfix)

theorem DigitRuns.newline (runs : DigitRuns text) : DigitRuns (text ++ ['\n']) := by
  intro digits decimals inside
  obtain last | before := List.infix_concat_iff.mp inside
  · obtain rfl | ⟨rest, rfl, _⟩ := List.suffix_concat_iff.mp last
    · exact Nat.zero_le _
    · exact absurd (decimals '\n' (by simp)) (by decide)
  · exact runs digits decimals before

/-- The variables after a text. -/
def Reached (text : List Char) (scan : VcsScan) : Prop :=
  ∃ lines line, Follows lines line scan ∧ text = joined lines ++ line ∧ ∀ part ∈ lines ++
    [line], '\n' ∉ part

theorem Reached.goes (reached : Reached text scan) (plain : '\n' ∉ segment)
    (runs : DigitRuns (text ++ segment)) :
    ∃ next, scan.consume segment false = .ok next ∧ Reached (text ++ segment) next := by
  obtain ⟨lines, line, follows, rfl, parts⟩ := reached
  obtain ⟨next, consumed, after⟩ := follows.goes runs
  refine ⟨next, consumed, lines, line ++ segment, after, List.append_assoc .., fun part member => ?_⟩
  obtain before | last := List.mem_append.mp member
  · exact parts part (List.mem_append_left _ before)
  · obtain rfl := List.mem_singleton.mp last
    rw [List.mem_append, not_or]
    exact ⟨parts line (by simp), plain⟩

theorem Reached.ended (reached : Reached text scan) (plain : '\n' ∉ segment)
    (runs : DigitRuns (text ++ (segment ++ ['\n']))) :
    ∃ next, scan.consume segment true = .ok next ∧ Reached (text ++ (segment ++ ['\n'])) next := by
  obtain ⟨lines, line, follows, rfl, parts⟩ := reached
  obtain ⟨next, consumed, after⟩ := follows.ended runs
  refine ⟨next, consumed, lines ++ [line ++ segment], [], after, ?_, fun part member => ?_⟩
  · rw [joined_append, joined_singleton, List.append_nil, List.append_assoc, List.append_assoc]
  · obtain before | last := List.mem_append.mp member
    · obtain before | here := List.mem_append.mp before
      · exact parts part (List.mem_append_left _ before)
      · obtain rfl := List.mem_singleton.mp here
        rw [List.mem_append, not_or]
        exact ⟨parts line (by simp), plain⟩
    · obtain rfl := List.mem_singleton.mp last
      exact List.not_mem_nil

theorem Reached.segments (reached : Reached text scan) (segments : List (List Char))
    (plain : ∀ segment ∈ segments, '\n' ∉ segment) (runs : DigitRuns (text ++ joined segments)) :
    ∃ next, segments.foldlM (fun scan segment => scan.consume segment true) scan = .ok next ∧
      Reached (text ++ joined segments) next := by
  induction segments generalizing text scan with
  | nil =>
    refine ⟨scan, rfl, ?_⟩
    rw [joined, List.flatMap_nil, List.append_nil]
    exact reached
  | cons first rest ih =>
    rw [List.forall_mem_cons] at plain
    have isText : text ++ joined (first :: rest) = text ++ (first ++ ['\n']) ++ joined rest := by
      rw [List.append_assoc]
      rfl
    rw [isText] at runs ⊢
    obtain ⟨next, consumed, after⟩ := reached.ended plain.1 runs.left
    obtain ⟨last, folded, reached⟩ := ih after plain.2 runs
    refine ⟨last, ?_, reached⟩
    rw [List.foldlM_cons, consumed]
    exact folded

/-- One chunk. -/
theorem Reached.takes (reached : Reached text scan) (runs : DigitRuns (text ++ chunk)) :
    ∃ next, scan.consumeChunk chunk = .ok next ∧ Reached (text ++ chunk) next := by
  have some_part : chunk.splitOn '\n' ≠ [] := List.splitOn_ne_nil _ _
  have parts := Separated.not_mem_part '\n' chunk
  have isChunk : ['\n'].intercalate (chunk.splitOn '\n') = chunk := List.intercalate_splitOn '\n'
  obtain ⟨segments, last, isParts⟩ : ∃ segments last, chunk.splitOn '\n' = segments ++ [last] :=
    ⟨_, _, (List.dropLast_append_getLast some_part).symm⟩
  rw [isParts] at parts isChunk
  rw [intercalate_joined] at isChunk
  rw [← isChunk, ← List.append_assoc] at runs ⊢
  obtain ⟨next, folded, after⟩ :=
    reached.segments segments (fun part member => parts part (List.mem_append_left _ member)) runs.left
  obtain ⟨done, consumed, reached⟩ := after.goes (parts last (by simp)) runs
  refine ⟨done, ?_, reached⟩
  rw [isChunk, VcsScan.consumeChunk, isParts, List.dropLast_concat, List.getLastD_concat, folded]
  exact consumed

theorem Reached.chunks (reached : Reached text scan) (chunks : List (List Char))
    (runs : DigitRuns (text ++ chunks.flatten)) :
    ∃ next, chunks.foldlM VcsScan.consumeChunk scan = .ok next ∧
      Reached (text ++ chunks.flatten) next := by
  induction chunks generalizing text scan with
  | nil =>
    refine ⟨scan, rfl, ?_⟩
    rw [List.flatten_nil, List.append_nil]
    exact reached
  | cons first rest ih =>
    rw [List.flatten_cons, ← List.append_assoc] at runs ⊢
    obtain ⟨next, consumed, after⟩ := reached.takes runs.left
    obtain ⟨last, folded, reached⟩ := ih after runs
    refine ⟨last, ?_, reached⟩
    rw [List.foldlM_cons, consumed]
    exact folded

end Chunks

section Verdict
variable {lines : List (List Char)} {line text key : List Char} {found : List Event}
  {summary : SummaryScan}

theorem reports_newline (text : List Char) : reports (text ++ ['\n']) = reports text := by
  rw [reports, events_newline, reports]

theorem inits_some (before : List (List Char)) (member : before ∈ lines.inits.tail) : before ≠ [] := by
  cases lines with
  | nil => cases member
  | cons first rest =>
    obtain ⟨more, _, rfl⟩ := List.mem_map.mp member
    exact List.cons_ne_nil _ _

/-- The lines that the scanner has counted are those of the whole text. -/
theorem lineCount_total (matching : List Char → Bool) (isText : text = joined lines ++ line)
    (parts : ∀ part ∈ lines ++ [line], '\n' ∉ part) :
    lineCount matching text = lineTotal matching (lines ++ [line]) (reports text) := by
  have split : text.splitOn '\n' = lines ++ [line] := by
    rw [isText, ← intercalate_joined]
    exact List.splitOn_intercalate '\n' parts (by simp)
  rw [lineCount, split, lineTotal]
  refine List.countP_congr (fun before member => ?_)
  have some_line := inits_some before member
  obtain ⟨init, last, rfl⟩ : ∃ init last, before = init ++ [last] :=
    ⟨_, _, (List.dropLast_append_getLast some_line).symm⟩
  rw [intercalate_joined, joined_append, joined_singleton, ← List.append_assoc, reports_newline]

/-- How a key is spelled in the log. -/
theorem spelled_iff {name upperCase lowerCase : List Char}
    (letters : List.Forall₂ (fun q p => ∀ c, upper c = q ↔ folded c = p) upperCase lowerCase) :
    name.map upper = upperCase ↔ name.map folded = lowerCase := by
  induction letters generalizing name with
  | nil => rw [List.map_eq_nil_iff, List.map_eq_nil_iff]
  | cons letter _ ih =>
    cases name with
    | nil => simp
    | cons c name => rw [List.map_cons, List.map_cons, List.cons.injEq, List.cons.injEq, letter c, ih]

/-- The dictionary holds the last count of a severity. -/
theorem lookup_tally {severity : String} (spelled : ∀ name : List Char,
    name.map upper = key ↔ name.map folded = severity.toList.map folded) (text : List Char) :
    (tally (events text)).lookup key = lastCount severity (lastReport text) := by
  have newest : ∀ found : List Event,
    (found.filterMap entry).lookup key = (found.filterMap (countOf severity)).head? := by
    intro found
    induction found with
    | nil => rfl
    | cons e rest ih =>
      cases e with
      | header => exact ih
      | count name digits =>
        have first : ((Event.count name digits :: rest).filterMap entry) =
          (name.map upper, value digits) :: rest.filterMap entry :=
          rfl
        rw [first, List.lookup_cons, List.filterMap_cons, countOf]
        by_cases same : name.map folded = severity.toList.map folded
        · rw [if_pos same, ← (spelled name).mpr same, beq_self_eq_true]
          rfl
        · have other : (key == name.map upper) = false :=
            beq_false_of_ne (fun equal => same ((spelled name).mp equal.symm))
          rw [if_neg same, other]
          exact ih
  rw [tally, newest, lastCount, lastReport, List.filterMap_reverse, List.getLast?_reverse]

theorem tally_empty (text : List Char) : tally (events text) ≠ [] ↔ lastReport text ≠ [] := by
  rw [tally, lastReport, ne_eq, ne_eq, List.reverse_eq_nil_iff, List.filterMap_eq_nil_iff, not_iff_not]
  constructor
  · intro nothing
    rw [List.eq_nil_iff_forall_not_mem]
    intro e member
    have missing := nothing e member
    have counts := List.mem_takeWhile_imp member
    cases e with
    | header => cases counts
    | count => cases missing
  · intro empty
    rw [empty]
    exact fun e member => nomatch member

/-- The decisions at the end of the chunks are those about the whole text. -/
theorem result_verdict {scan : VcsScan} (recorded : Recorded scan.summary (events text))
    (fatal : scan.fatal = lineCount isFatal text)
    (error : scan.error = lineCount isError text) : scan.result = verdict text := by
  have letter : ∀ {q p : Char}, q.val + 32 = p.val → p ≠ 'i' ∧ p ≠ 's' ∧ p ≠ 'k' → q ≠ 'I' ∧ q ≠ 'S' →
      upper p = q ∧ upper q = q ∧ folded p = p ∧ folded q = p → ∀ c, upper c = q ↔ folded c = p := by
    intro q p shift plain plain' same c
    constructor
    · intro raised
      obtain rfl | rfl := raised_cases shift plain' raised
      · exact same.2.2.1
      · exact same.2.2.2
    · intro folds
      obtain rfl | rfl := folded_cases shift plain folds
      · exact same.1
      · exact same.2.1
  have fatals : scan.summary.get? "FATAL".toList = lastCount "fatal" (lastReport text) := by
    rw [SummaryScan.get?, recorded.counts]
    refine lookup_tally (fun name => spelled_iff ?_) text
    change List.Forall₂ _ ['F', 'A', 'T', 'A', 'L'] ['f', 'a', 't', 'a', 'l']
    have a := @letter 'A' 'a' rfl (by decide) (by decide) (by decide)
    exact .cons (letter rfl (by decide) (by decide) (by decide)) (.cons a
      (.cons (letter rfl (by decide) (by decide) (by decide)) (.cons a
        (.cons (letter rfl (by decide) (by decide) (by decide)) .nil))))
  have errors : scan.summary.get? "ERROR".toList = lastCount "error" (lastReport text) := by
    rw [SummaryScan.get?, recorded.counts]
    refine lookup_tally (fun name => spelled_iff ?_) text
    change List.Forall₂ _ ['E', 'R', 'R', 'O', 'R'] ['e', 'r', 'r', 'o', 'r']
    have r := @letter 'R' 'r' rfl (by decide) (by decide) (by decide)
    exact .cons (letter rfl (by decide) (by decide) (by decide)) (.cons r (.cons r
      (.cons (letter rfl (by decide) (by decide) (by decide)) (.cons r .nil))))
  have counted : scan.summary.counts ≠ [] ↔ lastReport text ≠ [] := by
    rw [recorded.counts]
    exact tally_empty text
  have reported : scan.summary.reports = reports text := recorded.reports
  unfold VcsScan.result verdict
  rw [fatals, errors, fatal, error, reported]
  have positive : ∀ x y : Nat, x ≠ 0 ∨ y ≠ 0 ↔ 0 < x + y := by omega
  refine if_congr (positive _ _) rfl (if_congr (positive _ _) rfl (if_congr ?_ rfl rfl))
  rw [counted, Nat.pos_iff_ne_zero]

/-- However the log is cut into chunks, the verdict is that on the whole text. -/
theorem evaluateVcsChunks_eq (chunks : List (List Char)) (runs : DigitRuns chunks.flatten) :
    evaluateVcsChunks chunks = verdict chunks.flatten := by
  have begun : Reached [] .start := ⟨[], [], .start, rfl, fun part member => by
    obtain rfl := List.mem_singleton.mp member
    exact List.not_mem_nil⟩
  obtain ⟨scan, folded, reached⟩ := begun.chunks chunks runs
  rw [List.nil_append] at reached
  obtain ⟨lines, line, follows, isText, parts⟩ := reached
  have ended : DigitRuns (joined lines ++ line ++ ([] ++ ['\n'])) := isText ▸ runs.newline
  obtain ⟨next, consumed, after⟩ := follows.ended ended
  rw [List.append_nil] at after
  have whole : joined (lines ++ [line]) ++ [] = chunks.flatten ++ ['\n'] := by
    rw [isText, joined_append, joined_singleton, List.append_nil, List.append_assoc]
  obtain ⟨done, scanned⟩ := after.scanned
  rw [whole] at scanned
  obtain ⟨summary, fed, recorded⟩ := scanned.finish runs.newline
  rw [events_newline] at recorded
  have seen : next.summary.reports = reports chunks.flatten := scanned.reports.trans (reports_newline _)
  have fatal : next.fatal = lineCount isFatal chunks.flatten := by
    rw [lineCount_total isFatal isText parts, after.fatal, seen]
  have error : next.error = lineCount isError chunks.flatten := by
    rw [lineCount_total isError isText parts, after.error, seen]
  rw [evaluateVcsChunks, folded]
  change (scan.consume [] true >>= _) = _
  rw [consumed]
  change (next.summary.feed [] true >>= _) = _
  rw [fed]
  exact @result_verdict _ { next with summary } recorded fatal error

theorem digitRuns_short {text : List Char} (short : text.length ≤ 4000) : DigitRuns text :=
  fun _ _ inside => inside.length_le.trans short

/-- A count and a header that are cut. -/
theorem evaluateVcsChunks_cut : ∃ chunks : List (List Char),
    chunks = ["UVM Report Sum".toList, "mary\nUVM_ERROR : 1".toList, [],
      "2\nUVM_FATAL : 0\nError-[X]".toList] ∧
      DigitRuns chunks.flatten ∧ evaluateVcsChunks chunks = verdict chunks.flatten ∧
      verdict chunks.flatten = .ok (.error, 13) := by
  have runs : DigitRuns ["UVM Report Sum".toList, "mary\nUVM_ERROR : 1".toList, [],
      "2\nUVM_FATAL : 0\nError-[X]".toList].flatten := digitRuns_short (by decide)
  exact ⟨_, rfl, runs, evaluateVcsChunks_eq _ runs, by rfl⟩

end Verdict

end Results
end LocalFlow
