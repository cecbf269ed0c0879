import LocalFlow.Library.Searching

/-! `search_log`: a literal search in the output of a task, block by block with an overlap, where
every block is decoded on its own. `fold` takes two characters for the same where `re.IGNORECASE`
does. -/
namespace LocalFlow.LogSearch
open Utf8

/-- One of the `items`. -/
structure LogHit where
  offset : Nat
  line : Int
  preview : String
  deriving DecidableEq

/-- What the scan knows when it reads a block. -/
structure Scan where
  overlap : List UInt8 := []
  absolute : Nat := 0
  linesSeen : Nat := 0

def newline : Point := .char '\n'

/-- `text.rfind("\n", 0, start) + 1`. -/
def lineStart (text : List Point) (start : Nat) : Nat :=
  start - ((text.take start).reverse.takeWhile (· ≠ newline)).length

/-- `text.find("\n", stop)`, or the end of the text. -/
def lineStop (text : List Point) (stop : Nat) : Nat :=
  stop + ((text.drop stop).takeWhile (· ≠ newline)).length

/-- The preview of a match. -/
def preview (text : List Point) (found : Nat × Nat) : String :=
  let left := max (lineStart text found.1) (found.1 - 160)
  let right := min (lineStop text found.2) (found.2 + 240)
  let shown := replaced (unescaped ((text.take right).drop left))
  String.ofList ((shown.reverse.dropWhile (· = '\r')).reverse.take 400)

section Search
variable {κ : Type} [DecidableEq κ] (fold : Char → κ) (late : Nat → Bool) (maxResults : Nat)
  (query : List Char)

/-- The item of a match. -/
def hitOf (scan : Scan) (text : List Point) (found : Nat × Nat) : LogHit :=
  let before := text.take found.1
  let relative : Int := (unescaped before).length - scan.overlap.length
  { offset := (max 0 (scan.absolute + relative)).toNat
    line := scan.linesSeen - scan.overlap.count 10 + before.count newline + 1
    preview := preview text found }

/-- The loop over the matches of a block, with how often the clock has been asked. It gives none for
the `TimeoutError`, and says whether there was a hit too many. -/
def report (scan : Scan) (text : List Point) :
    List (Nat × Nat) → Nat → List LogHit → Option (Nat × List LogHit × Bool)
  | [], asked, items => some (asked, items, false)
  | found :: matches', asked, items =>
    if late asked then none
    else
      let relativeEnd : Int := (unescaped (text.take found.2)).length - scan.overlap.length
      if relativeEnd ≤ 0 then report scan text matches' (asked + 1) items
      else if maxResults ≤ items.length then some (asked + 1, items, true)
      else report scan text matches' (asked + 1) (items ++ [hitOf scan text found])

/-- What the scan knows behind a block. -/
def Scan.next (scan : Scan) (raw : List UInt8) : Scan :=
  let combined := scan.overlap ++ raw
  { overlap := combined.drop (combined.length - 4096)
    absolute := scan.absolute + raw.length
    linesSeen := scan.linesSeen + raw.count 10 }

/-- The loop over the blocks. -/
def searchBlocks : Scan → List (List UInt8) → Nat → List LogHit → Option (List LogHit × Bool)
  | _, [], _, items => some (items, false)
  | scan, raw :: blocks, asked, items =>
    if late asked then none
    else
      let text := escaped (scan.overlap ++ raw)
      match report late maxResults scan text (finditer fold query 0 0 text) (asked + 1) items with
      | none => none
      | some (_, items, true) => some (items, true)
      | some (asked, items, false) => searchBlocks (scan.next raw) blocks asked items

/-- `search_log`, where the log is read in blocks up to the size it had when it was opened, or is
not there. -/
def searchLog (log : Option (List (List UInt8))) : Option (List LogHit × Bool) :=
  if query = [] then some ([], false)
  else
    match log with
    | none => some ([], false)
    | some blocks => searchBlocks fold late maxResults query {} blocks 0 []

/-! ## The hits of a block -/

/-- What a block adds to the items if they never become too many. -/
def blockHits (scan : Scan) (raw : List UInt8) : List LogHit :=
  let text := escaped (scan.overlap ++ raw)
  ((finditer fold query 0 0 text).filter
    (fun found => scan.overlap.length < (unescaped (text.take found.2)).length)).map
    (hitOf scan text)

/-- What all the blocks add. -/
def allHits : Scan → List (List UInt8) → List LogHit
  | _, [] => []
  | scan, raw :: blocks => blockHits fold query scan raw ++ allHits (scan.next raw) blocks

variable {fold late maxResults query} {scan : Scan} {text : List Point}
  {matches' : List (Nat × Nat)} {asked : Nat}
variable {items : List LogHit} {blocks : List (List UInt8)} {done raw : List UInt8}

/-- A list of items with more behind it that has been cut. -/
def Cut (maxResults : Nat) (items more : List LogHit) (result : List LogHit × Bool) : Prop :=
  result.1 = (items ++ more).take maxResults ∧ result.2 = decide (maxResults < (items ++ more).length)

/-- What the loop over the matches leaves. -/
theorem report_spec {result : Nat × List LogHit × Bool} (room : items.length ≤ maxResults)
    (same : report late maxResults scan text matches' asked items = some result) :
    let more := (matches'.filter
      (fun found => scan.overlap.length < (unescaped (text.take found.2)).length)).map (hitOf scan text)
    Cut maxResults items more result.2 ∧
      (result.2.2 = false → result.2.1 = items ++ more ∧ result.2.1.length ≤ maxResults) := by
  induction matches' generalizing asked items with
  | nil =>
    cases same
    refine ⟨⟨?_, ?_⟩, fun _ => ⟨?_, room⟩⟩
    · simp [List.take_of_length_le room]
    · simpa using room
    · simp
  | cons found matches' ih =>
    simp only [report, Option.ite_none_left_eq_some] at same
    obtain ⟨_, same⟩ := same
    split at same
    · next early =>
      have past : ¬scan.overlap.length < (unescaped (text.take found.2)).length := by omega
      simpa [past] using ih room same
    · next beyond =>
      have inside : scan.overlap.length < (unescaped (text.take found.2)).length := by omega
      split at same
      · next full =>
        cases same
        have isFull : items.length = maxResults := Nat.le_antisymm room full
        refine ⟨⟨?_, ?_⟩, fun none => by cases none⟩
        · simp [isFull]
        · simp [isFull, inside]
      · next free =>
        have roomy : (items ++ [hitOf scan text found]).length ≤ maxResults := by
          rw [List.length_append, List.length_singleton]
          omega
        simpa [inside, Cut] using ih roomy same

/-- What the loop over the blocks leaves. -/
theorem searchBlocks_spec {result : List LogHit × Bool} (room : items.length ≤ maxResults)
    (same : searchBlocks fold late maxResults query scan blocks asked items = some result) :
    Cut maxResults items (allHits fold query scan blocks) result := by
  induction blocks generalizing scan asked items with
  | nil =>
    cases same
    refine ⟨?_, ?_⟩
    · simp [allHits, List.take_of_length_le room]
    · simpa [allHits] using room
  | cons raw blocks ih =>
    simp only [searchBlocks, Option.ite_none_left_eq_some] at same
    obtain ⟨_, same⟩ := same
    split at same
    · cases same
    · next more reported =>
      cases same
      obtain ⟨⟨isItems, isMore⟩, -⟩ := report_spec room reported
      have beyond : maxResults < (items ++ blockHits fold query scan raw).length :=
        of_decide_eq_true isMore.symm
      rw [Cut, allHits, ← List.append_assoc, List.take_append_of_le_length (Nat.le_of_lt beyond),
        List.length_append]
      exact ⟨isItems, (decide_eq_true (Nat.lt_of_lt_of_le beyond (Nat.le_add_right _ _))).symm⟩
    · next reported =>
      obtain ⟨-, rest⟩ := report_spec room reported
      obtain ⟨isItems, roomy⟩ := rest rfl
      have later := ih roomy same
      rw [show _ = items ++ blockHits fold query scan raw from isItems] at later
      rw [Cut, allHits, ← List.append_assoc]
      exact later

/-- A search that gives nothing was late. -/
theorem late_of_report (same : report late maxResults scan text matches' asked items = none) :
    ∃ n, late n = true := by
  induction matches' generalizing asked items with
  | nil => cases same
  | cons found matches' ih =>
    by_cases isLate : late asked = true
    · exact ⟨asked, isLate⟩
    · simp only [report, if_neg isLate] at same
      split at same
      · exact ih same
      · split at same
        · cases same
        · exact ih same

theorem late_of_none
    (same : searchBlocks fold late maxResults query scan blocks asked items = none) :
    ∃ n, late n = true := by
  induction blocks generalizing scan asked items with
  | nil => cases same
  | cons raw blocks ih =>
    by_cases isLate : late asked = true
    · exact ⟨asked, isLate⟩
    · simp only [searchBlocks, if_neg isLate] at same
      split at same
      · next reported => exact late_of_report reported
      · cases same
      · exact ih same

/-! ## The hits of the log -/

/-- A scan that has read the log so far. -/
structure Scan.Read (scan : Scan) (done : List UInt8) : Prop where
  overlap : scan.overlap = done.drop (done.length - 4096)
  absolute : scan.absolute = done.length
  linesSeen : scan.linesSeen = done.count 10

theorem Scan.Read.combined (read : scan.Read done) (raw : List UInt8) :
    scan.overlap ++ raw = (done ++ raw).drop (done.length - 4096) := by
  rw [read.overlap, List.drop_append_of_le_length (Nat.sub_le _ _)]

theorem Scan.Read.next (read : scan.Read done) (raw : List UInt8) :
    (scan.next raw).Read (done ++ raw) := by
  refine ⟨?_, ?_, ?_⟩
  · have kept : done.length - 4096 + ((done ++ raw).length - (done.length - 4096) - 4096) =
      (done ++ raw).length - 4096 := by
      rw [List.length_append]
      omega
    rw [Scan.next, read.combined, List.drop_drop, List.length_drop, kept]
  · simp [Scan.next, read.absolute]
  · simp [Scan.next, read.linesSeen]

/-- The overlap is long enough for a query of so many characters. -/
theorem overlap_enough (short : query.length ≤ 1024) (done : List UInt8) :
    done.length - 4096 + 4 * query.length ≤ done.length ∨ done.length - 4096 = 0 := by omega

/-- A hit is where the bytes of the log say, whatever block it is found in. -/
theorem offset_hitOf (read : scan.Read done) (text : List Point) (found : Nat × Nat) :
    (hitOf scan text found).offset = done.length - 4096 + (unescaped (text.take found.1)).length := by
  have overlap : scan.overlap.length = done.length - (done.length - 4096) := by
    rw [read.overlap, List.length_drop]
  simp only [hitOf, read.absolute, overlap]
  omega

theorem line_hitOf (read : scan.Read done) (raw after : List UInt8) (found : Nat × Nat) :
    let hit := hitOf scan (escaped (scan.overlap ++ raw)) found
    hit.line = ((done ++ (raw ++ after)).take hit.offset).count 10 + 1 := by
  intro hit
  have lines : ((escaped (scan.overlap ++ raw)).take found.1).count newline =
      ((scan.overlap ++ raw).take
        (unescaped ((escaped (scan.overlap ++ raw)).take found.1)).length).count 10 :=
    count_take (show (10 : UInt8) < 0x80 by decide) found.1 (scan.overlap ++ raw)
  have within := length_unescaped_take found.1 (scan.overlap ++ raw)
  have dropped : (done ++ (raw ++ after)).drop (done.length - 4096) = scan.overlap ++ raw ++ after := by
    rw [read.combined, ← List.append_assoc, List.drop_append_of_le_length]
    rw [List.length_append]
    omega
  have before : (done ++ (raw ++ after)).take hit.offset = done.take (done.length - 4096) ++
      (scan.overlap ++ raw).take (unescaped ((escaped (scan.overlap ++ raw)).take found.1)).length := by
    rw [offset_hitOf read, List.take_add, dropped, List.take_append_of_le_length (Nat.sub_le _ _),
      List.take_append_of_le_length within]
  have parts := congrArg (List.count (10 : UInt8)) (List.take_append_drop (done.length - 4096) done)
  rw [List.count_append] at parts
  rw [before, List.count_append, ← lines]
  simp only [hit, hitOf, read.linesSeen, ← parts, read.overlap]
  omega

theorem offsets_placed {least : Nat} (nonempty : query ≠ []) (raw : List UInt8)
    (overlap : scan.overlap.length + least = done.length)
    (placed : ∀ found, (hitOf scan (escaped (scan.overlap ++ raw)) found).offset =
      least + (unescaped ((escaped (scan.overlap ++ raw)).take found.1)).length) :
    (blockHits fold query scan raw).map LogHit.offset =
    ((findBytes fold query least 0 (scan.overlap ++ raw)).filter
      (fun found => done.length < found.2)).map Prod.fst := by
  have scanned := @finditer_bytes κ _ fold query (scan.overlap ++ raw) nonempty least [] _ 0 rfl
  simp only [List.length_nil, List.nil_append, unescaped_nil, List.take_zero, Nat.add_zero] at scanned
  rw [← scanned, List.filter_map, List.map_map, blockHits, List.map_map]
  have filtered : ∀ found : Nat × Nat,
      decide (scan.overlap.length < (unescaped ((escaped (scan.overlap ++ raw)).take found.2)).length) =
        decide (done.length < least +
          (unescaped ((escaped (scan.overlap ++ raw)).take found.2)).length) := by
    intro found
    rw [← overlap, decide_eq_decide]
    omega
  simp only [filtered]
  exact List.map_congr_left (fun found _ => placed found)

theorem offsets_blockHits (nonempty : query ≠ []) (read : scan.Read done) (raw : List UInt8) :
    (blockHits fold query scan raw).map LogHit.offset =
      ((findBytes fold query (done.length - 4096) 0 ((done ++ raw).drop (done.length - 4096))).filter
        (fun found => done.length < found.2)).map Prod.fst := by
  rw [← read.combined]
  refine offsets_placed nonempty raw ?_ (offset_hitOf read _)
  rw [read.overlap, List.length_drop]
  omega

/-- The blocks find what the log has, each hit once and in order, and all of them if the query
cannot overlap itself. -/
theorem offsets_allHits (nonempty : query ≠ []) (short : query.length ≤ 1024) (read : scan.Read done) :
    let content := done ++ blocks.flatten
    let found := (window done.length content.length (occurrences fold query 0 content)).map Prod.fst
    ((allHits fold query scan blocks).map LogHit.offset).Sublist found ∧
      (Unbordered fold query → (allHits fold query scan blocks).map LogHit.offset = found) := by
  induction blocks generalizing scan done with
  | nil => simp [allHits, window_empty]
  | cons raw blocks ih =>
    intro content found
    have isContent : content = done ++ (raw ++ blocks.flatten) := rfl
    obtain ⟨later, all⟩ := ih (read.next raw)
    rw [List.append_assoc, ← isContent] at later all
    have ordered := (@occurrences_ordered κ _ fold query content 0 nonempty).imp (fun both => both.2)
    have split : found =
      (window done.length (done ++ raw).length (occurrences fold query 0 content)).map Prod.fst ++
        (window (done ++ raw).length content.length (occurrences fold query 0 content)).map
          Prod.fst := by
      rw [← List.map_append, window_append ordered]
      · simp
      · simp [isContent]
    have first := @window_tail _ _ fold query done raw blocks.flatten _ nonempty
      (overlap_enough short done)
    rw [← List.length_append, ← isContent] at first
    rw [split, first, allHits, List.map_append, offsets_blockHits nonempty read]
    refine ⟨List.Sublist.append ?_ later, fun unbordered => ?_⟩
    · exact (findBytes_sublist.filter _).map _
    · rw [all unbordered, findBytes_unbordered unbordered
        (fun i below => absurd below (Nat.not_lt_zero i))]

theorem line_allHits (read : scan.Read done) : ∀ hit ∈ allHits fold query scan blocks,
    hit.line = ((done ++ blocks.flatten).take hit.offset).count 10 + 1 := by
  induction blocks generalizing scan done with
  | nil => simp [allHits]
  | cons raw blocks ih =>
    intro hit member
    rw [allHits, List.mem_append] at member
    obtain first | later := member
    · simp only [blockHits, List.mem_map] at first
      obtain ⟨found, _, rfl⟩ := first
      exact line_hitOf read raw blocks.flatten found
    · have := ih (read.next raw) hit later
      rwa [List.append_assoc] at this

/-- However the reads cut the log, and whatever its bytes are: a search that is not late finds
places where the query is spelled, in order, each once and with its line; and where no part of the
query can overlap another it finds the first of all these places, and says so if there are more. -/
theorem searchLog_exact (fold : Char → κ) (late : Nat → Bool) (maxResults : Nat) (query : List Char)
    (blocks : List (List UInt8))
    (nonempty : query ≠ []) (short : query.length ≤ 1024) :
    let found := (occurrences fold query 0 blocks.flatten).map Prod.fst
    (searchLog fold late maxResults query (some blocks) = none → ∃ n, late n = true) ∧
      ∀ items truncated, searchLog fold late maxResults query (some blocks) = some (items, truncated) →
        (items.map LogHit.offset).Sublist found ∧
        (∀ hit ∈ items, hit.line = (blocks.flatten.take hit.offset).count 10 + 1) ∧
        (Unbordered fold query → items.map LogHit.offset = found.take maxResults ∧
          truncated = decide (maxResults < found.length)) := by
  intro found
  have read : Scan.Read {} [] := ⟨rfl, rfl, rfl⟩
  rw [searchLog, if_neg nonempty]
  refine ⟨late_of_none, fun items truncated same => ?_⟩
  obtain ⟨isItems, isMore⟩ := searchBlocks_spec (Nat.zero_le _) same
  obtain ⟨sub, all⟩ := @offsets_allHits κ _ fold query _ blocks [] nonempty short read
  simp only [List.nil_append, List.length_nil, window_all nonempty] at sub all isItems isMore
  refine ⟨?_, fun hit member => ?_, fun unbordered => ?_⟩
  · rw [isItems]
    exact ((List.take_sublist _ _).map _).trans sub
  · rw [isItems] at member
    exact line_allHits read hit (List.mem_of_mem_take member)
  · have isAll := all unbordered
    rw [isItems, isMore, List.map_take, isAll]
    refine ⟨rfl, ?_⟩
    rw [show found.length = _ from congrArg List.length isAll.symm, List.length_map]

/-- A hit across two blocks, a broken character and another hit across blocks, with room for one. -/
theorem searchLog_exact_cut : ∃ items, searchLog Char.toLower (fun _ => false) 1 ['a', 'b']
    (some [[0x41], [0x62, 0x0A, 0xE2, 0x61], [0x42]]) = some (items, true) ∧
      items.map LogHit.offset = [0] := by
  have unbordered : Unbordered Char.toLower ['a', 'b'] := by
    intro shift positive below
    obtain rfl : shift = 1 := by
      rw [List.length_cons, List.length_singleton] at below
      omega
    exact ⟨0, 'b', rfl, 'a', rfl, by decide⟩
  obtain ⟨timely, exactly⟩ := searchLog_exact Char.toLower (fun _ => false) 1 ['a', 'b']
    [[0x41], [0x62, 0x0A, 0xE2, 0x61], [0x42]] (by decide) (by decide)
  have found : (occurrences Char.toLower ['a', 'b'] 0
    [[0x41], [0x62, 0x0A, 0xE2, 0x61], [0x42]].flatten).map Prod.fst = [0, 4] := by
    decide
  cases same : searchLog Char.toLower (fun _ => false) 1 ['a', 'b']
    (some [[0x41], [0x62, 0x0A, 0xE2, 0x61], [0x42]]) with
  | none =>
    obtain ⟨_, never⟩ := timely same
    cases never
  | some result =>
    obtain ⟨items, truncated⟩ := result
    obtain ⟨isItems, isMore⟩ := (exactly items truncated same).2.2 unbordered
    rw [found] at isItems isMore
    exact ⟨items, by rw [isMore]; rfl, isItems⟩

end Search

end LocalFlow.LogSearch
