import LocalFlow.EnqueueOrder
import LocalFlow.Snapshots
import LocalFlow.Service.Starts
import LocalFlow.Library.Base64
import LocalFlow.Library.Quoted

/-! Reading all tasks page by page. The reader follows the cursor of each page while the service
goes on; a cursor is the sort key of the page's last task, as a text that goes through the client. -/
namespace LocalFlow
open Numeral Transition

namespace Datetime

/-- A number behind a mark. -/
def field (mark : Char) (width : Nat) : List Char → Option (Nat × List Char)
  | [] => none
  | first :: rest => if first = mark then read 10 width rest else none

def readFraction : List Char → Option (Nat × List Char)
  | '.' :: rest => read 10 6 rest
  | rest => some (0, rest)

/-- The reading a stored text shows; only texts `isoformat` writes are stored. -/
def parse (stored : String) : Option Datetime := do
  let (year, rest) ← read 10 4 stored.toList
  let (month, rest) ← field '-' 2 rest
  let (day, rest) ← field '-' 2 rest
  let (hour, rest) ← field 'T' 2 rest
  let (minute, rest) ← field ':' 2 rest
  let (second, rest) ← field ':' 2 rest
  let (microsecond, rest) ← readFraction rest
  if range : ((1 ≤ year ∧ year ≤ 9999) ∧ (1 ≤ month ∧ month ≤ 12) ∧ 1 ≤ day ∧ day ≤ 31) ∧
      hour < 24 ∧ minute < 60 ∧ second < 60 ∧ microsecond < 1000000 then
    if rest = "+00:00".toList then
      some ⟨year, month, day, hour, minute, second, microsecond, range.1, range.2⟩
    else none
  else none

theorem field_text (mark : Char) {width n : Nat} (range : n < 10 ^ width) (rest : List Char) :
    field mark width (mark :: (text 10 width n ++ rest)) = some (n, rest) := by
  rw [field, if_pos rfl]
  exact read_text (by decide) (by decide) range rest

theorem readFraction_fraction (time : Datetime) :
    readFraction time.fraction = some (time.microsecond, "+00:00".toList) := by
  unfold fraction
  split
  · rename_i whole
    rw [whole]
    rfl
  · exact read_text (by decide) (by decide) time.time_range.2.2.2 _

theorem parse_isoformat (time : Datetime) : parse time.isoformat = some time := by
  obtain ⟨⟨_, year⟩, ⟨_, month⟩, _, day⟩ := time.date_range
  obtain ⟨hour, minute, second, _⟩ := time.time_range
  have first : ∀ rest, read 10 4 (text 10 4 time.year ++ rest) = some (time.year, rest) :=
    fun rest => read_text (by decide) (by decide) (by omega) rest
  rw [parse, isoformat, String.toList_ofList, first]
  simp only [Option.bind_eq_bind, Option.bind_some]
  rw [field_text '-' (by omega)]
  simp only [Option.bind_some]
  rw [field_text '-' (by omega)]
  simp only [Option.bind_some]
  rw [field_text 'T' (by omega)]
  simp only [Option.bind_some]
  rw [field_text ':' (by omega)]
  simp only [Option.bind_some]
  rw [field_text ':' (by omega)]
  simp only [Option.bind_some, readFraction_fraction]
  rw [dif_pos ⟨time.date_range, time.time_range⟩, if_pos trivial]

end Datetime

/-- `json.dumps` of a sort key, with the instant as `isoformat` writes it, as unpadded base64. -/
def encodeCursor (task : TaskRecord) : Option String :=
  (Datetime.parse task.createdAt).map (fun createdAt =>
    let raw := String.ofList (Quoted.writePair createdAt.isoformat.toList task.id.toList)
    String.ofList (Base64.trim (Base64.encode raw.toUTF8.data.toList)))

/-- The cursor of a request, `none` when the request is refused with 422. Only UTF-8 is read, of the
encodings `json.loads` detects. -/
def decodeCursor : Option String → Option (Option SortKey)
  | none => some none
  | some cursor =>
    if cursor = "" then some none
    else do
      let bytes ← Base64.decode (Base64.repad cursor.toList)
      let raw ← String.fromUTF8? ⟨bytes.toArray⟩
      let (createdAt, id) ← Quoted.readPair raw.toList
      some (some (toLex (String.ofList createdAt, String.ofList id)))

/-- The text in a cursor is read back. -/
theorem decodeCursor_base64 {raw : String} (visible : raw ≠ "") :
    decodeCursor (some (String.ofList (Base64.trim (Base64.encode raw.toUTF8.data.toList)))) =
      (Quoted.readPair raw.toList).map (fun pair =>
        some (toLex (String.ofList pair.1, String.ofList pair.2))) := by
  have shown : String.ofList (Base64.trim (Base64.encode raw.toUTF8.data.toList)) ≠ "" := by
    intro empty
    have trimmed : Base64.trim (Base64.encode raw.toUTF8.data.toList) = [] := by
      simpa using congrArg String.toList empty
    have whole := Base64.repad_trim raw.toUTF8.data.toList
    have back := Base64.decode_encode raw.toUTF8.data.toList
    rw [← whole, trimmed] at back
    have size : raw.toUTF8.size = 0 := by
      rw [← ByteArray.size_data, ← Array.length_toList, ← Option.some.inj back]
      rfl
    exact visible (by simpa using size)
  rw [decodeCursor, if_neg shown, String.toList_ofList, Base64.repad_trim, Base64.decode_encode]
  simp only [Option.bind_eq_bind, Option.bind_some, fromUTF8?_bytes]
  cases Quoted.readPair raw.toList <;> rfl

/-- A cursor the server issues decodes to the stored sort key. -/
theorem decodeCursor_encode {task : TaskRecord} {createdAt : Datetime}
    (stored : task.createdAt = createdAt.isoformat) :
    ∃ cursor, encodeCursor task = some cursor ∧
      decodeCursor (some cursor) = some (some task.sortKey) := by
  rw [encodeCursor, stored, Datetime.parse_isoformat]
  refine ⟨_, rfl, ?_⟩
  rw [decodeCursor_base64, String.toList_ofList, Quoted.readPair_writePair, Option.map_some,
    String.ofList_toList, String.ofList_toList, TaskRecord.sortKey, stored]
  intro empty
  simpa [Quoted.writePair] using congrArg String.toList empty

structure TaskPage where
  items : List TaskRecord
  nextCursor : Option String

namespace Db

/-- `GET /tasks`; `none` when the request fails. One row more than a page is read to see whether
there is a next page. -/
def taskPage (db : Db) (query : Query) (limit : Nat) (cursor : Option String) : Option TaskPage := do
  let before ← if 1 ≤ limit ∧ limit ≤ 200 then decodeCursor cursor else none
  let records := db.listTasks { query with limit := limit + 1, before, after := none, ascending := false }
  let hasMore := limit < records.length
  let records := records.take limit
  if hasMore then
    match records.getLast? with
    | some last => (encodeCursor last).map (fun cursor => ⟨records, some cursor⟩)
    | none => some ⟨records, none⟩
  else some ⟨records, none⟩

end Db

/-- Only columns that never change are asked for. -/
structure Query.Fixed (query : Query) : Prop where
  states : query.states = []
  started : query.startedFrom = none ∧ query.startedTo = none
  ended : query.endedFrom = none ∧ query.endedTo = none

/-- What a filter on fixed columns sees of a task, and its place. -/
structure Listing where
  place : SortKey
  name : String
  labels : List String

def TaskRecord.listing (row : TaskRecord) : Listing := ⟨row.sortKey, row.name, row.labels⟩

def Query.matches (query : Query) (row : TaskRecord) : Bool :=
  query.name.all (fun name => name = "" || likeContains name row.name) &&
  query.labels.all (fun label => label ∈ row.labels) &&
  withinBounds query.createdFrom query.createdTo (some row.createdAt)

/-- The filters of a request, without its place. -/
def Query.chooses (query : Query) (row : TaskRecord) : Bool :=
  { query with before := none, after := none }.selects row

/-- From the latest place to the earliest. -/
def TaskRecord.descending (row : TaskRecord) : SortKeyᵒᵈ := OrderDual.toDual row.sortKey

theorem before_clause (cursor : Option SortKey) (row : TaskRecord) :
    cursor.all (fun key => row.createdAt < (ofLex key).1 ||
        row.createdAt = (ofLex key).1 && row.id < (ofLex key).2) = true ↔
      Keyset.After TaskRecord.descending (cursor.map OrderDual.toDual) row := by
  cases cursor with
  | none => simp
  | some key =>
    simp only [Option.all_some, Bool.or_eq_true, decide_eq_true_eq, Bool.and_eq_true, Option.map_some,
      Keyset.after_some, TaskRecord.descending, OrderDual.toDual_lt_toDual, TaskRecord.sortKey,
      Prod.Lex.lt_iff, ofLex_toLex]

namespace Db

/-- The rows of a page and the one behind it are a keyset page over the chosen tasks. -/
theorem listTasks_chosen (db : Db) {query : Query} {limit : Nat} (small : limit ≤ 200)
    (before : Option SortKey) :
    db.listTasks { query with limit := limit + 1, before, after := none, ascending := false } =
      Keyset.page TaskRecord.descending (limit + 1) (before.map OrderDual.toDual)
        (db.tasks.rows.filter query.chooses) := by
  have size : min (max (limit + 1) 1) taskPageSize = limit + 1 := by
    unfold taskPageSize
    omega
  simp only [listTasks, Bool.false_eq_true, if_false, size, Keyset.page, Keyset.remaining,
    Keyset.ordered,
    List.filter_filter]
  congr 1
  have chosen : db.tasks.rows.filter
        { query with limit := limit + 1, before, after := none, ascending := false }.selects =
      db.tasks.rows.filter (fun row =>
        decide (Keyset.After TaskRecord.descending (before.map OrderDual.toDual) row) &&
        query.chooses row) := by
    refine List.filter_congr (fun row _ => ?_)
    have clause := before_clause before row
    rw [Bool.eq_iff_iff, Bool.and_eq_true, decide_eq_true_eq, ← clause]
    simp only [Query.selects, Query.chooses, Option.all_none, Bool.and_true, Bool.and_eq_true]
    exact and_comm
  rw [chosen]
  rfl

/-- Filters on fixed columns choose by what never changes. -/
theorem listTasks_eq (db : Db) {query : Query} (fixed : query.Fixed) {limit : Nat} (small : limit ≤ 200)
    (before : Option SortKey) :
    db.listTasks { query with limit := limit + 1, before, after := none, ascending := false } =
      Keyset.page TaskRecord.descending (limit + 1) (before.map OrderDual.toDual)
        (db.tasks.rows.filter query.matches) := by
  have same : query.chooses = query.matches := by
    funext row
    simp [Query.chooses, Query.selects, Query.matches, withinBounds, fixed.states, fixed.started,
      fixed.ended]
  rw [listTasks_chosen db small before, same]

theorem distinct_descending (db : Db) (query : Query) :
    Keyset.Distinct TaskRecord.descending (db.tasks.rows.filter query.matches) :=
  Keyset.Distinct.sublist (distinct_sortKeys db.tasks) List.filter_sublist

/-- Every stored task carries a reading of the clock. -/
def Dates (db : Db) : Prop := ∀ row ∈ db.tasks.rows, ∃ time : Datetime, row.createdAt = time.isoformat

end Db

/-- A page shows the matching tasks before a place, from the latest on, and has a cursor for the
rest. -/
structure TaskPage.Shows (page : TaskPage) (db : Db) (query : Query) (before : Option SortKey) :
    Prop where
  member : ∀ item ∈ page.items, item ∈ db.tasks.rows ∧ query.matches item = true ∧
    ∀ place ∈ before, item.sortKey < place
  descending : page.items.Pairwise (fun a b => b.sortKey < a.sortKey)
  rest : ∀ row ∈ db.tasks.rows, query.matches row = true → (∀ place ∈ before, row.sortKey < place) →
    row ∈ page.items ∨ page.nextCursor ≠ none ∧ ∀ last ∈ page.items.getLast?, row.sortKey < last.sortKey
  cursor : ∀ cursor, page.nextCursor = some cursor → ∃ last, page.items.getLast? = some last ∧
    decodeCursor (some cursor) = some (some last.sortKey)

theorem after_iff (before : Option SortKey) (row : TaskRecord) :
    Keyset.After TaskRecord.descending (before.map OrderDual.toDual) row ↔
      ∀ place ∈ before, row.sortKey < place := by
  cases before with
  | none => simp
  | some place => simp [TaskRecord.descending]

/-- Every request for a page with a cursor of the server is answered. -/
theorem taskPage_shows {db : Db} {query : Query} (fixed : query.Fixed) {limit : Nat}
    (range : 1 ≤ limit ∧ limit ≤ 200)
    (dates : db.Dates) {cursor : Option String} {before : Option SortKey}
    (decoded : decodeCursor cursor = some before) :
    ∃ page, db.taskPage query limit cursor = some page ∧ page.Shows db query before := by
  have distinct := db.distinct_descending query
  set rows := db.tasks.rows.filter query.matches with isRows
  set place := before.map OrderDual.toDual with isPlace
  have items : (Keyset.page TaskRecord.descending (limit + 1) place rows).take limit =
      Keyset.page TaskRecord.descending limit place rows := by
    rw [Keyset.page, Keyset.page, List.take_take, min_eq_left (by omega)]
  have member : ∀ item ∈ Keyset.page TaskRecord.descending limit place rows, item ∈ db.tasks.rows ∧
      query.matches item = true ∧ ∀ place ∈ before, item.sortKey < place := by
    intro item listed
    obtain ⟨stored, after⟩ := Keyset.mem_page listed
    rw [isRows, List.mem_filter] at stored
    exact ⟨stored.1, stored.2, (after_iff before item).mp after⟩
  have sorted : (Keyset.page TaskRecord.descending limit place rows).Pairwise
    (fun a b => b.sortKey < a.sortKey) :=
    (distinct.remaining_strict place).sublist (List.take_sublist _ _)
  rw [Db.taskPage, if_pos range, decoded]
  simp only [Option.bind_eq_bind, Option.bind_some]
  rw [Db.listTasks_eq db fixed range.2, items]
  split
  · rename_i look
    have more : limit < (Keyset.page TaskRecord.descending (limit + 1) place rows).length := look
    have length := Keyset.length_page TaskRecord.descending limit place rows
    have whole := Keyset.length_page TaskRecord.descending (limit + 1) place rows
    cases found : (Keyset.page TaskRecord.descending limit place rows).getLast? with
    | none =>
      have empty := congrArg List.length (List.getLast?_eq_none_iff.mp found)
      rw [List.length_nil] at empty
      omega
    | some last =>
      obtain ⟨time, stamped⟩ := dates last (member last (List.mem_of_getLast? found)).1
      obtain ⟨text, encoded, decodes⟩ := decodeCursor_encode stamped
      refine ⟨_, congrArg (Option.map _) encoded, member, sorted,
        fun row stored matching earlier => ?_, ?_⟩
      · have listed : row ∈ rows := List.mem_filter.mpr ⟨stored, matching⟩
        refine (distinct.page_or_after found listed ((after_iff before row).mpr earlier)).imp_right
          (fun later => ?_)
        constructor
        · exact Option.some_ne_none _
        · intro other isLast
          rw [found] at isLast
          cases isLast
          exact later
      · intro cursor same
        cases same
        exact ⟨last, found, decodes⟩
  · rename_i look
    have fits : ¬ limit < (Keyset.page TaskRecord.descending (limit + 1) place rows).length := look
    have whole := Keyset.length_page TaskRecord.descending (limit + 1) place rows
    refine ⟨_, rfl, member, sorted, fun row stored matching earlier => .inl ?_, by simp⟩
    have listed : row ∈ Keyset.remaining TaskRecord.descending place rows :=
      Keyset.mem_remaining.mpr
        ⟨List.mem_filter.mpr ⟨stored, matching⟩, (after_iff before row).mpr earlier⟩
    have all : Keyset.page TaskRecord.descending limit place rows =
      Keyset.remaining TaskRecord.descending place rows :=
      List.take_of_length_le (by omega)
    exact all ▸ listed

/-- An edit that submits nothing leaves every task where it is listed. -/
theorem listing_edit {db next : Db} (edit : Edit (fun _ => False) db next) {id : TaskId}
    {row : TaskRecord}
    (found : next.getTask id = some row) :
    ∃ old, db.getTask id = some old ∧ row.listing = old.listing := by
  obtain ⟨_, _, _, never, _⟩ | ⟨old, stored,
    rfl | ⟨set, frame, rfl⟩ | ⟨state, fields, status, legal, stamps, rfl⟩⟩ :=
    edit.origin found
  · exact never.elim
  · exact ⟨row, stored, rfl⟩
  · obtain ⟨stop, draft, _⟩ := frame.submitted old
    refine ⟨old, stored, ?_⟩
    rw [TaskRecord.listing, TaskRecord.listing, TaskRecord.sortKey, TaskRecord.sortKey,
      frame.createdAt, frame.id, draft]
  · have live := TaskState.mayBecome_not_terminal legal
    have kept := Store.retains_moved old status (fun going => stamps.custom going old) live
    refine ⟨old, stored, ?_⟩
    rw [TaskRecord.listing, TaskRecord.listing, TaskRecord.sortKey, TaskRecord.sortKey,
      moved_createdAt, moved_id,
      kept.name, kept.labels]

theorem listing_updates {db next : Db} (updates : Updates db next) {id : TaskId} {row : TaskRecord}
    (found : next.getTask id = some row) :
    ∃ old, db.getTask id = some old ∧ row.listing = old.listing := by
  induction updates generalizing row with
  | refl => exact ⟨row, found, rfl⟩
  | tail _ edit ih =>
    obtain ⟨middle, stood, kept⟩ := listing_edit edit found
    obtain ⟨old, stored, same⟩ := ih stood
    exact ⟨old, stored, kept.trans same⟩

/-- A task after a step was listed there before, or a submission has just stamped it. -/
theorem listing_step {config : Config} {s t : System} {act : Act} (stepped : Step config s act t)
    {row : TaskRecord}
    (member : row ∈ t.db.tasks.rows) : (∃ old ∈ s.db.tasks.rows, row.listing = old.listing) ∨
      act.drafts ≠ [] ∧ row.createdAt = s.wall := by
  have found : t.db.getTask row.id = some row := Tasks.get?_of_mem member
  by_cases drafts : act.drafts = []
  · have updates : Updates s.db t.db := changes_step stepped (by simp [drafts])
    obtain ⟨old, stored, same⟩ := listing_updates updates found
    exact .inl ⟨old, (Tasks.get?_mem stored).1, same⟩
  · obtain stored | ⟨_, draft, status, isNew⟩ := added_step stepped drafts found
    · exact .inl ⟨row, (Tasks.get?_mem stored).1, rfl⟩
    · exact .inr ⟨drafts, by rw [isNew]; rfl⟩

/-- New submissions are stamped with a reading later than the last task of a page. -/
def SubmitsLater (page : TaskPage) (s : System) (act : Act) : Prop :=
  act.drafts ≠ [] → ∃ time : Datetime, s.wall = time.isoformat ∧ ∀ last ∈ page.items.getLast?,
    ∀ placed : Datetime, last.createdAt = placed.isoformat → placed.fields < time.fields

/-- A reader who follows the cursor of each page, while the service goes on between any two pages:
the pages read so far from a first one on, and the page just read. -/
inductive Reading (config : Config) (query : Query) (limit : Nat) (s : System) (first : TaskPage) :
    List TaskPage → TaskPage → System → Prop where
  | start (fetched : s.db.taskPage query limit none = some first) : Reading config query limit s
      first [] first s
  | follow {pages : List TaskPage} {page next : TaskPage} {t u : System} {acts : List Act}
      {key : String}
      (reading : Reading config query limit s first pages page t) (cursor : page.nextCursor = some key)
      (run : Run (Guarded (Step config) (SubmitsLater first)) t acts u)
      (fetched : u.db.taskPage query limit (some key) = some next) :
      Reading config query limit s first (pages ++ [page]) next u

/-- The tasks on some pages. -/
def listed (pages : List TaskPage) : List TaskRecord := pages.flatMap TaskPage.items

section Readings
variable {config : Config} {query : Query} {limit : Nat} {s t u : System} {first page : TaskPage}
  {pages : List TaskPage} {acts : List Act}

/-- A stored task stood in its place when the reading began, or was submitted later than the first
page. -/
def Settled (s : System) (first : TaskPage) (db : Db) : Prop :=
  db.Dates ∧ ∀ row ∈ db.tasks.rows, (∃ old ∈ s.db.tasks.rows, row.listing = old.listing) ∨
    ∀ last ∈ first.items.getLast?, last.sortKey < row.sortKey

theorem settled_step (dates : ∀ item ∈ first.items, ∃ time : Datetime, item.createdAt = time.isoformat)
    (settled : Settled s first t.db) {act : Act}
    (step : Guarded (Step config) (SubmitsLater first) t act u) :
    Settled s first u.db := by
  obtain ⟨stepped, later⟩ := step
  constructor
  · intro row member
    obtain ⟨old, stood, same⟩ | ⟨drafts, stamped⟩ := listing_step stepped member
    · obtain ⟨time, stamped⟩ := settled.1 old stood
      exact ⟨time, (congrArg (fun listing => (ofLex listing.place).1) same).trans stamped⟩
    · obtain ⟨time, wall, _⟩ := later drafts
      exact ⟨time, stamped.trans wall⟩
  · intro row member
    obtain ⟨old, stood, same⟩ | ⟨drafts, stamped⟩ := listing_step stepped member
    · obtain ⟨oldest, stored, kept⟩ | after := settled.2 old stood
      · exact .inl ⟨oldest, stored, same.trans kept⟩
      · refine .inr (fun last isLast => ?_)
        have place : row.sortKey = old.sortKey := congrArg Listing.place same
        rw [place]
        exact after last isLast
    · obtain ⟨time, wall, after⟩ := later drafts
      refine .inr (fun last isLast => ?_)
      obtain ⟨placed, isPlaced⟩ := dates last (List.mem_of_getLast? isLast)
      rw [TaskRecord.sortKey, TaskRecord.sortKey, Prod.Lex.lt_iff]
      left
      rw [ofLex_toLex, ofLex_toLex, isPlaced, stamped, wall, Datetime.isoformat_lt]
      exact after last isLast placed isPlaced

theorem settled_run (dates : ∀ item ∈ first.items, ∃ time : Datetime, item.createdAt = time.isoformat)
    (stamped : t.db.Dates) (run : Run (Guarded (Step config) (SubmitsLater first)) t acts u) :
    Settled t first u.db :=
  run.invariant (P := fun v => Settled t first v.db)
    (fun settled step => settled_step dates settled step)
    ⟨stamped, fun row member => .inl ⟨row, member, rfl⟩⟩

theorem Settled.trans (early : Settled s first t.db) (late : Settled t first u.db) :
    Settled s first u.db := by
  refine ⟨late.1, fun row member => ?_⟩
  obtain ⟨middle, stood, kept⟩ | after := late.2 row member
  · obtain ⟨old, stored, same⟩ | after := early.2 middle stood
    · exact .inl ⟨old, stored, kept.trans same⟩
    · refine .inr (fun last isLast => ?_)
      have place : row.sortKey = middle.sortKey := congrArg Listing.place kept
      rw [place]
      exact after last isLast
  · exact .inr after

theorem matches_listing {a b : TaskRecord} (same : a.listing = b.listing) :
    query.matches a = query.matches b := by
  have name : a.name = b.name := congrArg Listing.name same
  have labels : a.labels = b.labels := congrArg Listing.labels same
  have createdAt : a.createdAt = b.createdAt := congrArg (fun listing => (ofLex listing.place).1) same
  rw [Query.matches, Query.matches, name, labels, createdAt]

theorem last_least {items : List TaskRecord}
    (descending : items.Pairwise (fun a b => b.sortKey < a.sortKey))
    {last : TaskRecord} (isLast : items.getLast? = some last) {item : TaskRecord}
    (member : item ∈ items) :
    last.sortKey ≤ item.sortKey := by
  obtain ⟨initial, rfl⟩ := List.getLast?_eq_some_iff.mp isLast
  obtain early | rfl := List.mem_append.mp member |>.imp_right List.mem_singleton.mp
  · exact ((List.pairwise_append.mp descending).2.2 item early last (by simp)).le
  · exact le_rfl

theorem listed_snoc (pages : List TaskPage) (page : TaskPage) :
    listed (pages ++ [page]) = listed pages ++ page.items := by
  simp [listed]

theorem length_listed (full : ∀ page ∈ pages, page.items ≠ []) :
    pages.length ≤ (listed pages).length := by
  induction pages with
  | nil => simp
  | cons head rest ih =>
    have one := List.length_pos_iff.mpr (full head List.mem_cons_self)
    have more := ih (fun page member => full page (List.mem_cons_of_mem _ member))
    simp only [listed, List.flatMap_cons, List.length_append, List.length_cons] at more ⊢
    omega

/-- How far a reader has come. -/
structure Progress (query : Query) (s : System) (first : TaskPage) (pages : List TaskPage)
    (page : TaskPage)
    (t : System) : Prop where
  dates : ∀ item ∈ first.items, ∃ time : Datetime, item.createdAt = time.isoformat
  settled : Settled s first t.db
  known : ∀ item ∈ listed (pages ++ [page]), ∃ old ∈ s.db.tasks.rows, query.matches old = true ∧
    item.listing = old.listing
  descending : (listed (pages ++ [page])).Pairwise (fun a b => b.sortKey < a.sortKey)
  cursors : ∀ read ∈ pages ++ [page], ∀ cursor, read.nextCursor = some cursor →
    ∃ last, read.items.getLast? = some last ∧ decodeCursor (some cursor) = some (some last.sortKey)
  followed : ∀ read ∈ pages, read.nextCursor ≠ none
  least : ∀ last ∈ page.items.getLast?, ∀ item ∈ listed (pages ++ [page]), last.sortKey ≤ item.sortKey
  bound : ∀ last ∈ page.items.getLast?, ∃ head ∈ first.items.getLast?, last.sortKey ≤ head.sortKey
  early : ∀ old ∈ s.db.tasks.rows, query.matches old = true →
    (∀ head ∈ first.items.getLast?, ¬ old.sortKey < head.sortKey) →
      ∃ item ∈ listed (pages ++ [page]), item.sortKey = old.sortKey
  complete : ∀ row ∈ t.db.tasks.rows, query.matches row = true →
    (∃ old ∈ s.db.tasks.rows, query.matches old = true ∧ old.sortKey = row.sortKey) →
    (∃ item ∈ listed (pages ++ [page]), item.sortKey = row.sortKey) ∨
      page.nextCursor ≠ none ∧ ∀ last ∈ page.items.getLast?, row.sortKey < last.sortKey

theorem progress_start (stamped : s.db.Dates) (shows : first.Shows s.db query none) :
    Progress query s first [] first s := by
  have whole : listed ([] ++ [first]) = first.items := by simp [listed]
  constructor
  · exact fun item member => stamped item (shows.member item member).1
  · exact ⟨stamped, fun row member => .inl ⟨row, member, rfl⟩⟩
  · intro item member
    rw [whole] at member
    exact ⟨item, (shows.member item member).1, (shows.member item member).2.1, rfl⟩
  · rw [whole]
    exact shows.descending
  · intro read member
    obtain rfl : read = first := by simpa using member
    exact shows.cursor
  · exact fun read member => absurd member List.not_mem_nil
  · intro last isLast item member
    rw [whole] at member
    exact last_least shows.descending isLast member
  · exact fun last isLast => ⟨last, isLast, le_rfl⟩
  · intro old stored matching outside
    rw [whole]
    obtain shown | ⟨more, before⟩ := shows.rest old stored matching (fun place none => nomatch none)
    · exact ⟨old, shown, rfl⟩
    · obtain ⟨cursor, isCursor⟩ := Option.ne_none_iff_exists'.mp more
      obtain ⟨head, isHead, _⟩ := shows.cursor cursor isCursor
      exact absurd (before head isHead) (outside head isHead)
  · intro row stored matching _
    rw [whole]
    exact (shows.rest row stored matching (fun place none => nomatch none)).imp_left
      (fun shown => ⟨row, shown, rfl⟩)

theorem progress_follow {next : TaskPage} {last : TaskRecord}
    (progress : Progress query s first pages page t)
    (cursor : page.nextCursor ≠ none) (isLast : page.items.getLast? = some last)
    (later : Settled t first u.db)
    (shows : next.Shows u.db query (some last.sortKey)) :
    Progress query s first (pages ++ [page]) next u := by
  have whole := listed_snoc (pages ++ [page]) next
  obtain ⟨head, isHead, below⟩ := progress.bound last isLast
  have settled := progress.settled.trans later
  have smaller : ∀ item ∈ next.items, item.sortKey < last.sortKey :=
    fun item member => (shows.member item member).2.2 last.sortKey rfl
  constructor
  · exact progress.dates
  · exact settled
  · intro item member
    rw [whole, List.mem_append] at member
    obtain read | new := member
    · exact progress.known item read
    · obtain ⟨stored, matching, before⟩ := shows.member item new
      obtain ⟨old, stood, same⟩ | after := settled.2 item stored
      · exact ⟨old, stood, (matches_listing same).symm.trans matching, same⟩
      · exact absurd ((after head isHead).trans (smaller item new)) (not_lt.mpr below)
  · rw [whole, List.pairwise_append]
    exact ⟨progress.descending, shows.descending, fun item read new shown =>
      (smaller new shown).trans_le (progress.least last isLast item read)⟩
  · intro read member
    obtain old | same := List.mem_append.mp member
    · exact progress.cursors read old
    · rw [List.mem_singleton.mp same]
      exact shows.cursor
  · intro read member
    obtain old | same := List.mem_append.mp member
    · exact progress.followed read old
    · rw [List.mem_singleton.mp same]
      exact cursor
  · intro tail isTail item member
    rw [whole, List.mem_append] at member
    obtain read | new := member
    · exact (smaller tail (List.mem_of_getLast? isTail)).le.trans (progress.least last isLast item read)
    · exact last_least shows.descending isTail new
  · exact fun tail isTail => ⟨head, isHead, (smaller tail (List.mem_of_getLast? isTail)).le.trans below⟩
  · intro old stored matching outside
    obtain ⟨item, read, same⟩ := progress.early old stored matching outside
    exact ⟨item, whole ▸ List.mem_append_left _ read, same⟩
  · intro row stored matching begun
    rw [whole]
    by_cases behind : row.sortKey < last.sortKey
    · have earlier : ∀ place ∈ some last.sortKey, row.sortKey < place := by
        rintro _ ⟨⟩
        exact behind
      exact (shows.rest row stored matching earlier).imp_left
        (fun shown => ⟨row, List.mem_append_right _ shown, rfl⟩)
    · left
      obtain ⟨middle, stood, same⟩ | after := later.2 row stored
      · have place : row.sortKey = middle.sortKey := congrArg Listing.place same
        rw [place] at begun behind ⊢
        obtain ⟨item, read, isItem⟩ | ⟨_, before⟩ :=
          progress.complete middle stood ((matches_listing same).symm.trans matching) begun
        · exact ⟨item, List.mem_append_left _ read, isItem⟩
        · exact absurd (before last isLast) behind
      · obtain ⟨old, stood, matches', isPlace⟩ := begun
        obtain ⟨item, read, isItem⟩ := progress.early old stood matches' (fun other isOther bad => by
          rw [isPlace] at bad
          exact absurd (bad.trans (after other isOther)) (lt_irrefl _))
        exact ⟨item, List.mem_append_left _ read, isItem.trans isPlace⟩

/-- The next page of a reader is always answered. -/
theorem follow_shows (fixed : query.Fixed) (range : 1 ≤ limit ∧ limit ≤ 200)
    (progress : Progress query s first pages page t) {cursor : String}
    (isCursor : page.nextCursor = some cursor)
    (run : Run (Guarded (Step config) (SubmitsLater first)) t acts u) : ∃ next last,
      u.db.taskPage query limit (some cursor) = some next ∧ page.items.getLast? = some last ∧
      Settled t first u.db ∧ next.Shows u.db query (some last.sortKey) := by
  obtain ⟨last, isLast, decoded⟩ := progress.cursors page (by simp) cursor isCursor
  have later := settled_run progress.dates progress.settled.1 run
  obtain ⟨next, fetched, shows⟩ := taskPage_shows fixed range later.1 decoded
  exact ⟨next, last, fetched, isLast, later, shows⟩

theorem progress_reading (fixed : query.Fixed) (range : 1 ≤ limit ∧ limit ≤ 200) (stamped : s.db.Dates)
    (reading : Reading config query limit s first pages page t) :
    Progress query s first pages page t := by
  induction reading with
  | start fetched =>
    obtain ⟨found, same, shows⟩ :=
      taskPage_shows fixed range stamped (rfl : decodeCursor none = some none)
    rw [fetched] at same
    cases same
    exact progress_start stamped shows
  | follow _ cursor run fetched ih =>
    obtain ⟨found, last, same, isLast, later, shows⟩ := follow_shows fixed range ih cursor run
    rw [fetched] at same
    cases same
    exact progress_follow ih (by simp [cursor]) isLast later shows

/-- What a reader gets from some pages, the last of them read in a later state. -/
structure Visits (query : Query) (s t : System) (pages : List TaskPage) : Prop where
  descending : (listed pages).Pairwise (fun a b => b.sortKey < a.sortKey)
  known : ∀ item ∈ listed pages, ∃ old ∈ s.db.tasks.rows, query.matches old = true ∧
    item.sortKey = old.sortKey
  cursors : ∀ page ∈ pages, ∀ cursor, page.nextCursor = some cursor →
    ∃ last, page.items.getLast? = some last ∧ decodeCursor (some cursor) = some (some last.sortKey)
  complete : (∀ page ∈ pages.getLast?, page.nextCursor = none) → ∀ old ∈ s.db.tasks.rows,
    query.matches old = true →
    (∃ row ∈ t.db.tasks.rows, row.sortKey = old.sortKey) → ∃ item ∈ listed pages,
      item.sortKey = old.sortKey
  finite : pages.length ≤ (s.db.tasks.rows.filter query.matches).length + 1

theorem Progress.visits (progress : Progress query s first pages page t) :
    Visits query s t (pages ++ [page]) := by
  have distinct := Db.distinct_sortKeys s.db.tasks
  constructor
  · exact progress.descending
  · intro item member
    obtain ⟨old, stored, matching, same⟩ := progress.known item member
    exact ⟨old, stored, matching, congrArg Listing.place same⟩
  · exact progress.cursors
  · intro ended old stored matching ⟨row, stays, same⟩
    obtain ⟨origin, stood, kept⟩ | after := progress.settled.2 row stays
    · have one : origin = old := by
        refine List.inj_on_of_nodup_map distinct stood stored ?_
        exact (congrArg Listing.place kept).symm.trans same
      subst one
      obtain ⟨item, shown, isItem⟩ | ⟨more, _⟩ :=
        progress.complete row stays ((matches_listing kept).trans matching)
        ⟨origin, stood, matching, same.symm⟩
      · exact ⟨item, shown, isItem.trans same⟩
      · exact absurd (ended page (by simp)) more
    · refine progress.early old stored matching (fun head isHead bad => ?_)
      rw [← same] at bad
      exact absurd (bad.trans (after head isHead)) (lt_irrefl _)
  · have shown : (listed (pages ++ [page])).length ≤ (s.db.tasks.rows.filter query.matches).length := by
      have nodup : ((listed (pages ++ [page])).map TaskRecord.sortKey).Nodup :=
        List.pairwise_map.mpr (progress.descending.imp (fun below => below.ne'))
      have among : (listed (pages ++ [page])).map TaskRecord.sortKey ⊆
          (s.db.tasks.rows.filter query.matches).map TaskRecord.sortKey := by
        intro place member
        obtain ⟨item, shown, rfl⟩ := List.mem_map.mp member
        obtain ⟨old, stored, matching, same⟩ := progress.known item shown
        have place : item.sortKey = old.sortKey := congrArg Listing.place same
        rw [place]
        exact List.mem_map_of_mem (List.mem_filter.mpr ⟨stored, matching⟩)
      simpa using (List.subperm_of_subset nodup among).length_le
    -- a page with a cursor is not empty
    have full : ∀ read ∈ pages, read.items ≠ [] := by
      intro read member empty
      obtain ⟨cursor, isCursor⟩ := Option.ne_none_iff_exists'.mp (progress.followed read member)
      obtain ⟨last, isLast, _⟩ := progress.cursors read (List.mem_append_left _ member) cursor isCursor
      rw [empty] at isLast
      cases isLast
    have count := length_listed full
    rw [listed_snoc, List.length_append] at shown
    rw [List.length_append, List.length_singleton]
    omega

def evening : Datetime := ⟨2026, 1, 1, 18, 0, 0, 0, first_day_range, by decide⟩

end Readings

end LocalFlow
