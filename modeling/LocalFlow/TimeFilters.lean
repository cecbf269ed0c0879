import LocalFlow.Pagination
import LocalFlow.Library.Calendar

/-! The time bounds of the task list. A bound keeps the zone it was asked in, a stored time is UTC,
and the two are compared as texts. -/
namespace LocalFlow
open Numeral

/-- A reading on a day of the calendar. -/
structure CalendarTime where
  reading : Datetime
  valid : Calendar.Valid reading.year reading.month reading.day

namespace CalendarTime

/-- Microseconds, counted from the calendar's start. -/
def count (time : CalendarTime) : Nat :=
  let reading := time.reading
  reading.microsecond + 1000000 * (reading.second + 60 * (reading.minute + 60 * (reading.hour + 24 *
    Calendar.ordinal reading.year reading.month reading.day)))

/-- Readings count in the order of their fields. -/
theorem count_lt (a b : CalendarTime) : a.count < b.count ↔ a.reading.fields < b.reading.fields := by
  obtain ⟨ha, na, sa, ua⟩ := a.reading.time_range
  obtain ⟨hb, nb, sb, ub⟩ := b.reading.time_range
  have date : Calendar.ordinal a.reading.year a.reading.month a.reading.day =
      Calendar.ordinal b.reading.year b.reading.month b.reading.day ↔
      a.reading.year = b.reading.year ∧ a.reading.month = b.reading.month ∧
        a.reading.day = b.reading.day := by
    constructor
    · exact a.valid.ordinal_inj b.valid
    · rintro ⟨year, month, day⟩
      rw [year, month, day]
  have days := a.valid.ordinal_lt b.valid
  have grouped : a.reading.fields < b.reading.fields ↔
      Calendar.ordinal a.reading.year a.reading.month a.reading.day <
        Calendar.ordinal b.reading.year b.reading.month b.reading.day ∨
      Calendar.ordinal a.reading.year a.reading.month a.reading.day =
        Calendar.ordinal b.reading.year b.reading.month b.reading.day ∧
      (a.reading.hour < b.reading.hour ∨ a.reading.hour = b.reading.hour ∧
        (a.reading.minute < b.reading.minute ∨ a.reading.minute = b.reading.minute ∧
          (a.reading.second < b.reading.second ∨ a.reading.second = b.reading.second ∧
            a.reading.microsecond < b.reading.microsecond))) := by
    rw [days, date]
    simp only [Datetime.fields, List.cons_lt_cons_iff, List.lt_irrefl, and_false, or_false,
      and_or_left, or_assoc,
      and_assoc]
  -- the units from the smallest to the largest
  rw [grouped, lex_divMod ua ub, @lex_divMod 60000000 _ _ _ _ (by omega) (by omega),
    @lex_divMod 3600000000 _ _ _ _ (by omega) (by omega),
      @lex_divMod 86400000000 _ _ _ _ (by omega) (by omega)]
  simp only [count]
  omega

theorem count_inj (a b : CalendarTime) : a.count = b.count ↔ a.reading.fields = b.reading.fields := by
  have up := count_lt a b
  have down := count_lt b a
  constructor
  · intro same
    rw [same, lt_self_iff_false, false_iff] at up
    rw [same, lt_self_iff_false, false_iff] at down
    exact le_antisymm (not_lt.mp down) (not_lt.mp up)
  · intro same
    rw [same, lt_self_iff_false, iff_false] at up
    rw [same, lt_self_iff_false, iff_false] at down
    omega

end CalendarTime

/-- A `datetime` with a zone, as far from UTC as `offset` minutes. -/
structure AwareTime where
  wall : CalendarTime
  offset : Int
  range : offset.natAbs < 1440

namespace AwareTime

/-- The zone as `isoformat` writes it. -/
def zone (offset : Int) : List Char :=
  (if offset < 0 then '-' else '+') ::
    (text 10 2 (offset.natAbs / 60) ++ ':' :: text 10 2 (offset.natAbs % 60))

def isoformat (time : AwareTime) : String :=
  String.ofList (time.wall.reading.dated
    (Datetime.marked time.wall.reading.microsecond (zone time.offset)))

/-- Microseconds of UTC. -/
def instant (time : AwareTime) : Int := time.wall.count - time.offset * 60000000

/-- The zone of UTC sorts before every other. -/
theorem zone_lt {offset : Int} (range : offset.natAbs < 1440) :
    ("+00:00".toList < zone offset ↔ offset ≠ 0) ∧ ¬ zone offset < "+00:00".toList := by
  have utc : "+00:00".toList = '+' :: (text 10 2 0 ++ ':' :: text 10 2 0) := rfl
  have hours : offset.natAbs / 60 < 100 := by omega
  have minutes : offset.natAbs % 60 < 100 := by omega
  have sign : '+' < '-' := by decide
  rw [utc, zone]
  by_cases west : offset < 0
  · rw [if_pos west, List.cons_lt_cons_iff, List.cons_lt_cons_iff]
    refine ⟨iff_of_true (.inl sign) west.ne, ?_⟩
    rintro (wrong | ⟨wrong, _⟩)
    · exact lt_asymm sign wrong
    · exact sign.ne' wrong
  · rw [if_neg west, List.cons_lt_cons_iff, List.cons_lt_cons_iff, lt_self_iff_false,
      false_or, false_or,
      text_append_lt (by decide) (by decide) (by decide) hours,
        text_append_lt (by decide) (by decide) hours (by decide),
      List.cons_lt_cons_iff, List.cons_lt_cons_iff, lt_self_iff_false, false_or, false_or,
      text_lt_text (by decide) (by decide) (by decide) minutes,
        text_lt_text (by decide) (by decide) minutes (by decide)]
    simp only [true_and]
    omega

/-- A stored text comes before a bound when its reading does, or is the same and the bound is not
UTC's. -/
theorem stored_lt (stored : CalendarTime) (bound : AwareTime) :
    stored.reading.isoformat < bound.isoformat ↔
      stored.count < bound.wall.count ∨ stored.count = bound.wall.count ∧ bound.offset ≠ 0 := by
  have compared := Datetime.dated_lt stored.reading bound.wall.reading stored.reading.fraction
    (Datetime.marked bound.wall.reading.microsecond (zone bound.offset))
  have tails : stored.reading.fraction < Datetime.marked bound.wall.reading.microsecond
    (zone bound.offset) ↔
      stored.reading.microsecond < bound.wall.reading.microsecond ∨
        stored.reading.microsecond = bound.wall.reading.microsecond ∧ bound.offset ≠ 0 := by
    rw [← (zone_lt bound.range).1]
    exact Datetime.marked_lt stored.reading.time_range.2.2.2 bound.wall.reading.time_range.2.2.2
      (by decide)
      (by split <;> decide) _ _
  rw [String.lt_iff_toList_lt, Datetime.isoformat, isoformat, String.toList_ofList,
    String.toList_ofList]
  refine compared.trans ?_
  rw [tails, CalendarTime.count_lt, CalendarTime.count_inj, Datetime.fields_lt, Datetime.fields_eq]
  tauto

theorem lt_stored (stored : CalendarTime) (bound : AwareTime) :
    bound.isoformat < stored.reading.isoformat ↔ bound.wall.count < stored.count := by
  have compared := Datetime.dated_lt bound.wall.reading stored.reading
    (Datetime.marked bound.wall.reading.microsecond (zone bound.offset)) stored.reading.fraction
  have tails : Datetime.marked bound.wall.reading.microsecond (zone bound.offset) <
    stored.reading.fraction ↔
      bound.wall.reading.microsecond < stored.reading.microsecond := by
    have sign : (if bound.offset < 0 then '-' else '+') < '.' := by split <;> decide
    have signs := Datetime.marked_lt bound.wall.reading.time_range.2.2.2
      stored.reading.time_range.2.2.2 sign
      (by decide : '+' < '.')
      (text 10 2 (bound.offset.natAbs / 60) ++ ':' ::
        text 10 2 (bound.offset.natAbs % 60)) "00:00".toList
    exact signs.trans (or_iff_left (fun both => (zone_lt bound.range).2 both.2))
  rw [String.lt_iff_toList_lt, Datetime.isoformat, isoformat, String.toList_ofList,
    String.toList_ofList]
  refine compared.trans ?_
  rw [tails, CalendarTime.count_lt, Datetime.fields_lt]

end AwareTime

/-- The six time bounds of a request. -/
structure TimeBounds where
  createdFrom : Option AwareTime := none
  createdTo : Option AwareTime := none
  startedFrom : Option AwareTime := none
  startedTo : Option AwareTime := none
  endedFrom : Option AwareTime := none
  endedTo : Option AwareTime := none

/-- The other filters of a request. -/
structure Filters where
  states : List TaskState := []
  labels : List String := []
  name : Option String := none

/-- What `list_tasks` of the API asks the store for. -/
def Filters.query (filters : Filters) (bounds : TimeBounds) : Query where
  states := filters.states
  labels := filters.labels
  name := filters.name
  createdFrom := bounds.createdFrom.map AwareTime.isoformat
  createdTo := bounds.createdTo.map AwareTime.isoformat
  startedFrom := bounds.startedFrom.map AwareTime.isoformat
  startedTo := bounds.startedTo.map AwareTime.isoformat
  endedFrom := bounds.endedFrom.map AwareTime.isoformat
  endedTo := bounds.endedTo.map AwareTime.isoformat

/-- A task on some page of the list. One row more than a page is read. -/
def Db.Lists (db : Db) (query : Query) (row : TaskRecord) : Prop :=
  ∃ limit before, (1 ≤ limit ∧ limit ≤ 200) ∧
    row ∈ (db.listTasks
      { query with limit := limit + 1, before, after := none, ascending := false }).take limit

/-- When a task was created, started and ended. -/
structure Timestamps where
  created : CalendarTime
  started : Option CalendarTime
  ended : Option CalendarTime

/-- The texts a row stores. -/
structure Timestamps.Stored (times : Timestamps) (row : TaskRecord) : Prop where
  created : row.createdAt = times.created.reading.isoformat
  started : row.startedAt = times.started.map (fun time => time.reading.isoformat)
  ended : row.endedAt = times.ended.map (fun time => time.reading.isoformat)

/-- One bound of a request and the time it is for. -/
structure TimeClause where
  lower : Bool
  bound : AwareTime
  time : Option CalendarTime

namespace TimeClause

/-- The instant lies on the right side of the bound; a task without the time is outside. -/
def Admits (clause : TimeClause) : Prop :=
  match clause.time with
  | none => False
  | some time =>
    if clause.lower then clause.bound.instant ≤ time.count
      else (time.count : Int) ≤ clause.bound.instant

/-- The SQL comparison. -/
def Passes (clause : TimeClause) : Prop :=
  match clause.time with
  | none => False
  | some time =>
    if clause.lower then clause.bound.isoformat ≤ time.reading.isoformat
    else time.reading.isoformat ≤ clause.bound.isoformat

/-- The time lies between the bound's instant and the bound's wall clock taken for UTC. -/
def Misread (clause : TimeClause) : Prop :=
  match clause.time with
  | none => False
  | some time =>
    let wall : Int := clause.bound.wall.count
    if clause.lower then
      clause.bound.offset ≠ 0 ∧ clause.bound.instant ≤ time.count ∧ (time.count : Int) ≤ wall ∨
        wall < time.count ∧ (time.count : Int) < clause.bound.instant
    else
      clause.bound.instant < time.count ∧ (time.count : Int) ≤ wall ∨
        wall < time.count ∧ (time.count : Int) ≤ clause.bound.instant

end TimeClause

namespace TimeBounds

def clauses (bounds : TimeBounds) (times : Timestamps) : List TimeClause :=
  (bounds.createdFrom.map (⟨true, ·, some times.created⟩)).toList ++
  (bounds.createdTo.map (⟨false, ·, some times.created⟩)).toList ++
  (bounds.startedFrom.map (⟨true, ·, times.started⟩)).toList ++
  (bounds.startedTo.map (⟨false, ·, times.started⟩)).toList ++
  (bounds.endedFrom.map (⟨true, ·, times.ended⟩)).toList ++
  (bounds.endedTo.map (⟨false, ·, times.ended⟩)).toList

/-- The task's times lie within the bounds. -/
def Admit (bounds : TimeBounds) (times : Timestamps) : Prop :=
  ∀ clause ∈ bounds.clauses times, clause.Admits

end TimeBounds

namespace TimeClause

theorem misread_iff (clause : TimeClause) : clause.Misread ↔ ¬ (clause.Passes ↔ clause.Admits) := by
  obtain ⟨lower, bound, time⟩ := clause
  cases time with
  | none => simp [Misread, Passes, Admits]
  | some time =>
    have text : ∀ a b : String, a ≤ b ↔ ¬ b < a := fun a b => not_lt.symm
    cases lower with
    | true =>
      simp only [Misread, Passes, Admits, if_true, text, AwareTime.stored_lt, AwareTime.instant]
      by_cases utc : bound.offset = 0
      · simp only [utc]
        omega
      · omega
    | false =>
      simp only [Misread, Passes, Admits, Bool.false_eq_true, if_false, text, AwareTime.lt_stored,
        AwareTime.instant]
      omega

end TimeClause

/-- A task is on some page exactly when the filters choose it. -/
theorem lists_iff (db : Db) (query : Query) (row : TaskRecord) :
    db.Lists query row ↔ row ∈ db.tasks.rows ∧ query.chooses row = true := by
  have distinct : Keyset.Distinct TaskRecord.descending (db.tasks.rows.filter query.chooses) :=
    Keyset.Distinct.sublist (Db.distinct_sortKeys db.tasks) List.filter_sublist
  rw [← List.mem_filter]
  constructor
  · rintro ⟨limit, before, range, listed⟩
    rw [Db.listTasks_chosen db range.2] at listed
    exact (Keyset.mem_page (List.mem_of_mem_take listed)).1
  · intro chosen
    obtain ⟨cursor, rest, begins⟩ := distinct.begins chosen
    refine ⟨1, cursor.map OrderDual.ofDual, ⟨le_rfl, by decide⟩, ?_⟩
    have same : (cursor.map OrderDual.ofDual).map OrderDual.toDual = cursor := by
      rw [Option.map_map]
      exact congrFun Option.map_id_fun' cursor
    rw [Db.listTasks_chosen db (by decide), same, Keyset.page, begins]
    exact List.mem_cons_self

def Filters.passes (filters : Filters) (row : TaskRecord) : Bool :=
  (filters.states.isEmpty || row.state ∈ filters.states) &&
  filters.name.all (fun name => name = "" || likeContains name row.name) &&
  filters.labels.all (fun label => label ∈ row.labels)

/-- The comparisons of one column. -/
theorem within_iff (low high : Option AwareTime) (time : Option CalendarTime) :
    withinBounds (low.map AwareTime.isoformat) (high.map AwareTime.isoformat)
        (time.map (fun time => time.reading.isoformat)) = true ↔
      ∀ clause ∈ (low.map (TimeClause.mk true · time)).toList ++
      (high.map (TimeClause.mk false · time)).toList,
        clause.Passes := by
  cases low <;> cases high <;> cases time <;> simp [withinBounds, TimeClause.Passes]

theorem chooses_iff (filters : Filters) (bounds : TimeBounds) {times : Timestamps} {row : TaskRecord}
    (stored : times.Stored row) : (filters.query bounds).chooses row = true ↔
      filters.passes row = true ∧ ∀ clause ∈ bounds.clauses times, clause.Passes := by
  have created := within_iff bounds.createdFrom bounds.createdTo (some times.created)
  have started := within_iff bounds.startedFrom bounds.startedTo times.started
  have ended := within_iff bounds.endedFrom bounds.endedTo times.ended
  rw [← stored.started] at started
  rw [← stored.ended] at ended
  rw [Option.map_some, ← stored.created] at created
  simp only [Query.chooses, Query.selects, Filters.query, Filters.passes, Option.all_none,
    Bool.and_true,
    Bool.and_eq_true, created, started, ended, TimeBounds.clauses, List.append_assoc,
      List.forall_mem_append]
  tauto

/-- Two readings of a list of conditions agree when no condition is read two ways, one read right
fails, or two are read two ways in opposite directions. -/
theorem agree_iff {α : Type} {given : List α} {passes admits misread : α → Prop}
    (two : ∀ a, misread a ↔ ¬ (passes a ↔ admits a)) :
    ((∀ a ∈ given, passes a) ↔ ∀ a ∈ given, admits a) ↔
      (∀ a ∈ given, ¬ misread a) ∨ (∃ a ∈ given, ¬ misread a ∧ ¬ admits a) ∨
        (∃ a ∈ given, misread a ∧ admits a) ∧ ∃ a ∈ given, misread a ∧ ¬ admits a := by
  constructor
  · intro agree
    by_cases right : ∀ a ∈ given, ¬ misread a
    · exact .inl right
    obtain ⟨a, member, wrong⟩ := by simpa using right
    have split : ∃ b ∈ given, ¬ admits b := by
      by_contra all
      have admitted : ∀ b ∈ given, admits b := by simpa using all
      exact (two a).mp wrong (iff_of_true (agree.mpr admitted a member) (admitted a member))
    have refused : ∃ b ∈ given, ¬ passes b := by
      by_contra all
      obtain ⟨b, other, outside⟩ := split
      exact outside (agree.mp (by simpa using all) b other)
    obtain ⟨b, other, outside⟩ := split
    obtain ⟨c, last, stopped⟩ := refused
    by_cases twoB : misread b
    · by_cases twoC : misread c
      · have inside : admits c := by_contra fun out => (two c).mp twoC (iff_of_false stopped out)
        exact .inr (.inr ⟨⟨c, last, twoC, inside⟩, b, other, twoB, outside⟩)
      · exact .inr (.inl ⟨c, last, twoC, fun inside =>
          stopped ((not_not.mp (mt (two c).mpr twoC)).mpr inside)⟩)
    · exact .inr (.inl ⟨b, other, twoB, outside⟩)
  · rintro (right | ⟨a, member, right, outside⟩ | ⟨⟨a, member, wrong, inside⟩, b, other, _, outside⟩)
    · exact forall₂_congr (fun a member => not_not.mp (mt (two a).mpr (right a member)))
    · have stopped : ¬ passes a := fun pass => outside ((not_not.mp (mt (two a).mpr right)).mp pass)
      exact iff_of_false (fun all => stopped (all a member)) (fun all => outside (all a member))
    · have stopped : ¬ passes a := fun pass => (two a).mp wrong (iff_of_true pass inside)
      exact iff_of_false (fun all => stopped (all a member)) (fun all => outside (all b other))

namespace TimeBounds
variable (bounds : TimeBounds) (times : Timestamps)

/-- No bound is misread, or one that is read right excludes the task, or two are misread in opposite
directions. -/
def Settles : Prop :=
  (∀ clause ∈ bounds.clauses times, ¬ clause.Misread) ∨
    (∃ clause ∈ bounds.clauses times, ¬ clause.Misread ∧ ¬ clause.Admits) ∨
    (∃ clause ∈ bounds.clauses times, clause.Misread ∧ clause.Admits) ∧
      ∃ clause ∈ bounds.clauses times, clause.Misread ∧ ¬ clause.Admits

variable {bounds times}

end TimeBounds

/-- The list shows the tasks within the bounds exactly when the texts settle it. -/
theorem time_filters_iff {db : Db} {row : TaskRecord} {times : Timestamps} (filters : Filters)
    (bounds : TimeBounds)
    (listed : row ∈ db.tasks.rows) (stored : times.Stored row) :
    (db.Lists (filters.query bounds) row ↔ filters.passes row = true ∧ bounds.Admit times) ↔
      (filters.passes row = true → bounds.Settles times) := by
  rw [lists_iff, chooses_iff filters bounds stored]
  simp only [listed, true_and, and_congr_right_iff]
  exact imp_congr_right (fun _ => agree_iff TimeClause.misread_iff)

/-- One task created at noon. -/
def noonRow : TaskRecord :=
  .fresh "task" (.keyed []) noon.isoformat ⟨"queued", "queued", "neutral", false⟩

def noonTasks : Db := { Db.empty with tasks := ⟨[noonRow], List.nodup_singleton _⟩ }

def noonTimes : Timestamps where
  created := ⟨noon, by decide, by decide, by decide⟩
  started := none
  ended := none

/-- One o'clock two hours east of UTC, an hour before noon. -/
def eastern : AwareTime where
  wall := ⟨⟨2026, 1, 1, 13, 0, 0, 0, first_day_range, by decide⟩, by decide, by decide, by decide⟩
  offset := 120
  range := by decide

theorem time_filters_noon :
    (noonTasks.Lists (({} : Filters).query { createdFrom := some eastern }) noonRow ↔
      ({} : Filters).passes noonRow = true ∧
      ({ createdFrom := some eastern } : TimeBounds).Admit noonTimes) ↔
    (({} : Filters).passes noonRow = true →
      ({ createdFrom := some eastern } : TimeBounds).Settles noonTimes) :=
  time_filters_iff {} { createdFrom := some eastern } List.mem_cons_self ⟨rfl, rfl, rfl⟩

/-- The task is an hour later than the bound, and its text is smaller. -/
theorem eastern_bound_hides : ∃ (db : Db) (row : TaskRecord) (times : Timestamps) (bounds : TimeBounds),
    row ∈ db.tasks.rows ∧ times.Stored row ∧ bounds.Admit times ∧
      ¬ db.Lists (({} : Filters).query bounds) row := by
  refine ⟨noonTasks, noonRow, noonTimes, { createdFrom := some eastern }, List.mem_cons_self,
    ⟨rfl, rfl, rfl⟩, ?_, ?_⟩
  · intro clause member
    obtain rfl : clause = ⟨true, eastern, some noonTimes.created⟩ := by
      simpa [TimeBounds.clauses] using member
    show eastern.instant ≤ noonTimes.created.count
    decide
  · intro listed
    have stored : noonTimes.Stored noonRow := ⟨rfl, rfl, rfl⟩
    have passes := ((chooses_iff {} _ stored).mp ((lists_iff _ _ _).mp listed).2).2
      ⟨true, eastern, some noonTimes.created⟩ (by simp [TimeBounds.clauses])
    have early : noonTimes.created.count < eastern.wall.count := by decide
    exact passes ((AwareTime.stored_lt _ _).mpr (.inl early))

end LocalFlow
