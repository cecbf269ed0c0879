import LocalFlow.Upkeep
import LocalFlow.Service.Updates

/-! What a turn of the scheduler loop does to one task: it leaves it alone, deletes it after its end,
or starts it. -/
namespace LocalFlow
open Faults
variable {config : Config} {s : System} {id : TaskId} {cutoff : String} {faults : Option Nat}

/-- A row up to its log size and its blocking note. -/
def TaskRecord.core (row : TaskRecord) : TaskRecord := row.unblocked.unsized

theorem core_of_unsized {a b : TaskRecord} (same : a.unsized = b.unsized) : a.core = b.core := by
  have unblocked := congrArg TaskRecord.unblocked same
  exact unblocked

theorem core_of_unblocked {a b : TaskRecord} (same : a.unblocked = b.unblocked) :
    a.core = b.core := congrArg TaskRecord.unsized same

section Cells

theorem unlink_unlink (backend : Backend) (tree : Tree) :
    (tree.unlink backend).unlink backend = tree.unlink backend := by
  cases tree <;> cases backend <;> rfl

/-- The cell of a task whose instance files are unlinked. -/
def Cell.unlink (backend : Backend) (cell : Cell) : Cell :=
  { cell with tree := cell.tree.unlink backend }

theorem get_unlinked (backend : Backend) (ids : List TaskId) (cells : Dict TaskId Cell) :
    (ids.foldl (fun cells id => cells.set id { cells.get id with
      tree := (cells.get id).tree.unlink backend }) cells).get id =
      if id ∈ ids then (cells.get id).unlink backend else cells.get id := by
  induction ids generalizing cells with
  | nil => simp
  | cons head rest ih =>
    rw [List.foldl_cons, ih, Dict.get_set]
    by_cases here : id = head
    · subst here
      simp [Cell.unlink, unlink_unlink]
    · simp [here]

theorem get_started (ids : List TaskId) (cells : Dict TaskId Cell) :
    (ids.foldl (fun cells id => cells.set id { cells.get id with
      starter := some .created }) cells).get id =
      if id ∈ ids then { cells.get id with starter := some .created } else cells.get id := by
  induction ids generalizing cells with
  | nil => simp
  | cons head rest ih =>
    rw [List.foldl_cons, ih, Dict.get_set]
    by_cases here : id = head
    · subst here
      simp
    · simp [here]

end Cells

/-- `maintain` leaves a task alone, or has deleted it after its end. -/
inductive Kept (config : Config) (s t : System) (id : TaskId) : Prop where
  | same (row : (t.db.getTask id).map TaskRecord.core = (s.db.getTask id).map TaskRecord.core)
      (cell : t.cells.get id = s.cells.get id)
  | ended (ended : ∀ row, s.db.getTask id = some row → row.state.terminal = true)
      (gone : t.db.getTask id = none)
      (cell : t.cells.get id = s.cells.get id ∨
        t.cells.get id = (s.cells.get id).unlink config.backend)

/-- A turn of the loop keeps a task or starts it. -/
inductive Ticked (config : Config) (s t : System) (id : TaskId) : Prop where
  | kept (kept : Kept config s t id)
  | started (row new : TaskRecord) (stored : s.db.getTask id = some row)
      (queued : row.state = .queued) (found : t.db.getTask id = some new)
      (starting : new.state = .starting)
      (cell : t.cells.get id = { s.cells.get id with starter := some .created })

theorem tended_start (db : Db) (logs : Logs) (lastCleanup : Seconds) :
    Tended db { db, logs, lastCleanup } where
  row _ new found := ⟨new, found, rfl⟩
  kept _ _ stored _ := by simp [stored]
  gone _ member := by simp at member

theorem kept_upkeep (wanted : Bool) :
    Kept config s (s.upkeep config cutoff faults wanted).state id := by
  unfold System.upkeep
  dsimp only [Turn.into_state]
  generalize isDone : (if wanted = true then _ else _ : Turn Upkeep) = done
  have tended : Tended s.db done.state := by
    have start := tended_start s.db s.logs s.lastCleanup
    rw [← isDone]
    split
    · exact tended_maintain start
    · exact start
  cases found : done.state.db.getTask id with
  | some new =>
    obtain ⟨old, stored, same⟩ := tended.row id new found
    refine .same ?_ ?_
    · rw [found, stored, Option.map_some, Option.map_some, core_of_unsized same]
    · have linked : id ∉ done.state.unlinked := fun member => by
        simp [tended.gone id (.inr member)] at found
      rw [get_unlinked, if_neg linked]
  | none =>
    refine .ended (fun row stored => ?_) found ?_
    · cases ended : row.state.terminal with
      | true => rfl
      | false =>
        have kept := tended.kept id row stored ended
        simp [found] at kept
    · rw [get_unlinked]
      split
      · exact .inr rfl
      · exact .inl rfl

theorem core_state {a b : TaskRecord} (same : a.core = b.core) : a.state = b.state := by
  have states := congrArg TaskRecord.state same
  exact states

/-- A kept row is in the state it was in. -/
theorem Kept.row {t : System} (kept : Kept config s t id) {new : TaskRecord}
    (found : t.db.getTask id = some new) :
    ∃ old, s.db.getTask id = some old ∧ old.core = new.core := by
  cases kept with
  | same row =>
    rw [found, Option.map_some] at row
    exact Option.map_eq_some_iff.mp row.symm
  | ended _ gone =>
    rw [gone] at found
    cases found

theorem ticked_schedule : Ticked config s (s.schedule config faults).state id := by
  unfold System.schedule
  dsimp only [Turn.into_state]
  obtain ⟨new, admits⟩ := schedule_admits config.maxConcurrency s.wall s.monotonic
    ⟨{ db := s.db, cursor := s.queueCursor }, faults, false⟩
  generalize LocalFlow.schedule _ _ _ _ = done at admits
  have started : done.state.started = new := by simpa using admits.started
  by_cases member : id ∈ new
  · obtain ⟨brief, listed, rfl, queued⟩ := admits.wasQueued id member
    obtain ⟨row, stored, isBrief⟩ := mem_briefs.mp listed
    have isStart : brief.start new = { brief with state := .starting } := if_pos member
    have after : brief.start new ∈ done.state.db.briefs := by
      rw [admits.briefs]
      exact List.mem_map_of_mem listed
    rw [isStart] at after
    obtain ⟨moved, found, isMoved⟩ := mem_briefs.mp after
    refine .started row moved stored ?_ found (congrArg Brief.state isMoved) ?_
    · exact (congrArg Brief.state isBrief).trans queued
    · change (done.state.started.foldl _ s.cells).get brief.id = _
      rw [get_started, started, if_pos member]
  · refine .kept (.same ?_ ?_)
    · have same := congrArg (Option.map TaskRecord.unsized) (admits.others id member)
      rw [Option.map_map, Option.map_map] at same
      exact same
    · change (done.state.started.foldl _ s.cells).get id = _
      rw [get_started, started, if_neg member]

/-- A turn after a retention that kept the task. -/
theorem Ticked.after {t u : System} (kept : Kept config s t id) (ticked : Ticked config t u id) :
    Ticked config s u id := by
  cases ticked with
  | started row new stored queued found starting cell =>
    obtain ⟨old, isOld, same⟩ := kept.row stored
    cases kept with
    | same _ unchanged =>
      exact .started old new isOld ((core_state same).trans queued) found starting
        (by rw [cell, unchanged])
    | ended _ gone =>
      rw [gone] at stored
      cases stored
  | kept later =>
    refine .kept ?_
    cases kept with
    | same row cell =>
      cases later with
      | same row' cell' => exact .same (row'.trans row) (cell'.trans cell)
      | ended ended gone cell' =>
        refine .ended (fun old stored => ?_) gone (by rw [← cell]; exact cell')
        rw [stored, Option.map_some] at row
        obtain ⟨new, found, same⟩ := Option.map_eq_some_iff.mp row
        rw [← core_state same]
        exact ended new found
    | ended ended gone cell =>
      cases later with
      | same row' cell' =>
        rw [gone, Option.map_none, Option.map_eq_none_iff] at row'
        exact .ended ended row' (by rw [cell']; exact cell)
      | ended _ gone' cell' =>
        refine .ended ended gone' ?_
        obtain same | unlinked := cell'
        · rw [same]
          exact cell
        · obtain same | twice := cell
          · rw [unlinked, same]
            exact .inr rfl
          · rw [unlinked, twice]
            simp [Cell.unlink, unlink_unlink]

theorem ticked_tick : Ticked config s (s.tick config cutoff faults) id := by
  have turned : Ticked config s (s.turn config cutoff faults).state id := by
    unfold System.turn
    dsimp only
    split
    · exact .kept (kept_upkeep _)
    · exact .after (kept_upkeep _) ticked_schedule
  unfold System.tick
  dsimp only
  split
  · cases turned with
    | kept kept =>
      cases kept with
      | same row cell => exact .kept (.same row cell)
      | ended ended gone cell => exact .kept (.ended ended gone cell)
    | started row new stored queued found starting cell =>
      exact .started row new stored queued found starting cell
  · exact turned

end LocalFlow
