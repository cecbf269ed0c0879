import LocalFlow.Service.Interrupt
import LocalFlow.Library.Run
import Mathlib.Data.List.DropRight
import Mathlib.Tactic.Linarith
import Mathlib.Tactic.Ring

/-! The wait of a stop action: when it starts a poll, when it gives up, and which output it sees. -/
namespace LocalFlow
open Transition

/-- What one turn of the loop of `_wait_stop_action` meets: the clock at its condition, whether the
row has ended, or is missing, whether the event is set, and the clock and the log as it reads them.
-/
structure Look where
  entered : Seconds
  ended : Option Bool
  advanced : Bool
  read : Moment

def Look.log (look : Look) : List UInt8 := look.read.output.getD []

/-- The chunk that a turn reads. -/
def Poll.chunk (poll : Poll) (look : Look) : List UInt8 := (look.log.drop poll.offset).take 65536

inductive WaitEnd where
  | expired | ended | advanced | found | raised
  deriving DecidableEq

inductive WaitTurn where
  | stays (poll : Poll)
  | returns (why : WaitEnd)

namespace StopAction
variable (action : StopAction)

/-- The local variables with which `_wait_stop_action` enters its loop. -/
def begins (offset : Nat) (started now : Seconds) : Poll :=
  let remaining := max 0 (action.timeoutSeconds - (now - started))
  let deadline := now + remaining
  let inApply := max 0 (action.timeoutSeconds - remaining)
  ⟨deadline, action.maxTimeoutSeconds.elim deadline (fun most => now + max 0 (most - inApply)),
    offset, [], 0⟩

/-- One turn of the loop. -/
def turn (poll : Poll) (look : Look) : WaitTurn :=
  if look.entered < min poll.deadline poll.hardDeadline then
    match look.ended with
    | none => .returns .raised
    | some true => .returns .ended
    | some false =>
      if look.advanced then .returns .advanced
      else
        let (moved, found) := Slot.readOutput look.read action poll
        if found then .returns .found else .stays moved
  else .returns .expired

/-- Turns after which the loop goes on. -/
abbrev Waits (poll : Poll) (looks : List Look) (later : Poll) : Prop :=
  Run (fun poll look next => action.turn poll look = .stays next) poll looks later

end StopAction

section Steps
variable {moment : Moment} {id : TaskId} {slot : Slot} {actions : List StopAction}
  {index offset : Nat} {action : StopAction}
variable {started : Seconds}

/-- A step of the controller is one turn, in which the clock stands still. -/
theorem pollAction_turn (poll : Poll) : slot.pollAction moment id actions index action poll =
    match action.turn poll ⟨moment.monotonic, (slot.db.getTask id).map (·.state.terminal),
      slot.cell.sequence.any Sequence.advance, moment⟩ with
    | .stays moved => slot.suspend
        (.polling actions index { moved with wake := moment.monotonic + 1 / 20 })
    | .returns .raised => slot.withSequence none
    | .returns .advanced => slot.clearAdvance.nextAction moment id actions (index + 1)
    | .returns _ => slot.nextAction moment id actions (index + 1) := by
  unfold Slot.pollAction StopAction.turn
  dsimp only
  split
  · cases slot.db.getTask id with
    | none => rfl
    | some row =>
      dsimp only [Option.map]
      cases row.state.terminal with
      | true => rfl
      | false =>
        rw [if_neg Bool.false_ne_true]
        dsimp only
        cases slot.cell.sequence.any Sequence.advance with
        | true => rfl
        | false =>
          rw [if_neg Bool.false_ne_true, if_neg Bool.false_ne_true]
          obtain ⟨moved, found⟩ := Slot.readOutput moment action poll
          cases found <;> rfl
  · rfl

theorem stopApplied_begins : slot.stopApplied moment id actions index action offset started =
    slot.clearAdvance.pollAction moment id actions index action
    (action.begins offset started moment.monotonic) := rfl

end Steps

/-! ## Deadlines -/

section Deadlines
variable {action : StopAction} {offset : Nat} {started now : Seconds} {poll later : Poll}
  {look : Look} {looks : List Look}

/-- The clock never goes back. -/
def Clocked : Seconds → List Look → Prop
  | _, [] => True
  | now, look :: rest => now ≤ look.entered ∧ look.entered ≤ look.read.monotonic ∧
      Clocked look.read.monotonic rest

/-- The limit from the start of the action. -/
def StopAction.limit (action : StopAction) : Seconds :=
  action.maxTimeoutSeconds.getD action.timeoutSeconds

theorem StopAction.timeout_le_limit (action : StopAction) : action.timeoutSeconds ≤ action.limit := by
  unfold limit
  cases most : action.maxTimeoutSeconds with
  | none => exact le_rfl
  | some limit => exact (action.max_range limit most).1

theorem Clocked.tail (clocked : Clocked now (look :: looks)) : Clocked look.read.monotonic looks :=
  clocked.2.2

/-- A turn after which the loop goes on. -/
theorem turn_stays (stays : action.turn poll look = .stays later) :
    look.entered < min poll.deadline poll.hardDeadline ∧ look.ended = some false ∧
      look.advanced = false ∧
      Slot.readOutput look.read action poll = (later, false) := by
  unfold StopAction.turn at stays
  split at stays
  · rename_i inTime
    split at stays
    · cases stays
    · cases stays
    · rename_i live
      split at stays
      · cases stays
      · rename_i unadvanced
        have unadvanced : look.advanced = false := Bool.eq_false_iff.mpr unadvanced
        cases result : Slot.readOutput look.read action poll with
        | mk moved found =>
          rw [result] at stays
          cases found with
          | true => cases stays
          | false =>
            cases stays
            exact ⟨inTime, live, unadvanced, rfl⟩
  · cases stays

/-- What a read makes of the deadlines: it leaves the hard one, and a read of new output with
extension sets the other. -/
theorem readOutput_deadlines (moment : Moment) (action : StopAction) (poll : Poll) :
    (Slot.readOutput moment action poll).1.hardDeadline = poll.hardDeadline ∧
      ((Slot.readOutput moment action poll).1.deadline = poll.deadline ∧
          (action.extendTimeoutOnOutput = true →
            (Slot.readOutput moment action poll).1.offset = poll.offset) ∨
        action.extendTimeoutOnOutput = true ∧
          (Slot.readOutput moment action poll).1.deadline = min
          (moment.monotonic + action.timeoutSeconds) poll.hardDeadline) := by
  unfold Slot.readOutput
  split
  · exact ⟨rfl, .inl ⟨rfl, fun _ => rfl⟩⟩
  · dsimp only
    split
    · exact ⟨rfl, .inl ⟨rfl, fun _ => rfl⟩⟩
    · cases longer : action.extendTimeoutOnOutput with
      | false =>
        cases action.outputContains with
        | none => exact ⟨rfl, .inl ⟨rfl, nofun⟩⟩
        | some text => exact ⟨rfl, .inl ⟨rfl, nofun⟩⟩
      | true =>
        cases action.outputContains with
        | none => exact ⟨rfl, .inr ⟨rfl, rfl⟩⟩
        | some text => exact ⟨rfl, .inr ⟨rfl, rfl⟩⟩

/-- The deadlines of a wait whose action took less than its timeout to apply. -/
structure WithinLimits (action : StopAction) (started : Seconds) (poll : Poll) : Prop where
  hard : poll.hardDeadline = started + action.limit
  soft : poll.deadline ≤ poll.hardDeadline
  patient : started + action.timeoutSeconds ≤ poll.deadline

theorem begins_bounded (applied : now - started ≤ action.timeoutSeconds) (began : started ≤ now) :
    WithinLimits action started (action.begins offset started now) := by
  have remaining : max 0 (action.timeoutSeconds - (now - started)) = action.timeoutSeconds -
    (now - started) :=
    max_eq_right (by linarith)
  have inApply : max 0 (action.timeoutSeconds - (action.timeoutSeconds - (now - started))) = now -
    started := by
    rw [sub_sub_cancel]
    exact max_eq_right (by linarith)
  have deadline : (action.begins offset started now).deadline = started + action.timeoutSeconds := by
    unfold StopAction.begins
    dsimp only
    rw [remaining]
    ring
  have hard : (action.begins offset started now).hardDeadline = started + action.limit := by
    unfold StopAction.begins StopAction.limit
    dsimp only
    rw [remaining, inApply]
    cases most : action.maxTimeoutSeconds with
    | none =>
      dsimp only [Option.elim, Option.getD]
      ring
    | some limit =>
      dsimp only [Option.elim, Option.getD]
      have lower := (action.max_range limit most).1
      rw [max_eq_right (by linarith)]
      ring
  refine ⟨hard, ?_, deadline.ge⟩
  rw [deadline, hard]
  have lower := action.timeout_le_limit
  linarith

/-- An action that took its whole timeout to apply leaves no time to wait. -/
theorem begins_spent (spent : action.timeoutSeconds ≤ now - started) :
    min (action.begins offset started now).deadline
    (action.begins offset started now).hardDeadline ≤ now := by
  have remaining : max 0 (action.timeoutSeconds - (now - started)) = 0 := max_eq_left (by linarith)
  refine (min_le_left _ _).trans ?_
  unfold StopAction.begins
  dsimp only
  rw [remaining]
  linarith

theorem bounded_turn (bounded : WithinLimits action started poll)
    (after : started ≤ look.read.monotonic)
    (stays : action.turn poll look = .stays later) : WithinLimits action started later := by
  obtain ⟨_, _, _, read⟩ := turn_stays stays
  obtain ⟨hard, kept | ⟨_, reset⟩⟩ := readOutput_deadlines look.read action poll
  · rw [read] at hard kept
    have kept : later.deadline = poll.deadline := kept.1
    have hard : later.hardDeadline = poll.hardDeadline := hard
    exact ⟨hard.trans bounded.hard, by rw [kept, hard]; exact bounded.soft,
      by rw [kept]; exact bounded.patient⟩
  · rw [read] at hard reset
    have reset : later.deadline = min
      (look.read.monotonic + action.timeoutSeconds) poll.hardDeadline := reset
    have hard : later.hardDeadline = poll.hardDeadline := hard
    refine ⟨hard.trans bounded.hard, ?_, ?_⟩
    · rw [reset, hard]
      exact min_le_right _ _
    · rw [reset, bounded.hard]
      have lower := action.timeout_le_limit
      exact le_min (by linarith) (by linarith)

/-- No poll is started after a deadline that has passed. -/
theorem waits_expired (past : min poll.deadline poll.hardDeadline ≤ now) (clocked : Clocked now looks)
    (waits : action.Waits poll looks later) : looks = [] ∧ later = poll := by
  cases waits with
  | nil => exact ⟨rfl, rfl⟩
  | cons head _ =>
    obtain ⟨inTime, _⟩ := turn_stays head
    have stale := clocked.1
    exact absurd inTime (by linarith)

theorem bounded_run (bounded : WithinLimits action started poll) (began : started ≤ now)
    (clocked : Clocked now looks)
    (waits : action.Waits poll looks later) : WithinLimits action started later := by
  induction waits generalizing now with
  | nil => exact bounded
  | cons head _ ih =>
    have after := began.trans (clocked.1.trans clocked.2.1)
    exact ih (bounded_turn bounded after head) after clocked.tail

/-- Once new output has been read the wait lasts for another timeout, or up to the hard limit. -/
theorem patient_run {read : Seconds}
    (patient : min (read + action.timeoutSeconds) poll.hardDeadline ≤ poll.deadline)
    (since : read ≤ now)
    (clocked : Clocked now looks) (waits : action.Waits poll looks later) :
    min (read + action.timeoutSeconds) later.hardDeadline ≤ later.deadline := by
  induction waits generalizing now with
  | nil => exact patient
  | @cons poll look _ _ _ head _ ih =>
    obtain ⟨_, _, _, result⟩ := turn_stays head
    have since := since.trans (clocked.1.trans clocked.2.1)
    refine ih ?_ since clocked.tail
    obtain ⟨hard, kept | ⟨_, reset⟩⟩ := readOutput_deadlines look.read action poll
    · rw [result] at hard kept
      have kept : _ = poll.deadline := kept.1
      have hard : _ = poll.hardDeadline := hard
      rw [kept, hard]
      exact patient
    · rw [result] at hard reset
      have reset : _ = min (look.read.monotonic + action.timeoutSeconds) poll.hardDeadline := reset
      have hard : _ = poll.hardDeadline := hard
      rw [reset, hard]
      exact min_le_min_right _ (by linarith)

theorem clocked_append {front back : List Look} (clocked : Clocked now (front ++ back)) :
    Clocked now front ∧ ∃ then', now ≤ then' ∧ Clocked then' back := by
  induction front generalizing now with
  | nil => exact ⟨trivial, now, le_rfl, clocked⟩
  | cons look rest ih =>
    obtain ⟨first, then', since, last⟩ := ih clocked.tail
    exact ⟨⟨clocked.1, clocked.2.1, first⟩, then', (clocked.1.trans clocked.2.1).trans since, last⟩

theorem turn_expired (expired : action.turn poll look = .returns .expired) :
    min poll.deadline poll.hardDeadline ≤ look.entered := by
  by_contra inTime
  unfold StopAction.turn at expired
  rw [if_pos (not_le.mp inTime)] at expired
  split at expired
  · cases expired
  · cases expired
  · split at expired
    · cases expired
    · generalize Slot.readOutput look.read action poll = result at expired
      obtain ⟨moved, found⟩ := result
      cases found with
      | true => cases expired
      | false => cases expired

theorem turn_entered (entered : action.turn poll look ≠ .returns .expired) :
    look.entered < min poll.deadline poll.hardDeadline := by
  by_contra late
  unfold StopAction.turn at entered
  rw [if_neg late] at entered
  exact entered rfl

/-- A poll between two parts of a wait reads new output. -/
def ReadsNew (action : StopAction) (first : Poll) (front : List Look) (look : Look)
    (back : List Look) (last : Poll) : Prop :=
  ∃ poll next, action.Waits first front poll ∧ action.turn poll look = .stays next ∧
    poll.offset < next.offset ∧
    action.Waits next back last

/-- A poll is started only before the limit of the action, which is counted from its start. The wait
expires only after the timeout has passed since then and, with extension, since every poll that has
read new output, unless the hard limit has. -/
theorem stop_wait_bounded (action : StopAction) (offset : Nat) (began : started ≤ now)
    (clocked : Clocked now (looks ++ [look]))
    (waits : action.Waits (action.begins offset started now) looks poll) :
    (action.turn poll look ≠ .returns .expired →
      look.entered < started + action.maxTimeoutSeconds.getD action.timeoutSeconds) ∧
    (action.turn poll look = .returns .expired → started + action.timeoutSeconds ≤ look.entered ∧
      (action.extendTimeoutOnOutput = true → ∀ front read back, looks = front ++ read :: back →
        ReadsNew action (action.begins offset started now) front read back poll →
        read.read.monotonic + action.timeoutSeconds ≤ look.entered ∨
          ∃ most, action.maxTimeoutSeconds = some most ∧ started + most ≤ look.entered)) := by
  obtain ⟨during, then', since, last⟩ := clocked_append clocked
  by_cases spent : action.timeoutSeconds ≤ now - started
  · have past := @begins_spent action offset started now spent
    obtain ⟨rfl, rfl⟩ := waits_expired past during waits
    have stale := since.trans last.1
    constructor
    · intro entered
      have inTime := turn_entered entered
      exact absurd inTime (by linarith)
    · refine fun _ => ⟨by linarith, fun _ front read back split => ?_⟩
      exact absurd split.symm (List.append_ne_nil_of_right_ne_nil _ (List.cons_ne_nil _ _))
  · have applied : now - started ≤ action.timeoutSeconds := by linarith
    have begun := @begins_bounded action offset started now applied began
    have bounded := bounded_run begun began during waits
    constructor
    · intro entered
      have inTime := (lt_min_iff.mp (turn_entered entered)).2
      rw [bounded.hard] at inTime
      exact inTime
    · intro expired
      have late := turn_expired expired
      rw [min_eq_left bounded.soft] at late
      refine ⟨bounded.patient.trans late, ?_⟩
      rintro longer front read back rfl ⟨before, next, waited, head, grows, rest⟩
      obtain ⟨most, hasMost⟩ := Option.ne_none_iff_exists'.mp (action.extend_bounded longer)
      obtain ⟨_, there, _, clockedRead⟩ := clocked_append during
      obtain ⟨_, _, _, result⟩ := turn_stays head
      obtain ⟨hard, kept | ⟨_, reset⟩⟩ := readOutput_deadlines read.read action before
      · rw [result] at kept
        have same : next.offset = before.offset := kept.2 longer
        omega
      · rw [result] at hard reset
        have reset : next.deadline = min
          (read.read.monotonic + action.timeoutSeconds) before.hardDeadline := reset
        have hard : next.hardDeadline = before.hardDeadline := hard
        have patient := patient_run (by rw [reset, hard]) le_rfl clockedRead.tail rest
        rw [bounded.hard] at patient
        obtain output | limit := min_le_iff.mp (patient.trans late)
        · exact .inl output
        · refine .inr ⟨most, hasMost, ?_⟩
          unfold StopAction.limit at limit
          rw [hasMost] at limit
          exact limit

end Deadlines

/-! ## Output -/

section Output
variable {action : StopAction} {start offset : Nat} {started now : Seconds} {poll later : Poll}
  {look : Look} {looks : List Look}
variable {log : List UInt8} {text : String}

/-- The log only grows. -/
def Grown : List UInt8 → List Look → Prop
  | _, [] => True
  | log, look :: rest => log <+: look.log ∧ Grown look.log rest

/-- The bytes of a log between two offsets. -/
def appended (start offset : Nat) (log : List UInt8) : List UInt8 :=
  (log.drop start).take (offset - start)

/-- How much of the output the wait keeps to look at. -/
def window (text : String) : Nat := max ((utf8 text).length * 2) 1024

theorem rtake_append_rtake {β : Type} (front back : List β) (n : Nat) :
    (front.rtake n ++ back).rtake n = (front ++ back).rtake n := by
  simp only [List.rtake_eq_reverse_take_reverse, List.reverse_append, List.reverse_reverse,
    List.take_append, List.take_take]
  rw [Nat.min_eq_left (Nat.sub_le _ _)]

theorem appended_grown {log' : List UInt8} (grown : log <+: log') (within : offset ≤ log.length) :
    appended start offset log' = appended start offset log := by
  obtain ⟨new, rfl⟩ := grown
  unfold appended
  by_cases below : start ≤ log.length
  · rw [List.drop_append_of_le_length below, List.take_append_of_le_length]
    rw [List.length_drop]
    omega
  · have none : offset - start = 0 := by omega
    rw [none, List.take_zero, List.take_zero]

theorem appended_add (from_start : start ≤ offset) (n : Nat) :
    appended start (offset + n) log = appended start offset log ++ (log.drop offset).take n := by
  unfold appended
  have whole : offset + n - start = (offset - start) + n := by omega
  have back : start + (offset - start) = offset := by omega
  rw [whole, List.take_add, List.drop_drop, back]

/-- What a wait has gathered of a log: where it stands, and the end of what has been appended since
the action began. -/
structure Gathers (text : String) (start : Nat) (log : List UInt8) (poll : Poll) : Prop where
  since : start ≤ poll.offset
  within : poll.offset ≤ log.length
  tail : poll.tail = (appended start poll.offset log).rtake (window text)

theorem Gathers.grown {log' : List UInt8} (gathers : Gathers text start log poll)
    (grown : log <+: log') :
    Gathers text start log' poll :=
  ⟨gathers.since, gathers.within.trans grown.length_le,
    gathers.tail.trans (by rw [appended_grown grown gathers.within])⟩

theorem chunk_length : (look.log.drop poll.offset).take (poll.chunk look).length = poll.chunk look := by
  unfold Poll.chunk
  rw [List.length_take, List.take_eq_take_iff, List.length_drop]
  omega

theorem readOutput_named (named : action.outputContains = some text) :
    Slot.readOutput look.read action poll =
    if poll.chunk look = [] then (poll, false)
    else ({ poll with
        deadline := if action.extendTimeoutOnOutput then
          min (look.read.monotonic + action.timeoutSeconds) poll.hardDeadline
          else poll.deadline
        offset := poll.offset + (poll.chunk look).length
        tail := (poll.tail ++ poll.chunk look).rtake (window text) },
      decide (utf8 text <:+: (poll.tail ++ poll.chunk look).rtake (window text))) := by
  unfold Slot.readOutput
  rw [named]
  rfl

theorem readOutput_gathers (named : action.outputContains = some text)
    (gathers : Gathers text start look.log poll) :
    Gathers text start look.log (Slot.readOutput look.read action poll).1 ∧
      (Slot.readOutput look.read action poll).1.offset = poll.offset + (poll.chunk look).length ∧
      ((Slot.readOutput look.read action poll).2 = true ↔ poll.chunk look ≠ [] ∧
        utf8 text <:+: (appended start (poll.offset + (poll.chunk look).length) look.log).rtake
        (window text)) := by
  rw [readOutput_named named]
  by_cases nothing : poll.chunk look = []
  · rw [if_pos nothing, nothing]
    exact ⟨gathers, rfl, iff_of_false Bool.false_ne_true (fun both => both.1 rfl)⟩
  · rw [if_neg nothing]
    have tail : (poll.tail ++ poll.chunk look).rtake (window text) =
        (appended start (poll.offset + (poll.chunk look).length) look.log).rtake (window text) := by
      rw [appended_add gathers.since, chunk_length, gathers.tail, rtake_append_rtake]
    have within : poll.offset + (poll.chunk look).length ≤ look.log.length := by
      have bound : (poll.chunk look).length ≤ look.log.length - poll.offset := by
        rw [← List.length_drop]
        exact List.length_take_le' _ _
      have within := gathers.within
      omega
    refine ⟨⟨gathers.since.trans (Nat.le_add_right _ _), within, tail⟩, rfl, ?_⟩
    rw [decide_eq_true_iff, tail]
    exact ⟨fun seen => ⟨nothing, seen⟩, And.right⟩

theorem gathers_run (named : action.outputContains = some text) (gathers : Gathers text start log poll)
    {back : List Look} (grown : Grown log (looks ++ back)) (waits : action.Waits poll looks later) :
    ∃ log', Gathers text start log' later ∧ Grown log' back := by
  induction waits generalizing log with
  | nil => exact ⟨log, gathers, grown⟩
  | @cons poll look _ _ _ head _ ih =>
    obtain ⟨_, _, _, result⟩ := turn_stays head
    have read := (readOutput_gathers named (gathers.grown grown.1)).1
    rw [result] at read
    exact ih read grown.2

/-- A poll of the wait that is started, before which the output has not been seen and the task has
neither ended nor been advanced. -/
structure Polls (action : StopAction) (first : Poll) (front : List Look) (look : Look)
    (poll : Poll) : Prop where
  waits : action.Waits first front poll
  inTime : look.entered < min poll.deadline poll.hardDeadline
  running : look.ended = some false
  unadvanced : look.advanced = false

/-- The poll reads the last byte of the first occurrence of the text in what has been appended. -/
def ReadsLast (text : String) (start : Nat) (look : Look) (poll : Poll) : Prop :=
  ¬ utf8 text <:+: appended start poll.offset look.log ∧
    utf8 text <:+: appended start (poll.offset + (poll.chunk look).length) look.log

theorem turn_found (polls : Polls action (action.begins start started now) looks look poll) :
    action.turn poll look = .returns .found ↔ (Slot.readOutput look.read action poll).2 = true := by
  unfold StopAction.turn
  rw [if_pos polls.inTime, polls.running]
  dsimp only
  rw [polls.unadvanced, if_neg Bool.false_ne_true]
  generalize Slot.readOutput look.read action poll = result
  obtain ⟨moved, found⟩ := result
  cases found with
  | true => exact iff_of_true rfl rfl
  | false => exact iff_of_false (fun never => nomatch never) Bool.false_ne_true

theorem found_polls (waits : action.Waits (action.begins start started now) looks poll)
    (found : action.turn poll look = .returns .found) :
    Polls action (action.begins start started now) looks look poll := by
  have inTime := turn_entered (by rw [found]; exact fun never => nomatch never)
  refine ⟨waits, inTime, ?_, ?_⟩
  · unfold StopAction.turn at found
    rw [if_pos inTime] at found
    split at found
    · cases found
    · cases found
    · assumption
  · unfold StopAction.turn at found
    rw [if_pos inTime] at found
    split at found
    · cases found
    · cases found
    · split at found
      · cases found
      · rename_i unadvanced
        exact Bool.eq_false_iff.mpr unadvanced

/-- The wait returns at the poll that reads the last byte of the first occurrence of the text, if
and only if such a poll always leaves an occurrence within the window. It never returns for bytes
that the action has found. -/
theorem output_seen_iff (named : action.outputContains = some text) (before : List UInt8)
    (started now : Seconds)
    (grown : Grown before looks) :
    ((∀ front look back poll, looks = front ++ look :: back →
        Polls action (action.begins before.length started now) front look poll →
          ReadsLast text before.length look poll →
        action.turn poll look = .returns .found) ↔
      ∀ front look back poll, looks = front ++ look :: back →
        Polls action (action.begins before.length started now) front look poll →
          ReadsLast text before.length look poll →
        utf8 text <:+: (appended before.length
          (poll.offset + (poll.chunk look).length) look.log).rtake (window text)) ∧
    ∀ front look back poll, looks = front ++ look :: back →
      action.Waits (action.begins before.length started now) front poll →
        action.turn poll look = .returns .found →
      utf8 text <:+: appended before.length (poll.offset + (poll.chunk look).length) look.log := by
  have begun : Gathers text before.length before (action.begins before.length started now) := by
    refine ⟨le_rfl, le_rfl, ?_⟩
    have none : (action.begins before.length started now).offset - before.length = 0 := Nat.sub_self _
    unfold appended
    rw [none, List.take_zero, List.rtake_nil]
    rfl
  have seen : ∀ front look back poll, looks = front ++ look :: back →
      Polls action (action.begins before.length started now) front look poll →
      (action.turn poll look = .returns .found ↔ poll.chunk look ≠ [] ∧
        utf8 text <:+: (appended before.length
          (poll.offset + (poll.chunk look).length) look.log).rtake (window text)) := by
    rintro front look back poll rfl polls
    obtain ⟨log', gathers, later⟩ := gathers_run named begun grown polls.waits
    exact (turn_found polls).trans (readOutput_gathers named (gathers.grown later.1)).2.2
  refine ⟨⟨fun detects front look back poll split polls completes =>
    ?_, fun windowed front look back poll split polls completes => ?_⟩, ?_⟩
  · exact ((seen front look back poll split polls).mp
      (detects front look back poll split polls completes)).2
  · refine (seen front look back poll split polls).mpr
      ⟨fun nothing => ?_, windowed front look back poll split polls completes⟩
    obtain ⟨fresh, complete⟩ := completes
    rw [nothing] at complete
    exact fresh complete
  · intro front look back poll split waits found
    obtain ⟨_, within⟩ := (seen front look back poll split (found_polls waits found)).mp found
    exact within.trans (List.drop_suffix _ _).isInfix

end Output

section Runs

/-- An interrupt that is given two seconds, or five with output, and that awaits an x. -/
def awaiting : StopAction where
  call := .signal .sigint
  timeoutSeconds := 2
  extendTimeoutOnOutput := true
  maxTimeoutSeconds := some 5
  outputContains := some "x"
  label := none
  timeout_range := two_seconds_range
  max_range := by
    intro most same
    cases same
    decide
  extend_bounded := nofun
  needle_range := by
    intro text same
    cases same
    decide

/-- A turn at some second, in which the log is of these bytes. -/
def lookAt (second : Seconds) (log : List UInt8) : Look :=
  ⟨second, some false, false, ⟨"2024", second, some log⟩⟩

/-- Output after one second extends the wait to three. -/
theorem stop_wait_bounded_output : ∃ poll, awaiting.Waits (awaiting.begins 0 0 0) [lookAt 1 [97]] poll ∧
    awaiting.turn poll (lookAt 3 [97]) = .returns .expired ∧ (0 : Seconds) + 2 ≤ 3 := by
  have head : awaiting.turn (awaiting.begins 0 0 0) (lookAt 1 [97]) = .stays ⟨3, 5, 1, [97], 0⟩ := by
    with_unfolding_all rfl
  have waits : awaiting.Waits (awaiting.begins 0 0 0) [lookAt 1 [97]] _ := .single head
  have expired : awaiting.turn ⟨3, 5, 1, [97], 0⟩ (lookAt 3 [97]) = .returns .expired := by
    with_unfolding_all rfl
  have clocked : Clocked 0 ([lookAt 1 [97]] ++ [lookAt 3 [97]]) :=
    ⟨by decide, le_rfl, by decide, le_rfl, trivial⟩
  exact ⟨_, waits, expired, ((stop_wait_bounded awaiting 0 le_rfl clocked waits).2 expired).1⟩

/-- An x that is read last is seen. -/
theorem output_seen_last :
    awaiting.turn (awaiting.begins 0 0 0) (lookAt 1 [97, 120]) = .returns .found ∧
    utf8 "x" <:+: appended 0 (0 + ((awaiting.begins 0 0 0).chunk (lookAt 1 [97, 120])).length)
    [97, 120] := by
  have grown : Grown [] [lookAt 1 [97, 120]] := ⟨List.nil_prefix, trivial⟩
  have polls : Polls awaiting (awaiting.begins 0 0 0) [] (lookAt 1 [97, 120]) (awaiting.begins 0 0 0) :=
    ⟨.nil _, by decide +kernel, rfl, rfl⟩
  have found := (turn_found polls).mpr (by decide +kernel)
  exact ⟨found, (output_seen_iff rfl [] 0 0 grown).2 [] _ [] _ rfl (.nil _) found⟩

/-- An x that is followed by a thousand and a hundred bytes in one chunk is not. -/
theorem output_missed :
    ¬ ∀ (action : StopAction) (text : String) (before : List UInt8) (started now : Seconds)
    (looks : List Look),
    action.outputContains = some text → Grown before looks → ∀ front look back poll,
      looks = front ++ look :: back →
      Polls action (action.begins before.length started now) front look poll →
        ReadsLast text before.length look poll →
      action.turn poll look = .returns .found := by
  intro always
  let bytes : List UInt8 := 120 :: List.replicate 1100 97
  have grown : Grown [] [lookAt 1 bytes] := ⟨List.nil_prefix, trivial⟩
  have polls : Polls awaiting (awaiting.begins 0 0 0) [] (lookAt 1 bytes) (awaiting.begins 0 0 0) :=
    ⟨.nil _, by decide +kernel, rfl, rfl⟩
  have needle : utf8 "x" = [120] := by decide +kernel
  have whole : (awaiting.begins 0 0 0).chunk (lookAt 1 bytes) = bytes := List.take_of_length_le (by
    change bytes.length ≤ 65536
    rw [List.length_cons, List.length_replicate]
    omega)
  have gathered : appended 0 (0 + bytes.length) bytes = bytes := List.take_of_length_le (by
    rw [List.length_drop]
    omega)
  have completes : ReadsLast "x" 0 (lookAt 1 bytes) (awaiting.begins 0 0 0) := by
    unfold ReadsLast
    rw [needle, whole]
    constructor
    · exact fun never => absurd (List.infix_nil.mp never) (List.cons_ne_nil _ _)
    · change [120] <:+: appended 0 (0 + bytes.length) bytes
      rw [gathered]
      exact ⟨[], List.replicate 1100 97, rfl⟩
  have windowed := (output_seen_iff rfl [] 0 0 grown).1.mp (always awaiting "x" [] 0 0 _ rfl grown)
    [] _ [] _ rfl polls completes
  have kept : bytes.rtake (window "x") = List.replicate 1024 97 := by
    have width : window "x" = 1024 := by decide +kernel
    have length : bytes.length = 1101 := by
      rw [List.length_cons, List.length_replicate]
    rw [width, List.rtake, length]
    change List.drop 76 (List.replicate 1100 97) = _
    rw [List.drop_replicate]
  rw [needle, whole] at windowed
  change [120] <:+: (appended 0 (0 + bytes.length) bytes).rtake (window "x") at windowed
  rw [gathered, kept] at windowed
  have member : (120 : UInt8) ∈ List.replicate 1024 97 := windowed.subset (List.mem_singleton_self _)
  exact absurd (List.eq_of_mem_replicate member) (by decide)

end Runs

end LocalFlow
