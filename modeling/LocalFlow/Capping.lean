import LocalFlow.Archive

/-! A log with one writer at a time is a prefix of what was written, whatever the pieces were and
however often the log was opened again. -/
namespace LocalFlow
open Transition

namespace LogHandle

/-- What `write` returns: nothing where the free space cannot be read. -/
def consumed (handle : LogHandle) (io : WriteIO) (data : List UInt8) : Option Nat :=
  if data = [] then some 0
  else
    match handle.intake io.free data with
    | .unchecked => none
    | _ => some data.length

end LogHandle

def ArchiveAct.data : ArchiveAct → List UInt8
  | .write _ data _ => data
  | _ => []

/-- A writer is opened after the others were closed, no call fails and the disk keeps its reserve. -/
def Alone (m : Nat) (a : Archive) : ArchiveAct → Prop
  | .start maxBytes _ io =>
    maxBytes = m ∧ io.create = .written ∧ io.mark = .written ∧ ∀ handle ∈ a.writers,
      handle.closed = true
  | .write n data io => io.Sound ∧ ∀ handle free, a.writers[n]? = some handle → io.free = some free →
    handle.checks data = true → handle.keepFreeBytes ≠ 0 → handle.keepFreeBytes < free
  | .close _ => True

/-- The bytes of a log and its record, after everything that was passed to it. -/
inductive Capped (m : Nat) (log : TaskLog) : Prop where
  | within (room : log.passed.length ≤ m - outputLimitMarker.length)
      (isFile : log.file = some log.passed)
      (isRecord : log.record = some (.health (some true) none))
  | exceeding (beyond : m - outputLimitMarker.length < log.passed.length)
      (isFile : log.file = some (log.passed.take (m - outputLimitMarker.length) ++ outputLimitMarker))
      (isRecord : log.record = some (.health (some false) (some "file_limit")))

/-- What an open writer knows of the log. -/
structure Current (m : Nat) (log : TaskLog) (handle : LogHandle) : Prop where
  limit : handle.maxBytes = m
  count : handle.stopped = false → handle.size = log.size
  stopped : handle.stopped = true ↔ m - outputLimitMarker.length < log.passed.length

/-- What every run with one writer at a time keeps. -/
structure Cut (m : Nat) (a : Archive) : Prop where
  log : a.writers = [] ∧ a.log = .absent ∨ Capped m a.log
  current : ∀ (n : Nat) handle, a.writers[n]? = some handle → handle.closed = false →
    Current m a.log handle
  single : ∀ (i j : Nat) left right, a.writers[i]? = some left → a.writers[j]? = some right →
    left.closed = false →
    right.closed = false → i = j

section Writes
variable {m : Nat} {log : TaskLog} {handle : LogHandle} {io : WriteIO} {data : List UInt8}

theorem file_of_bytes {bytes : List UInt8} (isBytes : log.file.getD [] = bytes)
    (nonempty : bytes ≠ []) :
    log.file = some bytes := by
  cases isFile : log.file with
  | none =>
    rw [isFile] at isBytes
    exact absurd isBytes.symm nonempty
  | some file =>
    rw [isFile] at isBytes
    exact congrArg some isBytes

theorem intake_reserve {free : Option Nat} (reserve : handle.intake free data = .reserve) :
    handle.checks data = true ∧ handle.keepFreeBytes ≠ 0 ∧ ∃ left, free = some left ∧
      left ≤ handle.keepFreeBytes := by
  have unfit : handle.fit data ≠ .reserve := by
    unfold LogHandle.fit
    split
    · exact nofun
    · exact nofun
  unfold LogHandle.intake at reserve
  split at reserve
  · cases reserve
  · split at reserve
    · rename_i checks
      split at reserve
      · cases reserve
      · rename_i left
        split at reserve
        · rename_i low
          exact ⟨checks.1, checks.2, left, rfl, low⟩
        · exact absurd reserve unfit
    · exact absurd reserve unfit

/-- What one write leaves of a log and of the writer that is open on it. -/
structure Leaves (m : Nat) (handle : LogHandle) (stream : List UInt8)
    (result : TaskLog × LogHandle) : Prop where
  log : Capped m result.1
  current : Current m result.1 result.2
  closed : result.2.closed = handle.closed
  passed : result.1.passed = stream

/-- A full log takes nothing more. -/
theorem leaves_full (capped : Capped m log) (current : Current m log handle)
    (stopped : handle.stopped = true)
    (data : List UInt8) :
    Leaves m handle (log.passed ++ data) ({ log with passed := log.passed ++ data }, handle) := by
  have beyond := current.stopped.mp stopped
  have still : m - outputLimitMarker.length < (log.passed ++ data).length := by
    rw [List.length_append]
    omega
  cases capped with
  | within room => omega
  | exceeding _ isFile isRecord =>
    refine ⟨.exceeding still ?_ isRecord,
      ⟨current.limit, fun running => ?_, iff_of_true stopped still⟩, rfl, rfl⟩
    · dsimp only
      rw [isFile, List.take_append_of_le_length (Nat.le_of_lt beyond)]
    · rw [stopped] at running
      cases running

/-- A log that is open and not full holds all that was passed to it. -/
theorem whole_of_running (capped : Capped m log) (current : Current m log handle)
    (running : handle.stopped = false) :
    log.passed.length ≤ m - outputLimitMarker.length ∧ log.file = some log.passed ∧
      log.record = some (.health (some true) none) ∧ handle.size = log.passed.length := by
  cases capped with
  | within room isFile isRecord =>
    refine ⟨room, isFile, isRecord, (current.count running).trans ?_⟩
    rw [TaskLog.size, TaskLog.bytes, isFile, Option.getD_some]
  | exceeding beyond =>
    rw [current.stopped.mpr beyond] at running
    cases running

theorem leaves_whole (capped : Capped m log) (current : Current m log handle) (sound : io.Sound)
    (running : handle.stopped = false) (nonempty : data ≠ [])
    (fits : handle.size + data.length ≤ m - outputLimitMarker.length) :
    Leaves m handle (log.passed ++ data)
      ((handle.counted data).append io { log with passed := log.passed ++ data } data).1 := by
  obtain ⟨room, wasFile, isRecord, count⟩ := whole_of_running capped current running
  have isBytes : log.bytes = log.passed := by rw [TaskLog.bytes, wasFile, Option.getD_some]
  obtain ⟨file, stored, same⟩ :=
    append_sound sound { log with passed := log.passed ++ data } (handle.counted data) data
  have total : (log.passed ++ data).length = handle.size + data.length := by
    rw [List.length_append, count]
  have contents : file.getD [] = log.passed ++ data := stored.trans (congrArg (· ++ data) isBytes)
  have isFile : file = some (log.passed ++ data) := by
    refine @file_of_bytes { log with file } _ contents (fun empty => ?_)
    exact nonempty (List.append_eq_nil_iff.mp empty).2
  rw [same]
  refine ⟨.within (total.trans_le fits) isFile isRecord, ⟨current.limit, fun _ => ?_, ?_⟩, rfl, rfl⟩
  · exact total.symm.trans (congrArg List.length contents).symm
  · refine iff_of_false (fun stopped => ?_) (Nat.not_lt.mpr (total.trans_le fits))
    rw [show ({ handle.counted data with size := (handle.counted data).size + data.length } :
      LogHandle).stopped =
      handle.stopped from rfl, running] at stopped
    cases stopped

theorem leaves_cut (capped : Capped m log) (current : Current m log handle) (sound : io.Sound)
    (running : handle.stopped = false)
    (exceeds : m - outputLimitMarker.length < handle.size + data.length) :
    Leaves m handle (log.passed ++ data)
    ((handle.counted data).cut io { log with passed := log.passed ++ data } data
      (m - outputLimitMarker.length - handle.size)) := by
  obtain ⟨room, wasFile, isRecord, count⟩ := whole_of_running capped current running
  have isBytes : log.bytes = log.passed := by rw [TaskLog.bytes, wasFile, Option.getD_some]
  obtain ⟨file, stored, same⟩ := @cut_stores (handle.counted data) io data sound
    { log with passed := log.passed ++ data } (m - outputLimitMarker.length - handle.size) (by omega)
  have beyond : m - outputLimitMarker.length < (log.passed ++ data).length := by
    rw [List.length_append]
    omega
  have prefixed : (log.passed ++ data).take (m - outputLimitMarker.length) =
      log.passed ++ data.take (m - outputLimitMarker.length - handle.size) := by
    rw [List.take_append, List.take_of_length_le room, count]
  have contents : file.getD [] = (log.passed ++ data).take (m - outputLimitMarker.length) ++
    outputLimitMarker := by
    rw [stored, prefixed, ← isBytes]
    rfl
  have isFile := @file_of_bytes { log with file } _ contents (fun empty => by
    have positive := marker_nonempty
    rw [(List.append_eq_nil_iff.mp empty).2] at positive
    exact absurd positive (Nat.lt_irrefl 0))
  have recorded : ({ log with passed := log.passed ++ data } : TaskLog).Recorded := by
    constructor
    · show log.file.isSome
      rw [wasFile]
      rfl
    · show log.record.isSome
      rw [isRecord]
      rfl
  rw [same, mark_written recorded]
  exact ⟨.exceeding beyond isFile rfl, ⟨current.limit, by simp, iff_of_true rfl beyond⟩, rfl, rfl⟩

theorem leaves_write (limited : m ≠ 0) (capped : Capped m log) (current : Current m log handle)
    (sound : io.Sound)
    (reserved : ∀ free, io.free = some free → handle.checks data = true → handle.keepFreeBytes ≠ 0 →
      handle.keepFreeBytes < free) :
      Leaves m handle (log.passed ++ data) (handle.write io log data) := by
  have payload : handle.payloadLimit = m - outputLimitMarker.length := by
    rw [LogHandle.payloadLimit, current.limit]
  rcases Classical.em (data = [] ∨ handle.stopped = true) with idle | busy
  · have same : handle.write io log data = ({ log with passed := log.passed ++ data }, handle) := by
      unfold LogHandle.write LogHandle.intake
      rw [if_pos idle]
    rw [same]
    rcases idle with rfl | stopped
    · rw [List.append_nil]
      exact ⟨capped, current, rfl, rfl⟩
    · exact leaves_full capped current stopped data
  · obtain ⟨nonempty, running⟩ := not_or.mp busy
    replace running : handle.stopped = false := Bool.eq_false_iff.mpr running
    unfold LogHandle.write
    dsimp only
    have takes := takes_intake handle io.free data
    have reserve := @intake_reserve handle data io.free
    generalize handle.intake io.free data = intake at takes reserve
    cases takes with
    | ignored idle => exact absurd idle busy
    | unchecked _ raised =>
      have free := sound.free
      rw [raised] at free
      cases free
    | reserve =>
      obtain ⟨checks, keeps, free, isFree, low⟩ := reserve rfl
      have more := reserved free isFree checks keeps
      omega
    | whole running fits =>
      have small := fits.resolve_left (fun unlimited => limited (current.limit.symm.trans unlimited))
      rw [payload] at small
      exact leaves_whole capped current sound running nonempty small
    | cut running limited exceeds =>
      rw [payload] at exceeds ⊢
      exact leaves_cut capped current sound running exceeds

theorem extend_nil {bytes : List UInt8} (isFile : log.file = some bytes) : log.extend [] = log := by
  have same : some (log.bytes ++ []) = log.file := by
    rw [TaskLog.bytes, isFile, Option.getD_some, List.append_nil]
  rw [TaskLog.extend, same]

/-- What opening a writer leaves. -/
structure Reopens (m : Nat) (stream : List UInt8) (result : TaskLog × Option LogHandle) : Prop where
  log : Capped m result.1
  passed : result.1.passed = stream
  current : ∃ handle, result.2 = some handle ∧ Current m result.1 handle

theorem reopens_opened (large : outputLimitMarker.length < m) (known : log = .absent ∨ Capped m log)
    (keepFreeBytes : Nat)
    {io : OpenIO} (create : io.create = .written) (mark : io.mark = .written) :
    Reopens m log.passed (LogHandle.opened log m keepFreeBytes io) := by
  have accepted : ¬(m ≠ 0 ∧ m ≤ outputLimitMarker.length) := by omega
  unfold LogHandle.opened
  rw [if_neg accepted, create, mark]
  dsimp only
  rcases known with rfl | capped
  · have fits : ¬(m ≠ 0 ∧ m ≤ TaskLog.absent.size) := fun full => absurd full.2 (Nat.not_le.mpr (by
      exact Nat.lt_of_le_of_lt (Nat.zero_le _) large))
    show Reopens m [] (if m ≠ 0 ∧ m ≤ TaskLog.absent.size then _ else _)
    rw [if_neg fits]
    refine ⟨.within (Nat.zero_le _) rfl rfl, rfl, _, rfl, rfl, fun _ => rfl, ?_⟩
    exact iff_of_false Bool.false_ne_true (Nat.not_lt.mpr (Nat.zero_le _))
  · cases capped with
    | within room isFile isRecord =>
      have size : log.size = log.passed.length := by
        rw [TaskLog.size, TaskLog.bytes, isFile, Option.getD_some]
      have positive := marker_nonempty
      have fits : ¬(m ≠ 0 ∧ m ≤ log.size) := by omega
      rw [isRecord]
      dsimp only
      rw [if_neg fits, extend_nil isFile]
      have reason : log.outputIntegrity.reason = none := by
        rw [TaskLog.outputIntegrity, isFile, isRecord]
      rw [reason]
      refine ⟨.within room isFile isRecord, rfl, _, rfl, rfl, fun _ => rfl, ?_⟩
      exact iff_of_false Bool.false_ne_true (Nat.not_lt.mpr room)
    | exceeding beyond isFile isRecord =>
      have size : log.size = m := by
        rw [TaskLog.size, TaskLog.bytes, isFile, Option.getD_some, List.length_append, List.length_take]
        omega
      have full : m ≠ 0 ∧ m ≤ log.size := by omega
      have recorded : log.Recorded := by
        constructor
        · rw [isFile]
          rfl
        · rw [isRecord]
          rfl
      rw [isRecord]
      dsimp only
      rw [if_pos full, extend_nil isFile, mark_written recorded]
      exact ⟨.exceeding beyond isFile rfl, rfl, _, rfl, rfl, by simp, iff_of_true rfl beyond⟩

end Writes

section Runs
variable {m : Nat} {a b : Archive} {act : ArchiveAct} {acts : List ArchiveAct}

theorem Cut.absent (m : Nat) : Cut m .absent where
  log := .inl ⟨rfl, rfl⟩
  current n handle found := by cases found
  single i j left right found := by cases found

/-- A step passes its data to the log. -/
structure PassesOn (m : Nat) (a : Archive) (act : ArchiveAct) (b : Archive) : Prop where
  cut : Cut m b
  passed : b.log.passed = a.log.passed ++ act.data

theorem Cut.start (cut : Cut m a) (large : outputLimitMarker.length < m)
    (closed : ∀ handle ∈ a.writers, handle.closed = true)
    (keepFreeBytes : Nat) {io : OpenIO} (create : io.create = .written) (mark : io.mark = .written) :
    PassesOn m a (.start m keepFreeBytes io) ⟨(LogHandle.opened a.log m keepFreeBytes io).1,
      a.writers ++ (LogHandle.opened a.log m keepFreeBytes io).2.toList⟩ := by
  have starts := reopens_opened large (cut.log.imp_left And.right) keepFreeBytes create mark
  obtain ⟨handle, isHandle, current⟩ := starts.current
  rw [isHandle]
  -- Only the new writer is open.
  have last : ∀ (n : Nat) other, (a.writers ++ [handle])[n]? = some other → other.closed = false →
      n = a.writers.length ∧ other = handle := by
    intro n other found running
    rcases Nat.lt_trichotomy n a.writers.length with old | new | beyond
    · rw [List.getElem?_append_left old] at found
      rw [closed other (List.mem_of_getElem? found)] at running
      cases running
    · rw [new, List.getElem?_concat_length] at found
      exact ⟨new, (Option.some.inj found).symm⟩
    · rw [List.getElem?_eq_none (by rw [List.length_append, List.length_singleton]; omega)] at found
      cases found
  refine ⟨⟨.inr starts.log, ?_, ?_⟩, starts.passed.trans (List.append_nil _).symm⟩
  · intro n other found running
    rw [(last n other found running).2]
    exact current
  · intro i j left right isLeft isRight leftRunning rightRunning
    rw [(last i left isLeft leftRunning).1, (last j right isRight rightRunning).1]

theorem Cut.write (cut : Cut m a) (limited : m ≠ 0) {n : Nat} {data : List UInt8} {io : WriteIO}
    {handle : LogHandle}
    (isHandle : a.writers[n]? = some handle) (running : handle.closed = false)
    (alone : Alone m a (.write n data io)) :
    PassesOn m a (.write n data io)
      ⟨(handle.write io a.log data).1, a.writers.set n (handle.write io a.log data).2⟩ := by
  obtain ⟨sound, reserved⟩ := alone
  have capped : Capped m a.log := by
    rcases cut.log with ⟨none_yet, -⟩ | capped
    · rw [none_yet] at isHandle
      cases isHandle
    · exact capped
  have current := cut.current n handle isHandle running
  obtain ⟨log, current', closed, passed⟩ := leaves_write limited capped current sound
    (fun free isFree checks keeps => reserved handle free isHandle isFree checks keeps)
  obtain ⟨within, -⟩ := List.getElem?_eq_some_iff.mp isHandle
  -- The other writers are closed.
  have only : ∀ (i : Nat) other, (a.writers.set n (handle.write io a.log data).2)[i]? = some other →
      other.closed = false → i = n ∧ other = (handle.write io a.log data).2 := by
    intro i other found open_
    rw [List.getElem?_set] at found
    split at found
    · rename_i same
      exact ⟨same.symm, (Option.some.inj found).symm⟩
    · rename_i different
      exact absurd (cut.single n i handle other isHandle found running open_) different
  refine ⟨⟨.inr log, ?_, ?_⟩, passed⟩
  · intro i other found open_
    rw [(only i other found open_).2]
    exact current'
  · intro i j left right isLeft isRight leftRunning rightRunning
    rw [(only i left isLeft leftRunning).1, (only j right isRight rightRunning).1]

theorem Cut.close (cut : Cut m a) {n : Nat} {handle : LogHandle}
    (isHandle : a.writers[n]? = some handle) :
    PassesOn m a (.close n) { a with writers := a.writers.set n { handle with closed := true } } := by
  have kept : ∀ (i : Nat) other, (a.writers.set n { handle with closed := true })[i]? = some other →
      other.closed = false → a.writers[i]? = some other := by
    intro i other found running
    rw [List.getElem?_set] at found
    split at found
    · split at found
      · cases found
        cases running
      · cases found
    · exact found
  refine ⟨⟨?_, ?_, ?_⟩, (List.append_nil _).symm⟩
  · refine cut.log.imp_left (fun none_yet => ?_)
    rw [none_yet.1] at isHandle
    cases isHandle
  · intro i other found running
    exact cut.current i other (kept i other found running) running
  · intro i j left right isLeft isRight leftRunning rightRunning
    exact cut.single i j left right (kept i left isLeft leftRunning)
      (kept j right isRight rightRunning) leftRunning
      rightRunning

theorem Cut.step (cut : Cut m a) (large : outputLimitMarker.length < m)
    (stepped : Guarded ArchiveStep (Alone m) a act b) :
    PassesOn m a act b := by
  obtain ⟨stepped, alone⟩ := stepped
  cases act with
  | start maxBytes keepFreeBytes io =>
    cases stepped
    obtain ⟨rfl, create, mark, closed⟩ := alone
    exact cut.start large closed keepFreeBytes create mark
  | write n data io =>
    obtain ⟨handle, isHandle, rest⟩ := Option.bind_eq_some_iff.mp stepped
    split at rest
    · cases rest
    · rename_i running
      cases rest
      exact cut.write (by omega) isHandle (Bool.eq_false_iff.mpr running) alone
  | close n =>
    obtain ⟨handle, isHandle, rfl⟩ := Option.map_eq_some_iff.mp stepped
    exact cut.close isHandle

/-- Everything that a run writes. -/
def stream (acts : List ArchiveAct) : List UInt8 := acts.flatMap ArchiveAct.data

theorem Cut.run (cut : Cut m a) (large : outputLimitMarker.length < m)
    (run : Run (Guarded ArchiveStep (Alone m)) a acts b) :
    Cut m b ∧ b.log.passed = a.log.passed ++ stream acts := by
  induction run with
  | nil => exact ⟨cut, (List.append_nil _).symm⟩
  | @cons a act b acts c first rest ih =>
    have passes := cut.step large first
    obtain ⟨kept, passed⟩ := ih passes.cut
    refine ⟨kept, ?_⟩
    rw [passed, passes.passed, stream, stream, List.flatMap_cons, List.append_assoc]

theorem consumed_all {handle : LogHandle} {io : WriteIO} (sound : io.Sound) (data : List UInt8) :
    handle.consumed io data = some data.length := by
  unfold LogHandle.consumed
  split
  · rename_i empty
    rw [empty]
    rfl
  · have takes := takes_intake handle io.free data
    generalize handle.intake io.free data = intake at takes ⊢
    cases takes with
    | unchecked _ raised =>
      have free := sound.free
      rw [raised] at free
      cases free
    | ignored => rfl
    | reserve => rfl
    | whole => rfl
    | cut => rfl

/-- A log with one writer at a time holds what was written as far as the limit allows, then the
marker, and every write takes all of its data. -/
theorem bounded_log_exact (large : outputLimitMarker.length < m)
    (run : Run (Guarded ArchiveStep (Alone m)) .absent acts a) (opened : a.writers ≠ []) :
    ((stream acts).length ≤ m - outputLimitMarker.length →
      a.log.file = some (stream acts) ∧ a.log.outputIntegrity = ⟨some true, none⟩) ∧
    (m - outputLimitMarker.length < (stream acts).length →
      a.log.file = some ((stream acts).take (m - outputLimitMarker.length) ++ outputLimitMarker) ∧
        a.log.outputIntegrity = ⟨some false, some "file_limit"⟩) ∧
    ∀ before after n data io, acts = before ++ .write n data io :: after → ∃ b handle,
      Run (Guarded ArchiveStep (Alone m)) .absent before b ∧ b.writers[n]? = some handle ∧
        handle.consumed io data = some data.length := by
  obtain ⟨cut, passed⟩ := (Cut.absent m).run large run
  replace passed : a.log.passed = stream acts := passed
  have capped := cut.log.resolve_left (fun none_yet => opened none_yet.1)
  rw [← passed]
  refine ⟨?_, ?_, ?_⟩
  · intro room
    cases capped with
    | within _ isFile isRecord => exact ⟨isFile, by rw [TaskLog.outputIntegrity, isFile, isRecord]⟩
    | exceeding beyond => omega
  · intro beyond
    cases capped with
    | within room => omega
    | exceeding _ isFile isRecord => exact ⟨isFile, by rw [TaskLog.outputIntegrity, isFile, isRecord]⟩
  · rintro before after n data io rfl
    obtain ⟨b, first, second⟩ := run.split
    cases second with
    | cons stepped rest =>
      obtain ⟨handle, isHandle, -⟩ := Option.bind_eq_some_iff.mp stepped.1
      exact ⟨b, handle, first, isHandle, consumed_all stepped.2.1 data⟩

/-- A stream that is cut after the log was opened a second time. -/
theorem bounded_log_exact_reopened : ∃ a, Run (Guarded ArchiveStep (Alone 80)) .absent
    [.start 80 0 .plain, .write 0 [1, 2, 3, 4, 5, 6] .plain, .close 0, .start 80 0 .plain,
      .write 1 [7, 8, 9, 10, 11, 12, 13] .plain] a ∧
    a.log.file = some (([1, 2, 3, 4, 5, 6, 7, 8, 9, 10, 11, 12, 13] : List UInt8).take
      (80 - outputLimitMarker.length) ++ outputLimitMarker) := by
  have first : Guarded ArchiveStep (Alone 80) .absent (.start 80 0 .plain)
      ⟨⟨some [], some (.health (some true) none), [], 0⟩, [⟨80, 0, 0, false, 1048576, false⟩]⟩ :=
    ⟨rfl, rfl, rfl, rfl, nofun⟩
  obtain ⟨written, isWritten⟩ : ∃ written : TaskLog, written =
      ⟨some [1, 2, 3, 4, 5, 6], some (.health (some true) none), [1, 2, 3, 4, 5, 6], 0⟩ := ⟨_, rfl⟩
  have second : Guarded ArchiveStep (Alone 80)
      ⟨⟨some [], some (.health (some true) none), [], 0⟩, [⟨80, 0, 0, false, 1048576, false⟩]⟩
      (.write 0 [1, 2, 3, 4, 5, 6] .plain) ⟨written, [⟨80, 0, 6, false, 0, false⟩]⟩ := by
    rw [isWritten]
    refine ⟨by with_unfolding_all rfl, plain_sound, fun handle free found _ _ keeps => ?_⟩
    cases found
    exact absurd rfl keeps
  have third : Guarded ArchiveStep (Alone 80) ⟨written, [⟨80, 0, 6, false, 0, false⟩]⟩ (.close 0)
      ⟨written, [⟨80, 0, 6, false, 0, true⟩]⟩ := ⟨rfl, trivial⟩
  have fourth : Guarded ArchiveStep (Alone 80) ⟨written, [⟨80, 0, 6, false, 0, true⟩]⟩
    (.start 80 0 .plain)
      ⟨written, [⟨80, 0, 6, false, 0, true⟩, ⟨80, 0, 6, false, 1048576, false⟩]⟩ := by
    rw [isWritten]
    refine ⟨by with_unfolding_all rfl, rfl, rfl, rfl, fun handle listed => ?_⟩
    rw [List.mem_singleton.mp listed]
  obtain ⟨log, handle, wrote⟩ : ∃ log handle,
      Archive.step ⟨written, [⟨80, 0, 6, false, 0, true⟩, ⟨80, 0, 6, false, 1048576, false⟩]⟩
        (.write 1 [7, 8, 9, 10, 11, 12, 13] .plain) =
          some ⟨log, [⟨80, 0, 6, false, 0, true⟩, handle]⟩ := ⟨_, _, rfl⟩
  have fifth : Guarded ArchiveStep (Alone 80)
      ⟨written, [⟨80, 0, 6, false, 0, true⟩, ⟨80, 0, 6, false, 1048576, false⟩]⟩
      (.write 1 [7, 8, 9, 10, 11, 12, 13] .plain) ⟨log, [⟨80, 0, 6, false, 0, true⟩, handle]⟩ := by
    refine ⟨wrote, plain_sound, fun handle free found _ _ keeps => ?_⟩
    cases found
    exact absurd rfl keeps
  have run := Run.cons first (.cons second (.cons third (.cons fourth (.single fifth))))
  exact ⟨_, run, ((bounded_log_exact (by decide +kernel) run (List.cons_ne_nil _ _)).2.1
    (by decide +kernel)).1⟩

end Runs

end LocalFlow
