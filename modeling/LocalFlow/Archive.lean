import LocalFlow.LogFiles
import LocalFlow.Library.Run

/-! One task log on disk and the writers that are open on it. Every writer keeps its own count of the
bytes and its own stop flag, read when it was opened. -/
namespace LocalFlow
open Transition

/-- What the first 1024 bytes of `output.log.integrity.json` decode to. -/
inductive IntegrityRecord where
  | unreadable
  | health (complete : Option Bool) (reason : Option String)

def IntegrityRecord.claims : IntegrityRecord → Bool
  | .health (some true) _ => true
  | _ => false

/-- What a write that raises may leave of a record: never a claim of completeness that was not there. -/
abbrev TornRecord := { record : IntegrityRecord // record.claims = false }

/-- What `output_integrity` returns. -/
structure OutputIntegrity where
  complete : Option Bool
  reason : Option String

/-- The log and its record, with everything that was passed to `write` since the file was created
and the number of markers put into it. -/
structure TaskLog where
  file : Option (List UInt8)
  record : Option IntegrityRecord
  passed : List UInt8
  markers : Nat

/-- How a call that overwrites the record, and removes it if that raises, ends. -/
inductive MarkOutcome where
  | written
  | failed (torn : Option TornRecord) (removed : Bool)

namespace TaskLog

def absent : TaskLog := ⟨none, none, [], 0⟩

variable (log : TaskLog)

def bytes : List UInt8 := log.file.getD []

def size : Nat := log.bytes.length

def outputIntegrity : OutputIntegrity :=
  match log.file with
  | none => ⟨some false, some "missing"⟩
  | some bytes =>
    match log.record with
    | some (.health complete reason) => ⟨complete, reason⟩
    | some .unreadable => ⟨none, some "metadata_unreadable"⟩
    | none =>
      if bytes.drop (bytes.length - outputLimitMarker.length) = outputLimitMarker then
        ⟨some false, some "file_limit"⟩
      else ⟨none, some "legacy_unverified"⟩

/-- `_mark_incomplete` on disk. A record that is not there cannot be overwritten. -/
def mark (reason : String) (outcome : MarkOutcome) : TaskLog :=
  match log.record, outcome with
  | none, _ => log
  | some _, .written => { log with record := some (.health (some false) (some reason)) }
  | some old, .failed torn removed =>
    { log with record := if removed then none else some (torn.elim old Subtype.val) }

def extend (data : List UInt8) : TaskLog := { log with file := some (log.bytes ++ data) }

end TaskLog

/-- What a writer keeps in memory. -/
structure LogHandle where
  maxBytes : Nat
  keepFreeBytes : Nat
  size : Nat
  stopped : Bool
  bytesSinceSpaceCheck : Nat
  closed : Bool

/-- What the file system answers during one `write`. `free` is `none` when `disk_usage` raises. -/
structure WriteIO where
  free : Option Nat
  accepts : Nat → Option Nat
  within : ∀ n size, accepts n = some size → size ≤ n
  mark : String → MarkOutcome

/-- How the call that creates the record ends. `late` is the exception that leaves the whole record. -/
inductive CreateOutcome where
  | written | late
  | failed (left : Option TornRecord)

/-- What it answers while a writer is opened. -/
structure OpenIO where
  create : CreateOutcome
  mark : MarkOutcome

/-- How `write` takes its data. -/
inductive Intake where
  | ignored | unchecked | reserve | whole
  | cut (remaining : Nat)

namespace LogHandle

/-- What a new writer writes into the record that is missing. -/
def firstRecord (size : Nat) : IntegrityRecord :=
  if size = 0 then .health (some true) none else .health none (some "legacy_unverified")

/-- `__init__`: no writer when it raises. -/
def opened (log : TaskLog) (maxBytes keepFreeBytes : Nat) (io : OpenIO) : TaskLog × Option LogHandle :=
  if maxBytes ≠ 0 ∧ maxBytes ≤ outputLimitMarker.length then (log, none)
  else
    let size := log.size
    let create (log : TaskLog) : TaskLog × Option LogHandle :=
      let stopped := (log.outputIntegrity.reason).any (fun reason =>
        reason ∈ ["file_limit", "disk_reserve", "write_error"])
      if maxBytes ≠ 0 ∧ maxBytes ≤ size then
        (log.mark "file_limit" io.mark, some ⟨maxBytes, keepFreeBytes, size, true, 1048576, false⟩)
      else (log, some ⟨maxBytes, keepFreeBytes, size, stopped, 1048576, false⟩)
    match log.record, io.create with
    | none, .failed left => ({ log.extend [] with record := left.map Subtype.val }, none)
    | none, .late => ({ log.extend [] with record := some (firstRecord size) }, none)
    | none, .written => create { log.extend [] with record := some (firstRecord size) }
    | some _, _ => create (log.extend [])

variable (handle : LogHandle) (io : WriteIO)

def checks (data : List UInt8) : Bool := 1048576 ≤ handle.bytesSinceSpaceCheck + data.length

def counted (data : List UInt8) : LogHandle :=
  { handle with bytesSinceSpaceCheck := if handle.checks data then 0
    else handle.bytesSinceSpaceCheck + data.length }

def payloadLimit : Nat := handle.maxBytes - outputLimitMarker.length

/-- The decision about the size. -/
def fit (data : List UInt8) : Intake :=
  if handle.maxBytes = 0 ∨ handle.size + data.length ≤ handle.payloadLimit then .whole
  else .cut (handle.payloadLimit - handle.size)

def intake (free : Option Nat) (data : List UInt8) : Intake :=
  if data = [] ∨ handle.stopped then .ignored
  else if handle.checks data ∧ handle.keepFreeBytes ≠ 0 then
    match free with
    | none => .unchecked
    | some free => if free ≤ handle.keepFreeBytes then .reserve else handle.fit data
  else handle.fit data

/-- The loop of `_append`. -/
def appendLoop : Nat → TaskLog → LogHandle → List UInt8 → (TaskLog × LogHandle) × Bool
  | 0, log, handle, _ => ((log, handle), true)
  | turns + 1, log, handle, view =>
    if view = [] then ((log, handle), true)
    else
      match io.accepts view.length with
      | none | some 0 => ((log.mark "write_error" (io.mark "write_error"),
          { handle with stopped := true }), false)
      | some size => appendLoop turns (log.extend (view.take size))
          { handle with size := handle.size + size } (view.drop size)

def append (log : TaskLog) (data : List UInt8) : (TaskLog × LogHandle) × Bool :=
  appendLoop io data.length log handle data

/-- The end of a log that has reached its limit: what still fits, then the marker. -/
def cut (log : TaskLog) (data : List UInt8) (remaining : Nat) : TaskLog × LogHandle :=
  let marked := log.mark "file_limit" (io.mark "file_limit")
  let stopped := { handle with stopped := true }
  let (filled, stored) :=
    if remaining = 0 then ((marked, stopped), true) else stopped.append io marked (data.take remaining)
  if stored then
    (filled.2.append io { filled.1 with markers := filled.1.markers + 1 } outputLimitMarker).1
  else filled

/-- `write`. -/
def write (log : TaskLog) (data : List UInt8) : TaskLog × LogHandle :=
  let log := { log with passed := log.passed ++ data }
  match handle.intake io.free data with
  | .ignored => (log, handle)
  | .unchecked => (log, handle.counted data)
  | .reserve => (log.mark "disk_reserve" (io.mark "disk_reserve"),
      { handle.counted data with stopped := true })
  | .whole => ((handle.counted data).append io log data).1
  | .cut remaining => (handle.counted data).cut io log data remaining

end LogHandle

/-- The log and every writer ever opened on it. -/
structure Archive where
  log : TaskLog
  writers : List LogHandle

inductive ArchiveAct where
  | start (maxBytes keepFreeBytes : Nat) (io : OpenIO)
  | write (writer : Nat) (data : List UInt8) (io : WriteIO)
  | close (writer : Nat)

namespace Archive

def absent : Archive := ⟨.absent, []⟩

variable (a : Archive)

def step (act : ArchiveAct) : Option Archive :=
  match act with
  | .start maxBytes keepFreeBytes io =>
    let (log, writer) := LogHandle.opened a.log maxBytes keepFreeBytes io
    some ⟨log, a.writers ++ writer.toList⟩
  | .write n data io => do
    let handle ← a.writers[n]?
    if handle.closed then none
    else
      let (log, handle) := handle.write io a.log data
      some ⟨log, a.writers.set n handle⟩
  | .close n => a.writers[n]?.map
      (fun handle => { a with writers := a.writers.set n { handle with closed := true } })

end Archive

def ArchiveStep (a : Archive) (act : ArchiveAct) (b : Archive) : Prop := a.step act = some b

section Append
variable {log : TaskLog} {handle : LogHandle} {io : WriteIO} {data view : List UInt8}
  {reason : String} {outcome : MarkOutcome}

@[simp] theorem bytes_extend : (log.extend data).bytes = log.bytes ++ data := rfl

@[simp] theorem mark_file : (log.mark reason outcome).file = log.file := by
  unfold TaskLog.mark
  split <;> rfl

@[simp] theorem mark_passed : (log.mark reason outcome).passed = log.passed := by
  unfold TaskLog.mark
  split <;> rfl

@[simp] theorem mark_markers : (log.mark reason outcome).markers = log.markers := by
  unfold TaskLog.mark
  split <;> rfl

@[simp] theorem mark_bytes : (log.mark reason outcome).bytes = log.bytes := by
  simp [TaskLog.bytes]

/-- An append stores its data, or a part of it and marks the log. -/
inductive Appends (io : WriteIO) (log : TaskLog) (handle : LogHandle) (data : List UInt8) :
    (TaskLog × LogHandle) × Bool → Prop where
  | stored (file : Option (List UInt8)) (isBytes : file.getD [] = log.bytes ++ data) :
      Appends io log handle data
        (({ log with file }, { handle with size := handle.size + data.length }), true)
  | broken (file : Option (List UInt8)) (part : List UInt8) (isBytes : file.getD [] = log.bytes ++ part)
      (short : part.length < data.length) :
      Appends io log handle data (({ log with file }.mark "write_error" (io.mark "write_error"),
        { handle with size := handle.size + part.length, stopped := true }), false)

theorem appends_loop {turns : Nat} (enough : view.length ≤ turns) :
    Appends io log handle view (LogHandle.appendLoop io turns log handle view) := by
  induction turns generalizing log handle view with
  | zero =>
    obtain rfl := List.length_eq_zero_iff.mp (Nat.le_zero.mp enough)
    exact .stored log.file (by simp [TaskLog.bytes])
  | succ turns ih =>
    rw [LogHandle.appendLoop]
    split
    · rename_i empty
      subst empty
      exact .stored log.file (by simp [TaskLog.bytes])
    · rename_i more
      have broken : Appends io log handle view ((log.mark "write_error" (io.mark "write_error"),
          { handle with stopped := true }), false) :=
        .broken log.file [] (by simp [TaskLog.bytes]) (List.length_pos_iff.mpr more)
      split
      · exact broken
      · exact broken
      · rename_i size positive taken
        have within := io.within _ _ taken
        have progress : 0 < size := Nat.pos_of_ne_zero positive
        have length : (view.take size).length = size := List.length_take_of_le within
        have shorter : (view.drop size).length ≤ turns := by
          rw [List.length_drop]
          omega
        have rest := @ih (log.extend (view.take size)) { handle with size := handle.size + size }
          (view.drop size) shorter
        generalize LogHandle.appendLoop io turns _ _ _ = result at rest
        cases rest with
        | stored file isBytes =>
          have total : handle.size + size + (view.drop size).length = handle.size + view.length := by
            rw [List.length_drop]
            omega
          rw [total]
          refine .stored file ?_
          rw [isBytes, bytes_extend, List.append_assoc, List.take_append_drop]
        | broken file part isBytes short =>
          have total : handle.size + size + part.length = handle.size +
            (view.take size ++ part).length := by
            rw [List.length_append, length]
            omega
          rw [total]
          refine .broken file (view.take size ++ part) ?_ ?_
          · rw [isBytes, bytes_extend, List.append_assoc]
          · rw [List.length_append, length]
            rw [List.length_drop] at short
            omega

theorem appends (log : TaskLog) (handle : LogHandle) (data : List UInt8) :
    Appends io log handle data (handle.append io log data) := appends_loop le_rfl

/-- No call fails. -/
structure WriteIO.Sound (io : WriteIO) : Prop where
  free : io.free.isSome
  accepts : ∀ n, 0 < n → ∃ size, io.accepts n = some size ∧ 0 < size
  mark : ∀ reason, io.mark reason = .written

theorem appendLoop_stored {turns : Nat} (sound : io.Sound) :
    (LogHandle.appendLoop io turns log handle view).2 = true := by
  induction turns generalizing log handle view with
  | zero => rfl
  | succ turns ih =>
    rw [LogHandle.appendLoop]
    split
    · rfl
    · rename_i more
      obtain ⟨size, taken, progress⟩ := sound.accepts view.length (List.length_pos_iff.mpr more)
      rw [taken]
      split
      · contradiction
      · rename_i same
        cases same
        exact absurd progress (Nat.lt_irrefl 0)
      · exact ih

/-- Without failures an append stores everything. -/
theorem append_sound (sound : io.Sound) (log : TaskLog) (handle : LogHandle) (data : List UInt8) :
    ∃ file, file.getD [] = log.bytes ++ data ∧
      handle.append io log data =
      (({ log with file }, { handle with size := handle.size + data.length }), true) := by
  have stored : (handle.append io log data).2 = true := appendLoop_stored sound
  have spec := @appends io log handle data
  generalize handle.append io log data = result at stored spec
  cases spec with
  | stored file isBytes => exact ⟨file, isBytes, rfl⟩
  | broken => cases stored

end Append

section Limit
variable {m : Nat} {a b : Archive} {act : ArchiveAct} {handle : LogHandle} {io : WriteIO}
  {data : List UInt8}

/-- The writer has seen every byte of the log, or there is room for the data whatever it has seen. -/
def UpToDate (m : Nat) (log : TaskLog) (handle : LogHandle) (data : List UInt8) : Prop :=
  handle.stopped = true ∨ handle.size = log.size ∨ log.size + data.length ≤ m - outputLimitMarker.length

/-- All writers have the same limit, no call fails, and no writer decides over the limit by a count that
other writers have outdated. -/
def Coordinated (m : Nat) (a : Archive) : ArchiveAct → Prop
  | .start maxBytes _ io => maxBytes = m ∧ io.create = .written ∧ io.mark = .written
  | .write n data io => io.Sound ∧ ∀ handle, a.writers[n]? = some handle → UpToDate m a.log handle data
  | .close _ => True

/-- The log has its marker and every writer that would still write has an outdated count. -/
structure Sealed (m : Nat) (a : Archive) : Prop where
  full : a.log.size = m
  once : a.log.markers = 1
  outdated : ∀ handle ∈ a.writers, handle.stopped = false → handle.size < m

/-- What every run of coordinated writers keeps. -/
structure Bounded (m : Nat) (a : Archive) : Prop where
  writers : ∀ handle ∈ a.writers, handle.maxBytes = m ∧ outputLimitMarker.length < m ∧
    handle.size ≤ a.log.size
  room : a.log.size ≤ m - outputLimitMarker.length ∧ a.log.markers = 0 ∨ Sealed m a

theorem marker_nonempty : 0 < outputLimitMarker.length := by decide +kernel

/-- What a write whose calls succeed does to the sizes. -/
inductive Grows (m : Nat) (log : TaskLog) (handle : LogHandle) : TaskLog × LogHandle → Prop where
  | same {after : TaskLog} {next : LogHandle} (size : after.size = log.size)
      (markers : after.markers = log.markers)
      (limit : next.maxBytes = handle.maxBytes) (count : next.size = handle.size)
      (stopped : handle.stopped = true → next.stopped = true) : Grows m log handle (after, next)
  | stored {after : TaskLog} {next : LogHandle} (n : Nat) (running : handle.stopped = false)
      (size : after.size = log.size + n) (room : after.size ≤ m - outputLimitMarker.length)
      (markers : after.markers = log.markers) (limit : next.maxBytes = handle.maxBytes)
      (count : next.size = handle.size + n) : Grows m log handle (after, next)
  | cut {after : TaskLog} {next : LogHandle} (running : handle.stopped = false)
      (current : handle.size = log.size)
      (size : log.size ≤ m - outputLimitMarker.length → after.size = m)
        (markers : after.markers = log.markers + 1)
      (limit : next.maxBytes = handle.maxBytes) (count : next.size ≤ after.size)
        (stopped : next.stopped = true) :
      Grows m log handle (after, next)

theorem size_of_bytes {log : TaskLog} {file : Option (List UInt8)} {bytes : List UInt8}
    (isBytes : file.getD [] = bytes) :
    ({ log with file } : TaskLog).size = bytes.length := congrArg List.length isBytes

/-- When a writer takes its data in which way. -/
inductive Takes (handle : LogHandle) (free : Option Nat) (data : List UInt8) : Intake → Prop where
  | ignored (idle : data = [] ∨ handle.stopped = true) : Takes handle free data .ignored
  | unchecked (checks : handle.checks data = true ∧ handle.keepFreeBytes ≠ 0) (raised : free = none) :
      Takes handle free data .unchecked
  | reserve (running : handle.stopped = false) (some_data : data ≠ []) : Takes handle free data .reserve
  | whole (running : handle.stopped = false)
      (fits : handle.maxBytes = 0 ∨ handle.size + data.length ≤ handle.payloadLimit) :
      Takes handle free data .whole
  | cut (running : handle.stopped = false) (limited : handle.maxBytes ≠ 0)
      (exceeds : handle.payloadLimit < handle.size + data.length) :
      Takes handle free data (.cut (handle.payloadLimit - handle.size))

theorem takes_fit {free : Option Nat} (running : handle.stopped = false) :
    Takes handle free data (handle.fit data) := by
  unfold LogHandle.fit
  split
  · rename_i fits
    exact .whole running fits
  · rename_i exceeds
    rw [not_or, Nat.not_le] at exceeds
    exact .cut running exceeds.1 exceeds.2

theorem takes_intake (handle : LogHandle) (free : Option Nat) (data : List UInt8) :
    Takes handle free data (handle.intake free data) := by
  unfold LogHandle.intake
  split
  · rename_i idle
    exact .ignored idle
  · rename_i busy
    rw [not_or, Bool.not_eq_true] at busy
    split
    · rename_i checks
      cases free with
      | none => exact .unchecked checks rfl
      | some free =>
        dsimp only
        split
        · exact .reserve busy.2 busy.1
        · exact takes_fit busy.2
    · exact takes_fit busy.2

/-- The end of a log whose calls succeed: what still fits, and the marker. -/
theorem cut_stores (sound : io.Sound) (log : TaskLog) {remaining : Nat}
    (enough : remaining ≤ data.length) :
    ∃ file, file.getD [] = log.bytes ++ data.take remaining ++ outputLimitMarker ∧
      handle.cut io log data remaining =
        ({ log.mark "file_limit" .written with
            file
            markers := log.markers + 1 },
          { handle with
            stopped := true
            size := handle.size + remaining + outputLimitMarker.length }) := by
  unfold LogHandle.cut
  dsimp only
  rw [sound.mark]
  have marked : (log.mark "file_limit" .written).bytes = log.bytes := mark_bytes
  have markers : (log.mark "file_limit" .written).markers = log.markers := mark_markers
  generalize log.mark "file_limit" .written = marked' at marked markers
  rw [← markers, ← marked]
  by_cases none_left : remaining = 0
  · subst none_left
    rw [if_pos rfl, if_pos rfl, List.take_zero, List.append_nil]
    dsimp only
    obtain ⟨file, isBytes, same⟩ := append_sound sound { marked' with markers := marked'.markers + 1 }
      { handle with stopped := true } outputLimitMarker
    rw [same]
    exact ⟨file, isBytes, rfl⟩
  · rw [if_neg none_left]
    obtain ⟨filled, isFilled, first⟩ :=
      append_sound sound marked' { handle with stopped := true } (data.take remaining)
    rw [first, if_pos rfl]
    dsimp only
    obtain ⟨file, isBytes, same⟩ := append_sound sound
      { marked' with
        file := filled
        markers := marked'.markers + 1 }
      { handle with
        stopped := true
        size := handle.size + (data.take remaining).length } outputLimitMarker
    have length : (data.take remaining).length = remaining := List.length_take_of_le enough
    rw [same, length]
    refine ⟨file, ?_, rfl⟩
    rw [isBytes, ← isFilled]
    rfl

theorem cut_sound (sound : io.Sound) (log : TaskLog) {remaining : Nat}
    (enough : remaining ≤ data.length) :
    (handle.cut io log data remaining).1.size = log.size + remaining + outputLimitMarker.length ∧
    (handle.cut io log data remaining).1.markers = log.markers + 1 ∧
    (handle.cut io log data remaining).2 = { handle with
      stopped := true
      size := handle.size + remaining + outputLimitMarker.length } := by
  obtain ⟨file, isBytes, same⟩ := @cut_stores handle io data sound log remaining enough
  rw [same]
  refine ⟨?_, rfl, rfl⟩
  have size := @size_of_bytes (log.mark "file_limit" .written) file _ isBytes
  rw [List.length_append, List.length_append, List.length_take_of_le enough] at size
  exact size

theorem grows_write (sound : io.Sound) (limit : handle.maxBytes = m)
    (accepted : outputLimitMarker.length < m)
    (log : TaskLog) (behind : handle.size ≤ log.size) (current : UpToDate m log handle data) :
    Grows m log handle (handle.write io log data) := by
  have payload : handle.payloadLimit = m - outputLimitMarker.length := by
    rw [LogHandle.payloadLimit, limit]
  unfold LogHandle.write
  dsimp only
  have takes := takes_intake handle io.free data
  generalize handle.intake io.free data = intake at takes
  cases takes with
  | ignored idle => exact .same rfl rfl rfl rfl (fun stopped => stopped)
  | unchecked _ raised =>
    have free := sound.free
    rw [raised] at free
    cases free
  | reserve running =>
    refine .same ?_ mark_markers rfl rfl (fun _ => rfl)
    exact congrArg List.length mark_bytes
  | whole running fits =>
    have small : handle.size + data.length ≤ m - outputLimitMarker.length := by
      obtain unlimited | small := fits
      · omega
      · omega
    have room : log.size + data.length ≤ m - outputLimitMarker.length := by
      obtain stopped | same | room := current
      · rw [running] at stopped
        cases stopped
      · omega
      · exact room
    obtain ⟨file, isBytes, same⟩ :=
      append_sound sound { log with passed := log.passed ++ data } (handle.counted data) data
    rw [same]
    have size := (@size_of_bytes { log with passed := log.passed ++ data } _ _ isBytes).trans
      List.length_append
    exact .stored data.length running size (size.trans_le room) rfl rfl rfl
  | cut running limited exceeds =>
    have same : handle.size = log.size := by
      obtain stopped | same | room := current
      · rw [running] at stopped
        cases stopped
      · exact same
      · omega
    obtain ⟨size, markers, next⟩ := @cut_sound (handle.counted data) io data sound
      { log with passed := log.passed ++ data } (handle.payloadLimit - handle.size) (by omega)
    change Grows m log handle
      ((handle.counted data).cut io { log with passed := log.passed ++ data } data
      (handle.payloadLimit - handle.size))
    generalize (handle.counted data).cut io { log with passed := log.passed ++ data } data
      (handle.payloadLimit - handle.size) = result at size markers next ⊢
    obtain ⟨after, last⟩ := result
    dsimp only at size markers next
    have start : ({ log with passed := log.passed ++ data } : TaskLog).size = log.size := rfl
    have count : (handle.counted data).size = handle.size := rfl
    rw [start] at size
    subst next
    refine .cut running same (fun room => ?_) markers rfl ?_ rfl
    · omega
    · dsimp only
      rw [count]
      omega

/-- What opening a writer does, apart from the record. -/
structure Opens (maxBytes : Nat) (log after : TaskLog) (writer : Option LogHandle) : Prop where
  bytes : after.bytes = log.bytes
  markers : after.markers = log.markers
  passed : after.passed = log.passed
  writer : ∀ handle, writer = some handle → handle.maxBytes = maxBytes ∧ handle.size = log.size ∧
    (maxBytes ≠ 0 → outputLimitMarker.length < maxBytes) ∧
      (maxBytes ≠ 0 → maxBytes ≤ log.size → handle.stopped = true)

/-- The record that a writer finds or creates. -/
def KeepsRecord (log : TaskLog) (record : IntegrityRecord) : Prop :=
  log.record = some record ∨ log.record = none ∧ record = LogHandle.firstRecord log.size

/-- How opening a writer ends. -/
inductive Opening (log : TaskLog) (maxBytes keepFreeBytes : Nat) (io : OpenIO) :
    TaskLog × Option LogHandle → Prop where
  | refused : Opening log maxBytes keepFreeBytes io (log, none)
  | failed (missing : log.record = none) (record : Option IntegrityRecord)
      (left : ∀ kept, record = some kept → kept = LogHandle.firstRecord log.size ∨
        kept.claims = false) :
      Opening log maxBytes keepFreeBytes io ({ log.extend [] with record }, none)
  | full (accepted : maxBytes ≠ 0 → outputLimitMarker.length < maxBytes) (record : IntegrityRecord)
      (keeps : KeepsRecord log record)
      (limited : maxBytes ≠ 0) (reached : maxBytes ≤ log.size) :
      Opening log maxBytes keepFreeBytes io
        (({ log.extend [] with record := some record } : TaskLog).mark "file_limit" io.mark,
          some ⟨maxBytes, keepFreeBytes, log.size, true, 1048576, false⟩)
  | live (accepted : maxBytes ≠ 0 → outputLimitMarker.length < maxBytes) (record : IntegrityRecord)
      (keeps : KeepsRecord log record)
      (room : maxBytes ≠ 0 → log.size < maxBytes) (stopped : Bool)
      (isStopped : stopped =
        (({ log.extend [] with record := some record } : TaskLog).outputIntegrity.reason).any
        (fun reason => reason ∈ ["file_limit", "disk_reserve", "write_error"])) :
      Opening log maxBytes keepFreeBytes io
        ({ log.extend [] with record := some record },
          some ⟨maxBytes, keepFreeBytes, log.size, stopped, 1048576, false⟩)

theorem opening_opened (log : TaskLog) (maxBytes keepFreeBytes : Nat) (io : OpenIO) :
    Opening log maxBytes keepFreeBytes io (LogHandle.opened log maxBytes keepFreeBytes io) := by
  unfold LogHandle.opened
  split
  · exact .refused
  · rename_i large
    have accepted : maxBytes ≠ 0 → outputLimitMarker.length < maxBytes := fun limited => by
      by_contra small
      exact large ⟨limited, Nat.not_lt.mp small⟩
    dsimp only
    split
    · rename_i left missing _
      refine .failed missing _ (fun kept same => .inr ?_)
      obtain ⟨torn, _, rfl⟩ := Option.map_eq_some_iff.mp same
      exact torn.property
    · rename_i missing _
      refine .failed missing _ (fun kept same => .inl ?_)
      cases same
      rfl
    · rename_i missing _
      split
      · rename_i full
        exact .full accepted (LogHandle.firstRecord log.size) (.inr ⟨missing, rfl⟩) full.1 full.2
      · rename_i below
        exact .live accepted (LogHandle.firstRecord log.size) (.inr ⟨missing, rfl⟩)
          (fun limited => Nat.not_le.mp (fun reached => below ⟨limited, reached⟩)) _ rfl
    · rename_i record isRecord
      have same : log.extend [] = ({ log.extend [] with record := some record } : TaskLog) := by
        rw [← isRecord]
        rfl
      rw [same]
      split
      · rename_i full
        exact .full accepted record (.inl isRecord) full.1 full.2
      · rename_i below
        exact .live accepted record (.inl isRecord)
          (fun limited => Nat.not_le.mp (fun reached => below ⟨limited, reached⟩)) _ rfl

theorem opens_opened (log : TaskLog) (maxBytes keepFreeBytes : Nat) (io : OpenIO) :
    Opens maxBytes log (LogHandle.opened log maxBytes keepFreeBytes io).1
      (LogHandle.opened log maxBytes keepFreeBytes io).2 := by
  have extended : (log.extend []).bytes = log.bytes := List.append_nil _
  have opening := opening_opened log maxBytes keepFreeBytes io
  generalize LogHandle.opened log maxBytes keepFreeBytes io = result at opening
  cases opening with
  | refused => exact ⟨rfl, rfl, rfl, by simp⟩
  | failed => exact ⟨extended, rfl, rfl, by simp⟩
  | full accepted =>
    refine ⟨mark_bytes.trans extended, mark_markers, mark_passed, fun handle same => ?_⟩
    cases same
    exact ⟨rfl, rfl, accepted, fun _ _ => rfl⟩
  | live accepted record keeps room =>
    refine ⟨extended, rfl, rfl, fun handle same => ?_⟩
    cases same
    exact ⟨rfl, rfl, accepted, fun limited full => absurd (room limited) (Nat.not_lt.mpr full)⟩

theorem Bounded.start (bounded : Bounded m a) (keepFreeBytes : Nat) (io : OpenIO) (positive : 0 < m) :
    Bounded m ⟨(LogHandle.opened a.log m keepFreeBytes io).1,
      a.writers ++ (LogHandle.opened a.log m keepFreeBytes io).2.toList⟩ := by
  have opens := opens_opened a.log m keepFreeBytes io
  generalize LogHandle.opened a.log m keepFreeBytes io = result at opens ⊢
  obtain ⟨after, writer⟩ := result
  have size : after.size = a.log.size := congrArg List.length opens.bytes
  have limited : m ≠ 0 := Nat.ne_of_gt positive
  constructor
  · intro handle member
    dsimp only at member ⊢
    rw [size]
    obtain old | new := List.mem_append.mp member
    · exact bounded.writers handle old
    · obtain ⟨isMax, isSize, large, _⟩ := opens.writer handle (Option.mem_toList.mp new)
      exact ⟨isMax, large limited, isSize.le⟩
  · obtain ⟨room, none_yet⟩ | full := bounded.room
    · exact .inl ⟨size.trans_le room, opens.markers.trans none_yet⟩
    · refine .inr ⟨size.trans full.full, opens.markers.trans full.once, fun handle member running => ?_⟩
      obtain old | new := List.mem_append.mp member
      · exact full.outdated handle old running
      -- a writer opened on a full log is stopped
      · obtain ⟨_, _, _, stops⟩ := opens.writer handle (Option.mem_toList.mp new)
        rw [stops limited full.full.ge] at running
        cases running

theorem Bounded.write (bounded : Bounded m a) {n : Nat} {next : LogHandle} {after : TaskLog}
    (isHandle : a.writers[n]? = some handle)
    (grows : Grows m a.log handle (after, next)) :
    Bounded m ⟨after, a.writers.set n next⟩ := by
  have member := List.mem_of_getElem? isHandle
  obtain ⟨isMax, large, behind⟩ := bounded.writers handle member
  have others : ∀ {other : LogHandle}, other ∈ a.writers.set n next → other ∈ a.writers ∨
    other = next := fun listed =>
    List.mem_or_eq_of_mem_set listed
  cases grows with
  | same size markers limit count stopped =>
    constructor
    · intro other listed
      dsimp only at listed ⊢
      rw [size]
      obtain old | rfl := others listed
      · exact bounded.writers other old
      · exact ⟨limit.trans isMax, large, count.trans_le behind⟩
    · obtain ⟨room, none_yet⟩ | full := bounded.room
      · exact .inl ⟨size.trans_le room, markers.trans none_yet⟩
      · refine .inr ⟨size.trans full.full, markers.trans full.once, fun other listed running => ?_⟩
        obtain old | rfl := others listed
        · exact full.outdated other old running
        · rw [count]
          refine full.outdated handle member ?_
          cases was : handle.stopped with
          | false => rfl
          | true =>
            rw [stopped was] at running
            cases running
  | stored n running size room markers limit count =>
    constructor
    · intro other listed
      dsimp only at listed ⊢
      obtain old | rfl := others listed
      · obtain ⟨otherMax, _, otherBehind⟩ := bounded.writers other old
        exact ⟨otherMax, large, by omega⟩
      · exact ⟨limit.trans isMax, large, by omega⟩
    · obtain ⟨_, none_yet⟩ | full := bounded.room
      · exact .inl ⟨room, markers.trans none_yet⟩
      · have isFull := full.full
        have positive := marker_nonempty
        omega
  | cut running same size markers limit count stopped =>
    have room : a.log.size ≤ m - outputLimitMarker.length := by
      obtain ⟨room, _⟩ | full := bounded.room
      · exact room
      · have outdated := full.outdated handle member running
        have isFull := full.full
        omega
    have isFull := size room
    have positive := marker_nonempty
    constructor
    · intro other listed
      dsimp only at listed ⊢
      obtain old | rfl := others listed
      · obtain ⟨otherMax, _, otherBehind⟩ := bounded.writers other old
        exact ⟨otherMax, large, by omega⟩
      · exact ⟨limit.trans isMax, large, count⟩
    · obtain ⟨_, none_yet⟩ | full := bounded.room
      · refine .inr ⟨isFull, by rw [markers, none_yet], fun other listed still => ?_⟩
        obtain old | rfl := others listed
        · obtain ⟨_, _, otherBehind⟩ := bounded.writers other old
          omega
        · rw [stopped] at still
          cases still
      · have outdated := full.outdated handle member running
        have wasFull := full.full
        omega

theorem Bounded.step (bounded : Bounded m a) (positive : 0 < m) (coordinated : Coordinated m a act)
    (stepped : a.step act = some b) :
    Bounded m b := by
  cases act with
  | start maxBytes keepFreeBytes io =>
    cases stepped
    obtain ⟨rfl, _⟩ := coordinated
    exact bounded.start keepFreeBytes io positive
  | write n data io =>
    obtain ⟨handle, isHandle, rest⟩ := Option.bind_eq_some_iff.mp stepped
    split at rest
    · cases rest
    · cases rest
      have current := coordinated.2 handle isHandle
      obtain ⟨isMax, large, behind⟩ := bounded.writers handle (List.mem_of_getElem? isHandle)
      exact bounded.write isHandle (grows_write coordinated.1 isMax large a.log behind current)
  | close n =>
    obtain ⟨handle, isHandle, rfl⟩ := Option.map_eq_some_iff.mp stepped
    exact bounded.write isHandle (.same rfl rfl rfl rfl (fun stopped => stopped))

/-- The file of a log whose writers never decide over the limit by an outdated count stays within
the limit, and the marker is put into it once at most. -/
theorem limit_kept {acts : List ArchiveAct} (positive : 0 < m)
    (run : Run (Guarded ArchiveStep (Coordinated m)) .absent acts a) :
    a.log.size ≤ m ∧ a.log.markers ≤ 1 := by
  have bounded : Bounded m a := by
    refine run.invariant (fun bounded stepped => bounded.step positive stepped.2 stepped.1) ?_
    constructor
    · intro handle member
      cases member
    · exact .inl ⟨Nat.zero_le _, rfl⟩
  obtain ⟨room, none_yet⟩ | full := bounded.room
  · exact ⟨room.trans (Nat.sub_le _ _), none_yet.trans_le (Nat.zero_le _)⟩
  · exact ⟨full.full.le, full.once.le⟩

/-- Answers without failures. -/
def WriteIO.plain : WriteIO where
  free := some 0
  accepts n := some n
  within n size same := by
    cases same
    exact le_rfl
  mark _ := .written

theorem plain_sound : WriteIO.plain.Sound where
  free := rfl
  accepts n positive := ⟨n, rfl, positive⟩
  mark _ := rfl

def OpenIO.plain : OpenIO := ⟨.written, .written⟩

/-- Without failures a writer is opened, or one of them writes. -/
def plainAct (m : Nat) : Option (Nat × List UInt8) → ArchiveAct
  | none => .start m 0 .plain
  | some (n, data) => .write n data .plain

def plainCoordinated (m : Nat) (a : Archive) : Option (Nat × List UInt8) → Bool
  | none => true
  | some (n, data) => a.writers[n]?.all (fun handle => handle.stopped ||
      decide (handle.size = a.log.size) ||
      decide (a.log.size + data.length ≤ m - outputLimitMarker.length))

theorem plainAct_coordinated (a : Archive) (l : Option (Nat × List UInt8))
    (passes : plainCoordinated m a l = true) :
    Coordinated m a (plainAct m l) := by
  cases l with
  | none => exact ⟨rfl, rfl, rfl⟩
  | some write =>
    obtain ⟨n, data⟩ := write
    refine ⟨plain_sound, fun handle isHandle => ?_⟩
    rw [plainCoordinated, isHandle] at passes
    simpa [UpToDate, or_assoc] using passes

/-- Two writers take turns while there is room, and a third one that has counted the bytes of both
fills the log. -/
theorem limit_kept_one : ∃ acts a, Run (Guarded ArchiveStep (Coordinated 100)) .absent acts a ∧
    a.writers.length = 3 ∧ a.log.markers = 1 ∧ a.log.size ≤ 100 ∧ a.log.markers ≤ 1 := by
  have evaluated : (replay (fun a l => a.step (plainAct 100 l)) (plainCoordinated 100) .absent
      [none, none, some (1, [1, 2]), some (0, [3]), some (1, [4]), none, some (2, List.replicate 60 5),
        some (2, [6])]).any (fun a => a.writers.length = 3 && a.log.markers = 1) = true := by
    decide +kernel
  obtain ⟨a, ran, both⟩ := Option.any_eq_true _ _ |>.mp evaluated
  obtain ⟨open_writers, full⟩ := Bool.and_eq_true _ _ |>.mp both
  have run : Run (Guarded ArchiveStep (Coordinated 100)) .absent _ a :=
    (replay_run plainAct_coordinated ran).map (plainAct 100) (fun step => step)
  exact ⟨_, a, run, of_decide_eq_true open_writers, of_decide_eq_true full, limit_kept (by decide) run⟩

/-- The launcher's writer is open while the supervisor's fills the log. -/
theorem stale_count_exceeds : ∃ a, Run ArchiveStep .absent [.start 80 0 .plain, .start 80 0 .plain,
    .write 1 [1, 2, 3, 4, 5, 6, 7, 8, 9, 10, 11] .plain, .write 0 [12] .plain] a ∧
      ¬ a.log.size ≤ 80 := by
  have evaluated : (replay Archive.step (fun _ _ => true) .absent
    [.start 80 0 .plain, .start 80 0 .plain,
      .write 1 [1, 2, 3, 4, 5, 6, 7, 8, 9, 10, 11] .plain, .write 0 [12] .plain]).any
        (fun a => 80 < a.log.size) = true := by
    decide +kernel
  obtain ⟨a, ran, exceeds⟩ := Option.any_eq_true _ _ |>.mp evaluated
  have run := replay_run (fun _ _ _ => trivial) ran
  exact ⟨a, run.unguarded, Nat.not_le.mpr (of_decide_eq_true exceeds)⟩

end Limit

section View
variable {log : TaskLog} {handle : LogHandle} {io : WriteIO} {free : Nat}

/-- The writer that has the log for itself. -/
def LogHandle.view (handle : LogHandle) (log : TaskLog) : BoundedLogWriter :=
  ⟨handle.maxBytes, handle.keepFreeBytes, log.bytes, handle.size, log.outputIntegrity.reason,
    handle.stopped,
    handle.bytesSinceSpaceCheck⟩

/-- The file and its record are there, as they are once a writer has been opened. -/
structure TaskLog.Recorded (log : TaskLog) : Prop where
  file : log.file.isSome
  record : log.record.isSome

theorem mark_written (recorded : log.Recorded) (reason : String) :
    log.mark reason .written = { log with record := some (.health (some false) (some reason)) } := by
  obtain ⟨record, isRecord⟩ := Option.isSome_iff_exists.mp recorded.record
  simp [TaskLog.mark, isRecord]

theorem TaskLog.Recorded.mark (recorded : log.Recorded) (reason : String) :
    (log.mark reason .written).Recorded := by
  rw [mark_written recorded]
  exact ⟨recorded.file, rfl⟩

theorem view_mark (recorded : log.Recorded) (reason : String) :
    LogHandle.view { handle with stopped := true } (log.mark reason .written) =
    (handle.view log).markIncomplete reason := by
  obtain ⟨bytes, isFile⟩ := Option.isSome_iff_exists.mp recorded.file
  rw [mark_written recorded]
  simp [LogHandle.view, BoundedLogWriter.markIncomplete, TaskLog.outputIntegrity, TaskLog.bytes, isFile]

theorem view_extend (recorded : log.Recorded) (data : List UInt8) (size : Nat) :
    LogHandle.view { handle with size } (log.extend data) =
      { handle.view log with
        file := log.bytes ++ data
        size } := by
  obtain ⟨bytes, isFile⟩ := Option.isSome_iff_exists.mp recorded.file
  obtain ⟨record, isRecord⟩ := Option.isSome_iff_exists.mp recorded.record
  have reason : (log.extend data).outputIntegrity.reason = log.outputIntegrity.reason := by
    cases record <;> simp [TaskLog.outputIntegrity, TaskLog.extend, isFile, isRecord]
  rw [LogHandle.view, reason]
  rfl

/-- What the two loops of `_append` leave. -/
theorem view_loop (written : ∀ reason, io.mark reason = .written) (recorded : log.Recorded)
    (turns : Nat) (view : List UInt8) :
    let result := LogHandle.appendLoop io turns log handle view
    result.1.1.Recorded ∧
      (result.1.2.view result.1.1, result.2) = BoundedLogWriter.appendLoop ⟨free, io.accepts⟩ turns
        (handle.view log) view := by
  induction turns generalizing log handle view with
  | zero => exact ⟨recorded, rfl⟩
  | succ turns ih =>
    rw [LogHandle.appendLoop, BoundedLogWriter.appendLoop]
    by_cases empty : view = []
    · rw [if_pos empty, if_pos empty]
      exact ⟨recorded, rfl⟩
    · rw [if_neg empty, if_neg empty]
      cases taken : io.accepts view.length with
      | none =>
        simp only [taken, written]
        exact ⟨recorded.mark _, congrArg (·, false) (view_mark recorded _)⟩
      | some size =>
        cases size with
        | zero =>
          simp only [taken, written]
          exact ⟨recorded.mark _, congrArg (·, false) (view_mark recorded _)⟩
        | succ size =>
          have extended : (log.extend (view.take (size + 1))).Recorded := ⟨rfl, recorded.record⟩
          have rest := @ih (log.extend (view.take (size + 1)))
            { handle with size := handle.size + (size + 1) } extended
            (view.drop (size + 1))
          rw [view_extend recorded] at rest
          simp only [taken]
          exact rest

end View

end LocalFlow
