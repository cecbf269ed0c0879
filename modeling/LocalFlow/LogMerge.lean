import LocalFlow.Archive
import LocalFlow.LogVerdict
import LocalFlow.Library.Decoding
import LocalFlow.Library.Foremost
import Mathlib.Algebra.GroupWithZero.Nat
import Mathlib.Data.Set.List

/-! The verdict on several result logs. Every file is decoded piece by piece while it is read, and
the most severe status of one file is the status of all. -/
namespace LocalFlow
namespace Results
open Utf8

/-- What tells two states of a file apart. -/
structure LogStat where
  device : Nat
  inode : Nat
  size : Nat
  mtimeNs : Nat
  deriving DecidableEq

/-- What the file system answers while a result log is scanned. -/
structure LogScan where
  health : OutputIntegrity
  before : Except String LogStat
  read : Nat → Nat → List UInt8
  after : LogStat
  current : Except String LogStat

namespace LogScan
variable (scan : LogScan)

/-- The pieces of `chunks`, and the exception that ends them. -/
def pieces (path : String) (place remaining : Nat) : List (List UInt8) × Except String Unit :=
  if remaining = 0 then ([], pure ())
  else if scan.read place (min 65536 remaining) = [] then
    ([], throw ("result log was shortened during evaluation: " ++ path))
  else
    let raw := scan.read place (min 65536 remaining)
    let (pieces, ended) := pieces path (place + raw.length) (remaining - raw.length)
    (raw :: pieces, ended)
  termination_by remaining
  decreasing_by
    have := List.length_pos_iff.mpr (by assumption)
    omega

end LogScan

/-- The text of the pieces. What waits in the decoder is given out only if the pieces end. -/
def chunks (pieces : List (List UInt8) × Except String Unit) : List (List Char) × Except String Unit :=
  let texts := decodePieces id (fun _ => ['\uFFFD']) [] pieces.1
  match pieces.2 with
  | .ok () => (texts, pure ())
  | .error error => (texts.dropLast, throw error)

/-- `evaluate_vcs_chunks` on chunks that an exception may end. -/
def evaluateVcsStream (chunks : List (List Char) × Except String Unit) :
    Except String (VcsStatus × Nat) := do
  let scan ← chunks.1.foldlM VcsScan.consumeChunk .start
  chunks.2
  let scan ← scan.consume [] true
  let summary ← scan.summary.feed [] true
  VcsScan.result { scan with summary }

/-- One turn of the loop of `evaluate_vcs_logs`, without the merge. -/
def evaluateVcsLog (path : String) (scan : LogScan) : Except String (VcsStatus × Nat) := do
  if scan.health.complete = some false ∨ scan.health.reason = some "metadata_unreadable" then
    throw ("result log is incomplete: " ++ path)
  let before ← scan.before
  if before.size = 0 then throw ("result log is empty: " ++ path)
  let result ← evaluateVcsStream (chunks (scan.pieces path 0 before.size))
  let current ← scan.current
  if before ≠ scan.after ∨ before ≠ current then
    throw ("result log changed during evaluation: " ++ path)
  pure result

def VcsStatus.severity : VcsStatus → Nat
  | .passed => 0
  | .error => 1
  | .fatal => 2

/-- As `severity` ranks them. -/
instance : LinearOrder VcsStatus :=
  LinearOrder.lift' VcsStatus.severity (fun s t => by cases s <;> cases t <;> decide)

/-- How a file's verdict changes the result. -/
def merge (result current : VcsStatus × Nat) : VcsStatus × Nat :=
  if result.1.severity < current.1.severity then current
  else if current.1 = result.1 then (result.1, result.2 + current.2)
  else result

def evaluateVcsLogs (scans : List (String × LogScan)) : Except String (VcsStatus × Nat) :=
  scans.foldlM (fun result scan => do
    let current ← evaluateVcsLog scan.1 scan.2
    pure (merge result current)) (.passed, 0)

section Unchanging

/-- A result log that nothing changes. `refused` is the exception that opening it raises. -/
structure ResultLog where
  log : TaskLog
  device : Nat
  inode : Nat
  mtimeNs : Nat
  refused : Option String

namespace ResultLog
variable (file : ResultLog)

def stat : LogStat := ⟨file.device, file.inode, file.log.size, file.mtimeNs⟩

/-- The whole content. -/
def text : List Char := replaced file.log.bytes

/-- The verdict on the whole content of a file that can be trusted. -/
def verdict (path : String) : Except String (VcsStatus × Nat) :=
  if file.log.outputIntegrity.complete = some false ∨
      file.log.outputIntegrity.reason = some "metadata_unreadable" then
    throw ("result log is incomplete: " ++ path)
  else
    match file.refused with
    | some error => throw error
    | none =>
      if file.log.bytes = [] then throw ("result log is empty: " ++ path)
      else Results.verdict file.text

/-- The answers of the file system when nothing changes the file. A read may end anywhere. -/
structure Answered (scan : LogScan) : Prop where
  health : scan.health = file.log.outputIntegrity
  before : scan.before = match file.refused with
    | some error => .error error
    | none => .ok file.stat
  reads : ∀ place count, place < file.log.size → 0 < count → ∃ n, 0 < n ∧ n ≤ count ∧
    scan.read place count = (file.log.bytes.drop place).take n
  after : scan.after = file.stat
  current : scan.current = .ok file.stat

end ResultLog

variable {file : ResultLog} {scan : LogScan} {path : String} {place : Nat}

/-- The pieces of a file that nothing changes are its content. -/
theorem pieces_flatten (answered : file.Answered scan) (within : place ≤ file.log.size) :
    ∃ pieces, scan.pieces path place (file.log.size - place) = (pieces, .ok ()) ∧
      pieces.flatten = file.log.bytes.drop place := by
  induction remaining : file.log.size - place using Nat.strongRecOn generalizing place with
  | ind remaining ih =>
    subst remaining
    rw [LogScan.pieces]
    split
    · next done =>
      refine ⟨[], rfl, ?_⟩
      rw [List.drop_eq_nil_of_le (by rw [TaskLog.size] at done within; omega)]
      rfl
    · next left =>
      obtain ⟨n, positive, few, isRead⟩ :=
        answered.reads place (min 65536 (file.log.size - place)) (by omega) (by omega)
      have size : (scan.read place (min 65536 (file.log.size - place))).length = n := by
        rw [isRead, List.length_take, List.length_drop, ← TaskLog.size]
        omega
      obtain ⟨pieces, rest, whole⟩ := ih (file.log.size - (place + n)) (by omega) (by omega) rfl
      rw [if_neg (fun none => by rw [none, List.length_nil] at size; omega)]
      dsimp only
      rw [size, Nat.sub_sub, rest]
      refine ⟨_, rfl, ?_⟩
      rw [List.flatten_cons, whole, isRead, ← List.drop_drop, List.take_append_drop]

/-- Decoding in pieces and scanning in chunks, the verdict is that on the whole content. -/
theorem evaluateVcsLog_eq (answered : file.Answered scan) (runs : DigitRuns file.text) :
    evaluateVcsLog path scan = file.verdict path := by
  unfold evaluateVcsLog ResultLog.verdict
  rw [answered.health]
  by_cases incomplete : file.log.outputIntegrity.complete = some false ∨
      file.log.outputIntegrity.reason = some "metadata_unreadable"
  · rw [if_pos incomplete, if_pos incomplete]
    rfl
  · rw [if_neg incomplete, if_neg incomplete, answered.before]
    cases file.refused with
    | some error => rfl
    | none =>
      obtain ⟨pieces, isPieces, whole⟩ := @pieces_flatten file scan path 0 answered (Nat.zero_le _)
      have flat : (decodePieces id (fun _ => ['\uFFFD']) [] pieces).flatten = file.text := by
        rw [decodePieces_flatten, List.nil_append, whole, List.drop_zero]
        rfl
      have judged := evaluateVcsChunks_eq (decodePieces id (fun _ => ['\uFFFD']) [] pieces)
        (flat ▸ runs)
      rw [flat] at judged
      have streamed : evaluateVcsStream (chunks (scan.pieces path 0 file.stat.size)) =
        Results.verdict file.text := by
        change evaluateVcsStream (chunks (scan.pieces path 0 (file.log.size - 0))) = _
        rw [isPieces]
        exact judged
      by_cases empty : file.log.bytes = []
      · simp only [bind, Except.bind, ResultLog.stat, TaskLog.size, empty, List.length_nil, if_true]
        rfl
      · have full : ¬ file.stat.size = 0 := by
          simp only [ResultLog.stat, TaskLog.size, List.length_eq_zero_iff, empty, not_false_iff]
        simp only [bind, Except.bind, pure, Except.pure, full, empty, streamed, answered.current,
          answered.after, if_false,
          ne_eq, not_true, or_self]
        cases Results.verdict file.text <;> rfl

/-- A declared log, what is read of it, and that nothing changes it meanwhile. -/
structure UnchangedLog where
  path : String
  file : ResultLog
  scan : LogScan
  answered : file.Answered scan
  runs : DigitRuns file.text

namespace UnchangedLog
variable (log : UnchangedLog)

def entry : String × LogScan := (log.path, log.scan)

def verdict : Except String (VcsStatus × Nat) := log.file.verdict log.path

/-- What a log adds to the count of a status. -/
def countAt (status : VcsStatus) : Nat :=
  match log.verdict with
  | .ok result => Foremost.valueAt status result
  | .error _ => 0

end UnchangedLog

theorem merge_join (result current : VcsStatus × Nat) :
    merge result current = Foremost.join result current := by
  simp only [merge, Foremost.join]
  congr

variable {logs others : List UnchangedLog} {result : VcsStatus × Nat}

theorem evaluateVcsLogs_iff : evaluateVcsLogs (logs.map UnchangedLog.entry) = .ok result ↔
    ∃ verdicts : List (VcsStatus × Nat), logs.map UnchangedLog.verdict = verdicts.map .ok ∧
      verdicts.foldl Foremost.join (.passed, 0) = result := by
  rw [evaluateVcsLogs, List.foldlM_map, ← Foremost.foldlM_ok_iff]
  simp only [UnchangedLog.entry, evaluateVcsLog_eq (UnchangedLog.answered _) (UnchangedLog.runs _),
    merge_join]
  rfl

theorem verdicts_iff :
    (∃ verdicts : List (VcsStatus × Nat), logs.map UnchangedLog.verdict = verdicts.map .ok) ↔
    ∀ log ∈ logs, ∃ verdict, log.verdict = .ok verdict := by
  have range := Set.ext_iff.mp (Set.range_list_map (Except.ok (ε := String) (α := VcsStatus × Nat)))
    (logs.map UnchangedLog.verdict)
  simpa only [Set.mem_range, Set.mem_ofPred_eq, List.forall_mem_map, eq_comm] using range

theorem sum_valueAt {verdicts : List (VcsStatus × Nat)}
    (each : logs.map UnchangedLog.verdict = verdicts.map .ok)
    (status : VcsStatus) :
    (verdicts.map (Foremost.valueAt status)).sum = (logs.map (UnchangedLog.countAt · status)).sum := by
  have counts : logs.map (UnchangedLog.countAt · status) =
      (logs.map UnchangedLog.verdict).map
        (Except.casesOn · (fun _ => 0) (Foremost.valueAt status)) := by
    rw [List.map_map]
    refine List.map_congr_left (fun log _ => ?_)
    simp only [UnchangedLog.countAt, Function.comp_apply]
    cases log.verdict <;> rfl
  rw [counts, each, List.map_map]
  rfl

/-- Every log must have a verdict. The result is the most severe status with the sum of its counts,
and the order of the logs does not matter. -/
theorem evaluateVcsLogs_perm (same : logs.Perm others) :
    ((∃ result, evaluateVcsLogs (logs.map UnchangedLog.entry) = .ok result) ↔
      ∀ log ∈ logs, ∃ verdict, log.verdict = .ok verdict) ∧
    ∀ status count, evaluateVcsLogs (logs.map UnchangedLog.entry) = .ok (status, count) →
      evaluateVcsLogs (others.map UnchangedLog.entry) = .ok (status, count) ∧
      (∀ log ∈ logs, ∀ verdict, log.verdict = .ok verdict → verdict.1 ≤ status) ∧
      (status = .passed ∨ ∃ log ∈ logs, ∃ count, log.verdict = .ok (status, count)) ∧
      count = (logs.map (UnchangedLog.countAt · status)).sum := by
  refine ⟨?_, fun status count merged => ?_⟩
  · simp only [evaluateVcsLogs_iff, ← verdicts_iff]
    constructor
    · rintro ⟨_, verdicts, each, -⟩
      exact ⟨verdicts, each⟩
    · rintro ⟨verdicts, each⟩
      exact ⟨_, verdicts, each, rfl⟩
  · obtain ⟨verdicts, each, folded⟩ := evaluateVcsLogs_iff.mp merged
    have listed : ∀ log ∈ logs, ∀ verdict, log.verdict = .ok verdict → verdict ∈ verdicts := by
      intro log member verdict isVerdict
      have found := List.mem_map_of_mem (f := UnchangedLog.verdict) member
      rw [each, isVerdict] at found
      simpa using found
    refine ⟨?_, fun log member verdict isVerdict => ?_, ?_, ?_⟩
    · obtain ⟨changed, each'⟩ :=
        verdicts_iff.mpr (fun log member =>
        verdicts_iff.mp ⟨verdicts, each⟩ log (same.mem_iff.mpr member))
      have moved := (same.map UnchangedLog.verdict).symm
      rw [each, each', List.map_perm_map_iff (fun _ _ => Except.ok.inj)] at moved
      exact evaluateVcsLogs_iff.mpr ⟨changed, each', (Foremost.foldl_join_perm moved _).trans folded⟩
    · have below := (Foremost.foldl_join_le (.passed, 0) verdicts).2 verdict
        (listed log member verdict isVerdict)
      rw [folded] at below
      exact below
    · obtain start | ⟨verdict, member, isStatus⟩ := Foremost.foldl_join_mem (.passed, 0) verdicts
      · rw [folded] at start
        exact .inl start
      · right
        rw [folded] at isStatus
        have found := List.mem_map_of_mem (f := Except.ok (ε := String)) member
        rw [← each] at found
        obtain ⟨log, inside, isVerdict⟩ := List.mem_map.mp found
        exact ⟨log, inside, verdict.2, isVerdict.trans (congrArg Except.ok (Prod.ext isStatus rfl))⟩
    · have sum := Foremost.foldl_join_sum (.passed, 0) verdicts
        (le_refl (verdicts.foldl Foremost.join (.passed, 0)).1)
      rw [folded, sum_valueAt each] at sum
      simpa [Foremost.valueAt] using sum

/-- A file that is read at once whenever it is asked. -/
def ResultLog.quiet (file : ResultLog) : LogScan where
  health := file.log.outputIntegrity
  before := match file.refused with
    | some error => .error error
    | none => .ok file.stat
  read place count := (file.log.bytes.drop place).take count
  after := file.stat
  current := .ok file.stat

theorem quiet_answered (file : ResultLog) : file.Answered file.quiet :=
  ⟨rfl, rfl, fun _ count _ positive => ⟨count, positive, le_rfl, rfl⟩, rfl, rfl⟩

/-- `Error-`, as bytes. -/
def errorLine : List UInt8 := [0x45, 0x72, 0x72, 0x6F, 0x72, 0x2D]

def errorFile (bytes : List UInt8) : ResultLog :=
  ⟨⟨some bytes, some (.health (some true) none), [], 0⟩, 1, 1, 1, none⟩

/-- The second line is not ended, and a character in it is cut. -/
def twoErrors : UnchangedLog where
  path := "a.log"
  file := errorFile (errorLine ++ 0x0A :: errorLine ++ [0xE2])
  scan := (errorFile (errorLine ++ 0x0A :: errorLine ++ [0xE2])).quiet
  answered := quiet_answered _
  runs := digitRuns_short (by decide)

def oneError : UnchangedLog where
  path := "b.log"
  file := errorFile errorLine
  scan := (errorFile errorLine).quiet
  answered := quiet_answered _
  runs := digitRuns_short (by decide)

theorem evaluateVcsLogs_two :
    evaluateVcsLogs ([oneError, twoErrors].map UnchangedLog.entry) = .ok (.error, 3) := by
  have found : [twoErrors, oneError].map UnchangedLog.verdict =
    [(.error, 2), (.error, 1)].map .ok := by rfl
  exact ((evaluateVcsLogs_perm (.swap oneError twoErrors [])).2 .error 3
    (evaluateVcsLogs_iff.mpr ⟨_, found, by decide⟩)).1

end Unchanging

end Results
end LocalFlow
