import LocalFlow.LogFiles
import LocalFlow.Library.Run

/-! The supervisor of one task under systemd: it owns the terminal of the task, stores what is
printed, and takes input and window sizes from a datagram socket. -/
namespace LocalFlow
open Transition

/-- Who sends terminal input. -/
inductive InputRoute where
  | http | websocket | controlKey | stopAction

/-- The payload sizes a route accepts. -/
def InputRoute.accepts : InputRoute → Nat → Bool
  | .http, size => 1 ≤ size && size ≤ 65536
  | .websocket, size => size ≤ 65536
  | .controlKey, size => size = 1
  | .stopAction, size => size ≤ 4096

def ascii (text : String) : List UInt8 := text.toList.map (fun c => UInt8.ofNat c.toNat)

/-- `SystemdExecutor.write`: the payload behind an `I`. -/
def inputMessage (data : List UInt8) : List UInt8 := 73 :: data

/-- `SystemdExecutor.resize`. -/
def resizeMessage (rows cols : Nat) : List UInt8 :=
  82 :: (ascii (toString rows) ++ 44 :: ascii (toString cols))

/-- `int` of decimal digits, the only numbers the controller sends. -/
def readNumber : List UInt8 → Option Nat
  | [] => none
  | digits => digits.foldl (fun value digit => value.bind (fun value =>
      if 48 ≤ digit ∧ digit ≤ 57 then some (value * 10 + (digit.toNat - 48)) else none)) (some 0)

/-- The window size in a message; `none` raises. -/
def readSize (message : List UInt8) : Option (Nat × Nat) := do
  let rows ← readNumber (message.takeWhile (· ≠ 44))
  let cols ← readNumber ((message.dropWhile (· ≠ 44)).drop 1)
  if rows < 65536 ∧ cols < 65536 then some (rows, cols) else none

/-- What `select` reports. -/
inductive Source where
  | terminal | control
  deriving DecidableEq

inductive SupervisePoint where
  | selecting
  | handling (ready : List Source)
  | returned (code : Int)
  | raised

/-- `exited` is the status of the task's process, `printed` what is in the terminal and not read yet,
`control` the messages in the socket, `typed` what was written to the terminal. -/
structure Supervisor where
  exited : Option Int
  printed : List UInt8
  control : List (List UInt8)
  window : Option (Nat × Nat)
  typed : List UInt8
  log : BoundedLogWriter
  point : SupervisePoint

inductive SuperviseAct where
  | print (bytes : List UInt8)
  | exit (code : Int)
  | input (route : InputRoute) (data : List UInt8)
  | resize (rows cols : Nat)
  | select (ready : List Source)
  | receive
  | read (count : Nat) (disk : Disk)
  | poll (now : String) (disk : Disk)

/-- `lifecycle_line("process.exited", …)` at some instant. -/
def exitedLine (now : String) (code : Int) : List UInt8 :=
  ascii ("[LocalFlow " ++ now ++ "] process.exited exit_code=" ++ toString code ++ "\n")

/-- The most one read of the terminal or of the socket returns. -/
def chunkSize : Nat := 65536

namespace Supervisor

/-- The loop is entered with everything written to the log so far. -/
def start (log : BoundedLogWriter) : Supervisor where
  exited := none
  printed := []
  control := []
  window := none
  typed := []
  log
  point := .selecting

/-- One datagram; what does not fit into the buffer is cut off. -/
def receive (s : Supervisor) (rest : List Source) (message : List UInt8) : Supervisor :=
  match message.take chunkSize with
  | 73 :: data => { s with typed := s.typed ++ data, point := .handling rest }
  | 82 :: size =>
    match readSize size with
    | some window => { s with window := some window, point := .handling rest }
    | none => { s with point := .raised }
  | _ => { s with point := .handling rest }

/-- `none` when the act is not possible. Messages are sent as long as the socket is bound. -/
def step (s : Supervisor) : SuperviseAct → Option Supervisor
  | .print bytes => if s.exited = none then some { s with printed := s.printed ++ bytes } else none
  | .exit code => if s.exited = none then some { s with exited := some code } else none
  | .input route data =>
    match s.point with
    | .returned _ | .raised => none
    | _ => if route.accepts data.length then
        some { s with control := s.control ++ [inputMessage data] } else none
  | .resize rows cols =>
    match s.point with
    | .returned _ | .raised => none
    | _ => if (2 ≤ rows ∧ rows ≤ 1000) ∧ 2 ≤ cols ∧ cols ≤ 1000 then
        some { s with control := s.control ++ [resizeMessage rows cols] } else none
  | .select ready =>
    match s.point with
    | .selecting =>
      if ready.Nodup ∧ (.control ∈ ready → s.control ≠ []) ∧
        (.terminal ∈ ready → s.printed ≠ [] ∨ s.exited ≠ none) then
        some { s with point := .handling ready } else none
    | _ => none
  | .receive =>
    match s.point, s.control with
    | .handling (.control :: rest), message :: waiting =>
      some ({ s with control := waiting }.receive rest message)
    | _, _ => none
  | .read count disk =>
    match s.point with
    | .handling (.terminal :: rest) =>
      -- at the end of the terminal the read raises, or returns nothing
      if count ≤ chunkSize ∧ count ≤ s.printed.length ∧ (count = 0 → s.printed = []) then
        some { s with
          printed := s.printed.drop count
          log := s.log.write disk (s.printed.take count)
          point := .handling rest }
      else none
    | _ => none
  | .poll now disk =>
    match s.point, s.exited with
    | .handling [], none => some { s with point := .selecting }
    | .handling [], some code => some { s with
        log := s.log.write disk (exitedLine now code)
        point := .returned code }
    | _, _ => none

def Step (s : Supervisor) (act : SuperviseAct) (t : Supervisor) : Prop := s.step act = some t

end Supervisor

namespace SuperviseAct

/-- What the process prints. -/
def printed : List SuperviseAct → List UInt8
  | [] => []
  | .print bytes :: rest => bytes ++ printed rest
  | _ :: rest => printed rest

/-- How much the reads of the terminal take. -/
def taken : List SuperviseAct → Nat
  | [] => 0
  | .read count _ :: rest => count + taken rest
  | _ :: rest => taken rest

/-- The accepted payloads. -/
def inputs : List SuperviseAct → List (List UInt8)
  | [] => []
  | .input _ data :: rest => data :: inputs rest
  | _ :: rest => inputs rest

variable (act : SuperviseAct) (rest : List SuperviseAct)

theorem printed_cons : printed (act :: rest) = printed [act] ++ printed rest := by
  cases act <;> simp [printed]

theorem taken_cons : taken (act :: rest) = taken [act] + taken rest := by
  cases act <;> simp [taken]

theorem inputs_cons : inputs (act :: rest) = inputs [act] ++ inputs rest := by
  cases act <;> simp [inputs]

end SuperviseAct

namespace Supervisor
variable {s t : Supervisor} {act : SuperviseAct} {acts : List SuperviseAct}

/-- Everything one step can do. -/
inductive Stepped (s : Supervisor) : SuperviseAct → Supervisor → Prop where
  | print (bytes : List UInt8) (alive : s.exited = none) : Stepped s (.print bytes)
      { s with printed := s.printed ++ bytes }
  | exit (code : Int) (alive : s.exited = none) : Stepped s (.exit code) { s with exited := some code }
  | input (route : InputRoute) (data : List UInt8) (bound : ∀ code, s.point ≠ .returned code)
      (accepted : route.accepts data.length = true) :
      Stepped s (.input route data) { s with control := s.control ++ [inputMessage data] }
  | resize (rows cols : Nat) (bound : ∀ code, s.point ≠ .returned code)
      (range : (2 ≤ rows ∧ rows ≤ 1000) ∧ 2 ≤ cols ∧ cols ≤ 1000) :
      Stepped s (.resize rows cols) { s with control := s.control ++ [resizeMessage rows cols] }
  | select (ready : List Source) (idle : s.point = .selecting) : Stepped s (.select ready)
      { s with point := .handling ready }
  | receive (rest : List Source) (message : List UInt8) (waiting : List (List UInt8))
      (isPoint : s.point = .handling (.control :: rest)) (isControl : s.control = message :: waiting) :
      Stepped s .receive ({ s with control := waiting }.receive rest message)
  | read (rest : List Source) (count : Nat) (disk : Disk)
      (isPoint : s.point = .handling (.terminal :: rest))
      (chunk : count ≤ chunkSize) (within : count ≤ s.printed.length) :
      Stepped s (.read count disk) { s with
        printed := s.printed.drop count
        log := s.log.write disk (s.printed.take count)
        point := .handling rest }
  | alive (now : String) (disk : Disk) (isPoint : s.point = .handling []) (alive : s.exited = none) :
      Stepped s (.poll now disk) { s with point := .selecting }
  | reap (now : String) (disk : Disk) (code : Int) (isPoint : s.point = .handling [])
      (exited : s.exited = some code) :
      Stepped s (.poll now disk)
        { s with log := s.log.write disk (exitedLine now code), point := .returned code }

theorem step_cases (step : s.Step act t) : Stepped s act t := by
  unfold Step Supervisor.step at step
  split at step
  · split at step <;> cases step
    exact .print _ ‹_›
  · split at step <;> cases step
    exact .exit _ ‹_›
  · split at step
    · cases step
    · cases step
    · rename_i open_ _
      split at step <;> cases step
      exact .input _ _ open_ ‹_›
  · split at step
    · cases step
    · cases step
    · rename_i open_ _
      split at step <;> cases step
      exact .resize _ _ open_ ‹_›
  · split at step
    · split at step <;> cases step
      exact .select _ ‹_›
    · cases step
  · split at step <;> cases step
    exact .receive _ _ _ ‹_› ‹_›
  · split at step
    · rename_i isPoint
      split at step <;> cases step
      rename_i fits
      exact .read _ _ _ isPoint fits.1 fits.2.1
    · cases step
  · split at step <;> cases step
    · exact .alive _ _ ‹_› ‹_›
    · exact .reap _ _ _ ‹_› ‹_›

theorem receive_log (s : Supervisor) (rest : List Source) (message : List UInt8) :
    (s.receive rest message).log = s.log ∧ (s.receive rest message).printed = s.printed ∧
      (s.receive rest message).exited = s.exited := by
  unfold receive
  split
  · exact ⟨rfl, rfl, rfl⟩
  · split <;> exact ⟨rfl, rfl, rfl⟩
  · exact ⟨rfl, rfl, rfl⟩

theorem receive_returns (s : Supervisor) (rest : List Source) (message : List UInt8) (code : Int) :
    (s.receive rest message).point ≠ .returned code := by
  unfold receive
  split
  · exact SupervisePoint.noConfusion
  · split <;> exact SupervisePoint.noConfusion
  · exact SupervisePoint.noConfusion

/-- Only an exit is reported. -/
def Reports (s : Supervisor) : Prop := ∀ code, s.point = .returned code → s.exited ≠ none

theorem reports_step (reports : s.Reports) (step : s.Step act t) : t.Reports := by
  intro code returned
  cases step_cases step with
  | print bytes alive => exact absurd alive (reports code returned)
  | exit code alive => exact Option.some_ne_none _
  | input route data bound => exact reports code returned
  | resize rows cols bound => exact reports code returned
  | select ready idle => cases returned
  | receive rest message waiting => exact absurd returned (receive_returns _ rest message code)
  | read rest count disk => cases returned
  | alive now disk => cases returned
  | reap now disk code' isPoint exited =>
    rw [exited]
    exact Option.some_ne_none _

/-- A supervisor that has returned does nothing more. -/
theorem not_returned (reports : s.Reports) (step : s.Step act t) (code : Int) :
    s.point ≠ .returned code := by
  intro returned
  have exited := reports code returned
  cases step_cases step with
  | print bytes alive => exact exited alive
  | exit code alive => exact exited alive
  | input route data bound => exact bound code returned
  | resize rows cols bound => exact bound code returned
  | select ready idle => rw [returned] at idle; cases idle
  | receive rest message waiting isPoint => rw [returned] at isPoint; cases isPoint
  | read rest count disk isPoint => rw [returned] at isPoint; cases isPoint
  | alive now disk isPoint => rw [returned] at isPoint; cases isPoint
  | reap now disk code' isPoint => rw [returned] at isPoint; cases isPoint

/-- The log is written without a failure and without reaching the disk reserve. -/
def Stores (s : Supervisor) : SuperviseAct → Prop
  | .read _ disk | .poll _ disk => s.log.Sound disk
  | _ => True

/-- Until the exit is reported, what was printed is in the log, in order, or still in the terminal. -/
theorem capture_step (unlimited : s.log.Unlimited) (step : Guarded Step Stores s act t)
    (running : ∀ code, t.point ≠ .returned code) : t.log.Unlimited ∧
      t.log.file ++ t.printed = s.log.file ++ (s.printed ++ SuperviseAct.printed [act]) ∧
      SuperviseAct.taken [act] + t.printed.length = s.printed.length +
      (SuperviseAct.printed [act]).length := by
  obtain ⟨stepped, stores⟩ := step
  cases step_cases stepped with
  | print bytes alive => simp [SuperviseAct.printed, SuperviseAct.taken, unlimited]
  | exit code alive => simp [SuperviseAct.printed, SuperviseAct.taken, unlimited]
  | input route data bound => simp [SuperviseAct.printed, SuperviseAct.taken, unlimited]
  | resize rows cols bound => simp [SuperviseAct.printed, SuperviseAct.taken, unlimited]
  | select ready idle => simp [SuperviseAct.printed, SuperviseAct.taken, unlimited]
  | receive rest message waiting =>
    obtain ⟨log, printed, _⟩ := receive_log { s with control := waiting } rest message
    rw [log, printed]
    simp [SuperviseAct.printed, SuperviseAct.taken, unlimited]
  | read rest count disk isPoint chunk within =>
    obtain ⟨file, still, _⟩ := BoundedLogWriter.write_unlimited unlimited stores (s.printed.take count)
    refine ⟨still, ?_, ?_⟩
    · simp [SuperviseAct.printed, file, List.append_assoc]
    · simp only [SuperviseAct.printed, SuperviseAct.taken, List.length_drop, List.length_nil]
      omega
  | alive now disk => simp [SuperviseAct.printed, SuperviseAct.taken, unlimited]
  | reap now disk code => exact absurd rfl (running code)

theorem capture_run (unlimited : s.log.Unlimited) (reports : s.Reports)
    (run : Run (Guarded Step Stores) s acts t)
    (running : ∀ code, t.point ≠ .returned code) : t.log.Unlimited ∧
      t.log.file ++ t.printed = s.log.file ++ (s.printed ++ SuperviseAct.printed acts) ∧
      SuperviseAct.taken acts + t.printed.length = s.printed.length +
      (SuperviseAct.printed acts).length := by
  induction run with
  | nil s => simp [SuperviseAct.printed, SuperviseAct.taken, unlimited]
  | @cons s act m acts t head tail ih =>
    have later := reports_step reports head.1
    have going : ∀ code, m.point ≠ .returned code := by
      cases tail with
      | nil => exact running
      | cons next _ => exact not_returned later next.1
    obtain ⟨still, file, count⟩ := capture_step unlimited head going
    obtain ⟨final, files, counts⟩ := ih still later running
    rw [SuperviseAct.printed_cons, SuperviseAct.taken_cons, List.length_append]
    refine ⟨final, ?_, by omega⟩
    rw [files, ← List.append_assoc, file]
    simp only [List.append_assoc]

/-- The turn that reaps the exit reports it behind what the log holds then. That is everything the
process printed exactly when the reads so far, one of a limited size in a turn, have taken as much
as was printed; nothing is read from the terminal once the exit is reaped. -/
theorem captured_iff {log : BoundedLogWriter} {now : String} {disk : Disk} {code : Int}
    (unlimited : log.Unlimited)
    (run : Run (Guarded Step Stores) (start log) acts s)
    (reaps : Guarded Step Stores s (.poll now disk) t)
    (exited : s.exited = some code) :
    t.point = .returned code ∧ t.log.file = s.log.file ++ exitedLine now code ∧
      (s.log.file = log.file ++ SuperviseAct.printed acts ↔
        SuperviseAct.taken acts = (SuperviseAct.printed acts).length) := by
  have reports : (start log).Reports := fun _ returned => nomatch returned
  have kept : s.Reports :=
    run.invariant (P := Reports) (fun before step => reports_step before step.1) reports
  obtain ⟨still, file, count⟩ := capture_run unlimited reports run (not_returned kept reaps.1)
  have empty : (start log).printed = [] := rfl
  rw [empty, List.nil_append] at file
  rw [empty, List.length_nil, Nat.zero_add] at count
  have captured : s.log.file = log.file ++ SuperviseAct.printed acts ↔
      SuperviseAct.taken acts = (SuperviseAct.printed acts).length := by
    have whole : s.log.file ++ s.printed = log.file ++ SuperviseAct.printed acts := file
    rw [← whole]
    constructor
    · intro same
      have nothing : s.printed = [] := by simpa using same
      rw [nothing, List.length_nil] at count
      omega
    · intro same
      have nothing : s.printed = [] := List.length_eq_zero_iff.mp (by omega)
      rw [nothing, List.append_nil]
  obtain ⟨stepped, stores⟩ := reaps
  cases step_cases stepped with
  | alive _ _ _ alive =>
    rw [alive] at exited
    cases exited
  | reap _ _ code' isPoint known =>
    rw [exited] at known
    cases known
    exact ⟨rfl, (BoundedLogWriter.write_unlimited still stores _).1, captured⟩

/-- A new log on a disk that takes everything. -/
def emptyLog : BoundedLogWriter := ⟨0, 0, [], 0, none, false, 1048576⟩

def roomy : Disk := ⟨1, some⟩

theorem roomy_sound (writer : BoundedLogWriter) (unreserved : writer.keepFreeBytes = 0) :
    writer.Sound roomy :=
  ⟨fun reserve => absurd unreserved reserve, fun n positive => ⟨n, rfl, positive, Nat.le_refl n⟩⟩

/-- One byte is printed and read before the process exits. -/
theorem captured_iff_byte : ∃ s t : Supervisor,
    Run (Guarded Step Stores) (start emptyLog) [.print [120], .select [.terminal], .read 1 roomy,
      .exit 0] s ∧
    t.point = .returned 0 ∧ s.log.file = [120] := by
  let s : Supervisor := { start emptyLog with
    exited := some 0, log := emptyLog.write roomy [120], point := .handling [] }
  have run : Run (Guarded Step Stores) (start emptyLog)
    [.print [120], .select [.terminal], .read 1 roomy, .exit 0] s :=
    .cons ⟨rfl, trivial⟩
      (.cons ⟨rfl, trivial⟩ (.cons ⟨rfl, roomy_sound _ rfl⟩ (.cons ⟨rfl, trivial⟩ (.nil s))))
  obtain ⟨returned, _, captured⟩ := captured_iff ⟨rfl, rfl⟩ run
    (⟨rfl, roomy_sound _ rfl⟩ : Guarded Step Stores s (.poll "2026" roomy) _) (rfl : s.exited = some 0)
  exact ⟨s, _, run, returned, captured.mpr rfl⟩

/-- The selector has timed out when the process prints a byte and exits: the exit is reaped without
another look at the terminal. -/
theorem late_output_lost : ∃ (acts : List SuperviseAct) (s t : Supervisor),
    Run (Guarded Step Stores) (start emptyLog) acts s ∧ Guarded Step Stores s (.poll "" roomy) t ∧
    s.exited = some 0 ∧ t.log.file = s.log.file ++ exitedLine "" 0 ∧
    s.log.file ≠ emptyLog.file ++ SuperviseAct.printed acts := by
  let s : Supervisor :=
    { start emptyLog with printed := [120], exited := some 0, point := .handling [] }
  have run : Run (Guarded Step Stores) (start emptyLog) [.select [], .print [120], .exit 0] s :=
    .cons ⟨rfl, trivial⟩ (.cons ⟨rfl, trivial⟩ (.cons ⟨rfl, trivial⟩ (.nil s)))
  have sound : s.log.Sound roomy := roomy_sound _ rfl
  have stored := (BoundedLogWriter.write_unlimited ⟨rfl, rfl⟩ sound (exitedLine "" 0)).1
  refine ⟨_, s, _, run, ⟨rfl, sound⟩, rfl, stored, ?_⟩
  decide

section Input

/-- The payloads of the input messages among some. -/
def payloads : List (List UInt8) → List (List UInt8)
  | [] => []
  | (73 :: data) :: rest => data :: payloads rest
  | _ :: rest => payloads rest

/-- The inputs in the socket. -/
def waiting (s : Supervisor) : List (List UInt8) := payloads s.control

theorem payloads_input (data : List UInt8) (rest : List (List UInt8)) :
    payloads (inputMessage data :: rest) = data :: payloads rest := rfl

theorem payloads_resize (rows cols : Nat) (rest : List (List UInt8)) :
    payloads (resizeMessage rows cols :: rest) = payloads rest := rfl

theorem payloads_append (messages later : List (List UInt8)) :
    payloads (messages ++ later) = payloads messages ++ payloads later := by
  induction messages using payloads.induct with
  | case1 => rfl
  | case2 data rest ih => simp [payloads, ih]
  | case3 message rest other ih =>
    rw [List.cons_append, payloads, payloads, ih] <;> exact other

theorem ascii_toString (n : Nat) :
    ascii (toString n) = (Nat.toDigits 10 n).map (fun c => UInt8.ofNat c.toNat) := by
  rw [ascii, ← Nat.toList_repr]
  rfl

/-- One decimal digit. -/
theorem digit_reads (digit : Fin 10) : (48 ≤ UInt8.ofNat digit.val.digitChar.toNat ∧
    UInt8.ofNat digit.val.digitChar.toNat ≤ 57) ∧
    (UInt8.ofNat digit.val.digitChar.toNat).toNat - 48 = digit.val ∧
    UInt8.ofNat digit.val.digitChar.toNat ≠ 44 := by
  revert digit
  decide

/-- The digits of a number are read back, and none of them is a comma. -/
theorem numeral_reads (n : Nat) :
    readNumber (ascii (toString n)) = some n ∧ (ascii (toString n)).all (· ≠ 44) := by
  have whole : ∀ digits : List UInt8, digits ≠ [] → readNumber digits = digits.foldl (fun value digit =>
      value.bind (fun value => if 48 ≤ digit ∧ digit ≤ 57 then
        some (value * 10 + (digit.toNat - 48)) else none))
      (some 0) := by
    intro digits some
    cases digits with
    | nil => exact absurd rfl some
    | cons digit digits => rfl
  have filled : ∀ n : Nat, ascii (toString n) ≠ [] := by
    intro n empty
    rw [ascii_toString, List.map_eq_nil_iff] at empty
    exact absurd (congrArg List.length empty) (Nat.ne_of_gt Nat.length_toDigits_pos)
  induction n using Nat.strongRecOn with
  | ind n ih =>
    rw [whole _ (filled n)]
    by_cases small : n < 10
    · obtain ⟨range, value, plain⟩ := digit_reads ⟨n, small⟩
      rw [ascii_toString, Nat.toDigits_of_lt_base small]
      simp only [List.map_cons, List.map_nil, List.foldl_cons, List.foldl_nil, Option.bind_some,
        if_pos range, value,
        List.all_cons, List.all_nil, decide_eq_true plain, Bool.and_self, and_true]
      exact congrArg some (by omega)
    · obtain ⟨range, value, plain⟩ := digit_reads ⟨n % 10, Nat.mod_lt _ (by decide)⟩
      have front := ih (n / 10) (by omega)
      rw [whole _ (filled _), ascii_toString] at front
      rw [ascii_toString, Nat.toDigits_of_base_le (by decide) (by omega), List.map_append,
        List.foldl_append, front.1,
        List.all_append, front.2]
      simp only [List.map_cons, List.map_nil, List.foldl_cons, List.foldl_nil, Option.bind_some,
        if_pos range, value,
        List.all_cons, List.all_nil, decide_eq_true plain, Bool.and_self, and_true]
      exact congrArg some (by omega)

theorem numeral_short {n : Nat} (small : n < 10000) : (ascii (toString n)).length ≤ 4 := by
  rw [ascii_toString, List.length_map]
  exact (Nat.length_toDigits_le_iff (by decide) (by decide)).mpr small

/-- The size in a message of the controller is read back. -/
theorem readSize_resize {rows cols : Nat} (range : (2 ≤ rows ∧ rows ≤ 1000) ∧ 2 ≤ cols ∧ cols ≤ 1000) :
    ∃ size, (resizeMessage rows cols).take chunkSize = 82 :: size ∧
      readSize size = some (rows, cols) := by
  have readsRows := (numeral_reads rows).1
  have readsCols := (numeral_reads cols).1
  have plainRows := (numeral_reads rows).2
  have shortRows : (ascii (toString rows)).length ≤ 4 := numeral_short (by omega)
  have shortCols : (ascii (toString cols)).length ≤ 4 := numeral_short (by omega)
  refine ⟨ascii (toString rows) ++ 44 :: ascii (toString cols), ?_, ?_⟩
  · have few : (ascii (toString rows)).length ≤ 4 ∧ (ascii (toString cols)).length ≤ 4 :=
      ⟨shortRows, shortCols⟩
    rw [List.take_of_length_le, resizeMessage]
    simp only [resizeMessage, List.length_cons, List.length_append, chunkSize]
    omega
  · have plain : ∀ digit ∈ ascii (toString rows), decide (digit ≠ 44) = true :=
      List.all_eq_true.mp plainRows
    have front : (ascii (toString rows) ++ 44 :: ascii (toString cols)).takeWhile (· ≠ 44) = ascii
      (toString rows) := by
      rw [List.takeWhile_append_of_pos plain, List.takeWhile_cons_of_neg (by decide), List.append_nil]
    have back : (ascii (toString rows) ++ 44 :: ascii (toString cols)).dropWhile (· ≠ 44) =
        44 :: ascii (toString cols) := by
      rw [List.dropWhile_append_of_pos plain, List.dropWhile_cons_of_neg (by decide)]
    rw [readSize, front, back, List.drop_one, List.tail_cons, readsRows, readsCols]
    simp only [Option.bind_eq_bind, Option.bind_some]
    rw [if_pos (by omega)]

/-- The controller sends input and window sizes only. -/
def Framed (s : Supervisor) : Prop :=
  ∀ message ∈ s.control, (∃ data, message = inputMessage data) ∨
    ∃ rows cols, message = resizeMessage rows cols ∧ (2 ≤ rows ∧ rows ≤ 1000) ∧ 2 ≤ cols ∧ cols ≤ 1000

/-- The payload of a message, as far as it fits into the buffer behind the framing byte. -/
def fitting (data : List UInt8) : List UInt8 := data.take (chunkSize - 1)

theorem receive_input (s : Supervisor) (rest : List Source) (data : List UInt8) :
    (s.receive rest (inputMessage data)).typed = s.typed ++ fitting data ∧
      (s.receive rest (inputMessage data)).control = s.control := ⟨rfl, rfl⟩

theorem receive_resize (s : Supervisor) (rest : List Source) {rows cols : Nat}
    (range : (2 ≤ rows ∧ rows ≤ 1000) ∧ 2 ≤ cols ∧ cols ≤ 1000) :
    (s.receive rest (resizeMessage rows cols)).typed = s.typed ∧
      (s.receive rest (resizeMessage rows cols)).control = s.control := by
  obtain ⟨size, message, reads⟩ := readSize_resize range
  simp [receive, message, reads]

/-- One step takes some of the waiting inputs, in order, and types what fits of them. -/
theorem input_step (framed : s.Framed) (step : s.Step act t) : t.Framed ∧ ∃ got,
    s.waiting ++ SuperviseAct.inputs [act] = got ++ t.waiting ∧ t.typed = s.typed ++
    (got.map fitting).flatten := by
  have still : ∀ u : Supervisor, u.control = s.control → u.typed = s.typed → u.Framed ∧ ∃ got,
      s.waiting ++ [] = got ++ u.waiting ∧ u.typed = s.typed ++ (got.map fitting).flatten := by
    intro u control typed
    refine ⟨?_, [], ?_, ?_⟩
    · rw [Framed, control]
      exact framed
    · simp [waiting, control]
    · simp [typed]
  cases step_cases step with
  | print bytes alive => exact still _ rfl rfl
  | exit code alive => exact still _ rfl rfl
  | input route data bound =>
    refine ⟨?_, [], ?_, by simp⟩
    · intro message member
      obtain old | new := List.mem_append.mp member
      · exact framed message old
      · exact .inl ⟨data, List.mem_singleton.mp new⟩
    · rw [waiting, waiting, payloads_append]
      rfl
  | resize rows cols bound range =>
    refine ⟨?_, [], ?_, by simp⟩
    · intro message member
      obtain old | new := List.mem_append.mp member
      · exact framed message old
      · exact .inr ⟨rows, cols, List.mem_singleton.mp new, range⟩
    · rw [waiting, waiting, payloads_append, payloads_resize]
      rfl
  | select ready idle => exact still _ rfl rfl
  | receive rest message later isPoint isControl =>
    have framedLater : ∀ other ∈ later, other ∈ s.control :=
      fun other member => isControl ▸ List.mem_cons_of_mem _ member
    obtain ⟨data, rfl⟩ | ⟨rows, cols, rfl, range⟩ := framed message (isControl ▸ List.mem_cons_self)
    · obtain ⟨typed, control⟩ := receive_input { s with control := later } rest data
      refine ⟨?_, [data], ?_, ?_⟩
      · rw [Framed, control]
        exact fun other member => framed other (framedLater other member)
      · rw [waiting, waiting, isControl, control, payloads_input]
        exact List.append_nil _
      · rw [typed]
        simp
    · obtain ⟨typed, control⟩ := receive_resize { s with control := later } rest range
      refine ⟨?_, [], ?_, ?_⟩
      · rw [Framed, control]
        exact fun other member => framed other (framedLater other member)
      · rw [waiting, waiting, isControl, control, payloads_resize]
        exact List.append_nil _
      · rw [typed]
        simp
  | read rest count disk => exact still _ rfl rfl
  | alive now disk => exact still _ rfl rfl
  | reap now disk code => exact still _ rfl rfl

theorem input_run (framed : s.Framed) (run : Run Step s acts t) : ∃ got,
    s.waiting ++ SuperviseAct.inputs acts = got ++ t.waiting ∧ t.typed = s.typed ++
    (got.map fitting).flatten := by
  induction run with
  | nil s => exact ⟨[], by simp [SuperviseAct.inputs], by simp⟩
  | cons head tail ih =>
    obtain ⟨later, first, taken, typed⟩ := input_step framed head
    obtain ⟨rest, more, typedMore⟩ := ih later
    refine ⟨first ++ rest, ?_, ?_⟩
    · rw [SuperviseAct.inputs_cons, ← List.append_assoc, taken, List.append_assoc, more,
        List.append_assoc]
    · rw [typedMore, typed, List.map_append, List.flatten_append, List.append_assoc]

theorem length_fitting (got : List (List UInt8)) :
    (got.map fitting).flatten.length ≤ got.flatten.length := by
  induction got with
  | nil => simp
  | cons data rest ih =>
    simp only [List.map_cons, List.flatten_cons, List.length_append, fitting, List.length_take] at ih ⊢
    omega

/-- Cut payloads make up the whole only when nothing is cut and nothing is missing. -/
theorem fitting_whole (got : List (List UInt8)) (missing : List UInt8) :
    (got.map fitting).flatten = got.flatten ++ missing ↔
      (∀ data ∈ got, data.length ≤ 65535) ∧ missing = [] := by
  induction got with
  | nil => simp
  | cons data rest ih =>
    rw [List.map_cons, List.flatten_cons, List.flatten_cons, List.append_assoc]
    by_cases small : data.length ≤ 65535
    · have whole : fitting data = data := List.take_of_length_le small
      rw [whole, List.append_cancel_left_eq, ih]
      simp [small]
    · have shorter := length_fitting rest
      have cut : (fitting data).length = 65535 :=
        List.length_take_of_le (Nat.le_of_lt (Nat.lt_of_not_le small))
      constructor
      · intro same
        have lengths := congrArg List.length same
        simp only [List.length_append, cut] at lengths
        omega
      · intro fits
        exact absurd (fits.1 data List.mem_cons_self) small

/-- In every run of a supervisor, what it has typed is exactly what was accepted, in order, when no
payload is longer than the buffer less the framing byte and none is left in the socket. -/
theorem input_delivered (log : BoundedLogWriter) (run : Run Step (start log) acts t) :
    t.typed = (SuperviseAct.inputs acts).flatten ↔
      (∀ data ∈ SuperviseAct.inputs acts, data.length ≤ 65535) ∧ t.waiting.flatten = [] := by
  have framed : (start log).Framed := fun message member => absurd member List.not_mem_nil
  obtain ⟨got, split, typed⟩ := input_run framed run
  have isInputs : SuperviseAct.inputs acts = got ++ t.waiting := split
  have isTyped : t.typed = (got.map fitting).flatten := typed
  rw [isInputs, isTyped, List.flatten_append, fitting_whole]
  constructor
  · intro ⟨small, done⟩
    refine ⟨fun data member => ?_, done⟩
    obtain received | left := List.mem_append.mp member
    · exact small data received
    · rw [List.flatten_eq_nil_iff.mp done data left]
      exact Nat.zero_le _
  · intro ⟨small, done⟩
    exact ⟨fun data member => small data (List.mem_append_left _ member), done⟩

theorem input_delivered_letter : ∃ t : Supervisor,
    Run Step (start emptyLog) [.input .http [120], .select [.control], .receive] t ∧
      t.typed = [120] := by
  let t : Supervisor := { start emptyLog with typed := [120], point := .handling [] }
  have run : Run Step (start emptyLog) [.input .http [120], .select [.control], .receive] t :=
    .cons rfl (.cons rfl (.cons rfl (.nil t)))
  refine ⟨t, run, (input_delivered emptyLog run).mpr ⟨by decide, rfl⟩⟩

/-- The largest payload a request may carry is accepted, and its last byte is cut off. -/
theorem last_byte_cut : ∃ (data : List UInt8) (t : Supervisor), data.length = 65536 ∧
    Run Step (start emptyLog) [.input .http data, .select [.control], .receive] t ∧ t.waiting = [] ∧
    t.typed ≠ data := by
  have long : (List.replicate 65536 (120 : UInt8)).length = 65536 := List.length_replicate
  generalize List.replicate 65536 (120 : UInt8) = data at long
  have accepted : InputRoute.accepts .http data.length = true := by rw [long]; rfl
  let sent : Supervisor := { start emptyLog with control := [inputMessage data] }
  let t : Supervisor := { start emptyLog with typed := fitting data, point := .handling [] }
  have send : (start emptyLog).Step (.input .http data) sent := by
    simp only [Step, Supervisor.step, start, accepted, if_true]
    rfl
  have run : Run Step (start emptyLog) [.input .http data, .select [.control], .receive] t :=
    .cons send (.cons rfl (.cons rfl (.nil t)))
  refine ⟨data, t, long, run, rfl, fun same => ?_⟩
  have lengths : (fitting data).length = data.length := congrArg List.length same
  rw [fitting, List.length_take, long] at lengths
  exact absurd lengths (by decide)

end Input

end Supervisor
end LocalFlow
