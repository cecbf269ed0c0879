import LocalFlow.Models
import Mathlib.Data.List.Basic
import Mathlib.Tactic.Common

/-! The terminal WebSocket: one loop reads the log, sends it in chunks, waits for acknowledgements and
answers control messages. -/
namespace LocalFlow

/-- What is at the path of `output.log`. -/
structure LogFile where
  bytes : List UInt8
  modified : String

/-- A message to the client. The data of an output go over the wire in base64. -/
inductive TerminalFrame where
  | output (data : List UInt8) (offset : Nat) (logUpdatedAt : Option String)
  | caughtUp (offset : Nat) (logUpdatedAt : Option String)
  | error (message : String)

/-- What `receive_json` comes to within a tenth of a second. A binary message ends the handler as a
disconnect does. -/
inductive Incoming where
  | json (value : Json)
  | malformed | disconnect | timeout

/-- What the conversion of the fields of a control message and the call of the service come to. -/
inductive ControlAnswer where
  | accepted | rejected | invalid | missing | failed
  deriving DecidableEq

inductive TerminalEvent where
  | sent (frame : TerminalFrame)
  | received (incoming : Incoming)

inductive TerminalPoint where
  | turning | receiving | closed
  deriving DecidableEq

/-- The variables of the handler, the log it reads, and everything sent and received so far. -/
structure Terminal where
  isAdmin : Bool
  endOffset : Option Nat
  offset : Nat
  awaitingAck : Bool := false
  caughtUp : Bool := false
  point : TerminalPoint := .turning
  log : Option LogFile
  trace : List TerminalEvent := []

inductive TerminalAct where
  | append (bytes : List UInt8) (modified : String)
  | turn (shutdown stored : Bool)
  | receive (incoming : Incoming) (answer : ControlAnswer)
  | drop

/-- `read_log`. -/
def readLog (log : Option LogFile) (offset limit : Nat) : List UInt8 × Nat :=
  match log with
  | none => ([], offset)
  | some file =>
    let data := (file.bytes.drop offset).take (min (max limit 1) 1048576)
    (data, offset + data.length)

namespace Terminal

/-- The handler as it enters its loop. The offsets are those of the query, where the end is at least the
start, or with `window=rows` those of `terminal_window`. -/
def opened (isAdmin : Bool) (start : Nat) (endOffset : Option Nat) (log : Option LogFile) :
    Terminal where
  isAdmin
  endOffset
  offset := start
  log

variable (s : Terminal)

def close : Terminal := { s with point := .closed }

def send (frame : TerminalFrame) : Terminal := { s with trace := s.trace ++ [.sent frame] }

def logUpdatedAt : Option String := s.log.map LogFile.modified

/-- The log is read when no chunk is outstanding and the window is not complete. -/
def reads : Bool := !s.awaitingAck && s.endOffset.all (fun last => s.offset < last)

def limit : Nat := s.endOffset.elim 65536 (fun last => min 65536 (last - s.offset))

/-- The chunk a turn finds, and the offset after it. -/
def found : List UInt8 × Nat := if s.reads then readLog s.log s.offset s.limit else ([], s.offset)

/-- One turn of the loop up to the next message. `stored` is false when `get_task` raises. -/
def turn (shutdown stored : Bool) : Terminal :=
  if shutdown || (s.reads && !stored) then s.close
  else
    let (data, offset) := s.found
    let read := { s with offset, point := .receiving }
    if data ≠ [] then { read.send (.output data offset s.logUpdatedAt) with awaitingAck := true }
    else if s.caughtUp then read
    else { read.send (.caughtUp offset s.logUpdatedAt) with caughtUp := true }

def again : Terminal := { s with point := .turning }

def reply (message : String) : Terminal := (s.send (.error message)).again

def invalid : Terminal := s.reply "invalid terminal message"

/-- What follows a control message of an administrator. -/
def answered (answer : ControlAnswer) (rejection : String) : Terminal :=
  match answer with
  | .accepted => s.again
  | .rejected => s.reply rejection
  | .invalid => s.invalid
  | .missing | .failed => s.close

def control (type : Json) (answer : ControlAnswer) : Terminal :=
  match type with
  | .str "input" => if s.isAdmin then s.answered answer "terminal input rejected"
      else s.reply "read-only terminal"
  | .str "resize" => if s.isAdmin then s.answered answer "terminal resize rejected"
      else s.reply "read-only terminal"
  | .str "ack" => { s.again with awaitingAck := false }
  -- a list or an object cannot be looked up in a set
  | .arr _ | .obj _ => s.invalid
  | _ => s.again

/-- `message.get("type")`, `none` when the message has no fields. -/
def messageType : Json → Option Json
  | .obj fields => some ((Json.get? fields "type").getD .null)
  | _ => none

def handle (incoming : Incoming) (answer : ControlAnswer) : Terminal :=
  match incoming with
  | .timeout => s.again
  | .disconnect => s.close
  | .malformed => s.invalid
  | .json message => (messageType message).elim s.close (fun type => s.control type answer)

def receive (incoming : Incoming) (answer : ControlAnswer) : Terminal :=
  { s with trace := s.trace ++ [TerminalEvent.received incoming] }.handle incoming answer

/-- One step. An act that is not possible now does nothing. -/
def step : TerminalAct → Terminal
  | .append bytes modified => { s with log := some ⟨s.log.elim [] LogFile.bytes ++ bytes, modified⟩ }
  | .turn shutdown stored => if s.point = .turning then s.turn shutdown stored else s
  | .receive incoming answer => if s.point = .receiving then s.receive incoming answer else s
  -- the connection breaks under a send
  | .drop => s.close

def run (acts : List TerminalAct) : Terminal := acts.foldl step s

def bytes : List UInt8 := s.log.elim [] LogFile.bytes

/-- Every byte of the window that the log holds lies before the offset. -/
def complete : Bool := s.endOffset.elim s.bytes.length (fun last => min last s.bytes.length) ≤ s.offset

end Terminal

namespace TerminalEvent

def isOutput : TerminalEvent → Bool
  | .sent (.output _ _ _) => true
  | _ => false

def isCaughtUp : TerminalEvent → Bool
  | .sent (.caughtUp _ _) => true
  | _ => false

def isAck : TerminalEvent → Bool
  | .received (.json (.obj fields)) => match Json.get? fields "type" with
    | some (.str "ack") => true
    | _ => false
  | _ => false

/-- The bytes an event sends. -/
def data : TerminalEvent → List UInt8
  | .sent (.output data _ _) => data
  | _ => []

/-- The offset an event reports. -/
def offset? : TerminalEvent → Option Nat
  | .sent (.output _ offset _) | .sent (.caughtUp offset _) => some offset
  | _ => none

end TerminalEvent

def sentBytes (trace : List TerminalEvent) : List UInt8 := trace.flatMap TerminalEvent.data

section Trace
variable {trace events before after : List TerminalEvent} {event : TerminalEvent}

theorem sentBytes_append : sentBytes (trace ++ events) = sentBytes trace ++ sentBytes events :=
  List.flatMap_append

/-- An event of a longer trace was there before or is one of the new ones. -/
theorem split_append (split : trace ++ events = before ++ event :: after) :
    (∃ rest, trace = before ++ event :: rest ∧ after = rest ++ events) ∨
    ∃ front, before = trace ++ front ∧ events = front ++ event :: after := by
  obtain ⟨front, same, new⟩ | ⟨rest, same, new⟩ := List.append_eq_append_iff.mp split
  · exact .inr ⟨front, same, new⟩
  · cases rest with
    | nil => exact .inr ⟨[], by simpa using same.symm, by simpa using new.symm⟩
    | cons first rest =>
      obtain ⟨rfl, rfl⟩ := List.cons.inj new
      exact .inl ⟨rest, same, rfl⟩

end Trace

namespace Terminal
variable {s t : Terminal} {start : Nat}

/-- What one step does: it leaves the position in the stream as it is, says that the end is reached, or
sends the next chunk. -/
inductive Moves (s : Terminal) (act : TerminalAct) (t : Terminal) : Prop where
  | kept (events : List TerminalEvent) (trace : t.trace = s.trace ++ events)
      (plain : ∀ event ∈ events, event.offset? = none)
      (offset : t.offset = s.offset) (log : s.bytes <+: t.bytes) (endOffset : t.endOffset = s.endOffset)
      (awaiting : t.awaitingAck = s.awaitingAck ∨ ∃ event ∈ events, event.isAck = true)
        (caught : t.caughtUp = s.caughtUp)
  | announced (stored : Bool) (updated : Option String) (isTurn : act = .turn false stored)
      (turning : s.point = .turning)
      (empty : s.found.1 = []) (first : s.caughtUp = false)
      (trace : t.trace = s.trace ++ [.sent (.caughtUp s.offset updated)]) (offset : t.offset = s.offset)
      (log : t.bytes = s.bytes) (endOffset : t.endOffset = s.endOffset)
        (awaiting : t.awaitingAck = s.awaitingAck)
      (caught : t.caughtUp = true)
  | chunk (data : List UInt8) (updated : Option String) (offset : t.offset = s.offset + data.length)
      (trace : t.trace = s.trace ++ [.sent (.output data t.offset updated)])
        (ready : s.awaitingAck = false)
      (window : ∀ last, s.endOffset = some last → s.offset + data.length ≤ last)
      (next : data = (s.bytes.drop s.offset).take data.length)
      (size : 0 < data.length ∧ data.length ≤ 65536) (log : t.bytes = s.bytes)
        (endOffset : t.endOffset = s.endOffset)
      (awaiting : t.awaitingAck = true) (caught : t.caughtUp = s.caughtUp)

theorem Moves.same (s : Terminal) (act : TerminalAct) : Moves s act s :=
  .kept [] (by simp) (by simp) rfl (List.prefix_refl _) rfl (.inl rfl) rfl

theorem readLog_data (s : Terminal) (offset limit : Nat) :
    (readLog s.log offset limit).1 = (s.bytes.drop offset).take (min (max limit 1) 1048576) := by
  unfold readLog bytes
  cases s.log with
  | none => simp
  | some file => rfl

theorem readLog_offset (log : Option LogFile) (offset limit : Nat) :
    (readLog log offset limit).2 = offset + (readLog log offset limit).1.length := by
  cases log <;> rfl

theorem reads_iff : s.reads = true ↔ s.awaitingAck = false ∧ ∀ last, s.endOffset = some last →
    s.offset < last := by
  unfold reads
  cases s.endOffset <;> simp

/-- The limit of a read keeps the chunk small and inside the window. -/
theorem limit_bounds (reads : s.reads = true) : 1 ≤ s.limit ∧ s.limit ≤ 65536 ∧
    ∀ last, s.endOffset = some last → s.offset + s.limit ≤ last := by
  have before := (reads_iff.mp reads).2
  unfold limit
  cases given : s.endOffset with
  | none => simp
  | some last =>
    have room := before last given
    simp only [Option.elim_some, Option.some.injEq, forall_eq']
    omega

theorem found_bounds (reads : s.reads = true) : s.found.1 = (s.bytes.drop s.offset).take s.limit ∧
    s.found.2 = s.offset + s.found.1.length := by
  have bounds := limit_bounds reads
  have size : min (max s.limit 1) 1048576 = s.limit := by omega
  unfold found
  rw [if_pos reads]
  refine ⟨?_, readLog_offset _ _ _⟩
  rw [readLog_data, size]

theorem found_idle (idle : s.reads = false) : s.found = ([], s.offset) := by
  rw [found, idle, if_neg Bool.false_ne_true]

theorem found_empty (empty : s.found.1 = []) : s.found.2 = s.offset := by
  cases reads : s.reads with
  | false => rw [found_idle reads]
  | true =>
    rw [(found_bounds reads).2, empty]
    rfl

theorem moves_turn (shutdown stored : Bool) (turning : s.point = .turning) :
    Moves s (.turn shutdown stored) (s.turn shutdown stored) := by
  unfold turn
  split
  · exact .kept [] (by simp [close]) (by simp) rfl (List.prefix_refl _) rfl (.inl rfl) rfl
  · rename_i open_
    have serving : shutdown = false := by
      cases shutdown with
      | false => rfl
      | true => simp at open_
    by_cases empty : s.found.1 = []
    · have offset := found_empty empty
      simp only [empty, ne_eq, not_true_eq_false, if_false]
      split
      · exact .kept [] (by simp) (by simp) offset (List.prefix_refl _) rfl (.inl rfl) rfl
      · rename_i unsaid
        refine .announced stored s.logUpdatedAt (by rw [serving]) turning empty
          (by simpa using unsaid) ?_ offset rfl rfl rfl rfl
        rw [← offset]
        rfl
    · simp only [empty, ne_eq, not_false_eq_true, if_true]
      cases reads : s.reads with
      | false => exact absurd (congrArg Prod.fst (found_idle reads)) empty
      | true =>
        obtain ⟨data, offset⟩ := found_bounds reads
        obtain ⟨_, small, window⟩ := limit_bounds reads
        have length : s.found.1.length ≤ s.limit := by
          rw [data]
          exact List.length_take_le _ _
        refine .chunk s.found.1 s.logUpdatedAt offset rfl ?_
          (fun last given => ?_) ?_ ?_ rfl rfl rfl rfl
        · exact (reads_iff.mp reads).1
        · have inside := window last given
          omega
        · conv_lhs => rw [data]
          rw [data, List.length_take, List.take_eq_take_min]
        · exact ⟨List.length_pos_iff.mpr empty, length.trans small⟩

/-- Closing, waiting on or answering: at most an error goes out. -/
theorem moves_receive (act : TerminalAct) (incoming : Incoming) (answer : ControlAnswer) :
    Moves s act (s.receive incoming answer) := by
  have quiet : ∀ t : Terminal, t.trace = s.trace ++ [TerminalEvent.received incoming] →
    t.offset = s.offset → t.bytes = s.bytes →
      t.endOffset = s.endOffset → t.awaitingAck = s.awaitingAck → t.caughtUp = s.caughtUp →
        Moves s act t :=
    fun t trace offset log endOffset awaiting caught =>
      .kept _ trace (by simp [TerminalEvent.offset?]) offset
      (log ▸ List.prefix_refl _) endOffset (.inl awaiting) caught
  have replied : ∀ message,
    Moves s act ({ s with trace := s.trace ++ [TerminalEvent.received incoming] }.reply message) :=
    fun message => .kept [.received incoming, .sent (.error message)] (by simp [reply, send, again])
      (by simp [TerminalEvent.offset?]) rfl (List.prefix_refl _) rfl (.inl rfl) rfl
  have answers : ∀ rejection, Moves s act
      ({ s with trace := s.trace ++ [TerminalEvent.received incoming] }.answered answer rejection) := by
    intro rejection
    cases answer with
    | accepted => exact quiet _ rfl rfl rfl rfl rfl rfl
    | rejected => exact replied _
    | invalid => exact replied _
    | missing => exact quiet _ rfl rfl rfl rfl rfl rfl
    | failed => exact quiet _ rfl rfl rfl rfl rfl rfl
  unfold receive
  cases incoming with
  | timeout => exact quiet _ rfl rfl rfl rfl rfl rfl
  | disconnect => exact quiet _ rfl rfl rfl rfl rfl rfl
  | malformed => exact replied _
  | json message =>
    cases type : messageType message with
    | none =>
      rw [handle, type]
      exact quiet _ rfl rfl rfl rfl rfl rfl
    | some type' =>
      rw [handle, type, Option.elim_some]
      unfold control
      split
      · split
        · exact answers _
        · exact replied _
      · split
        · exact answers _
        · exact replied _
      · refine .kept [.received (.json message)] rfl (by simp [TerminalEvent.offset?]) rfl
          (List.prefix_refl _) rfl
          (.inr ⟨_, List.mem_singleton_self _, ?_⟩) rfl
        cases message with
        | obj fields =>
          simp only [messageType, Option.some.injEq] at type
          cases named : Json.get? fields "type" with
          | none => simp [named] at type
          | some value =>
            rw [named, Option.getD_some] at type
            simp [TerminalEvent.isAck, named, type]
        | _ => cases type
      · exact replied _
      · exact replied _
      · exact quiet _ rfl rfl rfl rfl rfl rfl

theorem moves_step (s : Terminal) (act : TerminalAct) : Moves s act (s.step act) := by
  cases act with
  | append bytes modified =>
    refine .kept [] (by simp [step]) (by simp) rfl ?_ rfl (.inl rfl) rfl
    simp [step, Terminal.bytes]
  | turn shutdown stored =>
    rw [step]
    split
    · rename_i turning
      exact moves_turn shutdown stored turning
    · exact .same s _
  | receive incoming answer =>
    rw [step]
    split
    · exact moves_receive _ incoming answer
    · exact .same s _
  | drop => exact .kept [] (by simp [step, close]) (by simp) rfl (List.prefix_refl _) rfl (.inl rfl) rfl

/-- What has been sent is one contiguous piece of the log, in acknowledged chunks. -/
structure Contiguous (start : Nat) (s : Terminal) : Prop where
  size : ∀ event ∈ s.trace, event.isOutput = true → 0 < event.data.length ∧ event.data.length ≤ 65536
  apart : ∀ before first between second after, s.trace = before ++ first ::
    (between ++ second :: after) →
    first.isOutput = true → second.isOutput = true → ∃ event ∈ between, event.isAck = true
  acked : s.awaitingAck = false → ∀ before event after, s.trace = before ++ event :: after →
    event.isOutput = true →
    ∃ ack ∈ after, ack.isAck = true
  bytes : sentBytes s.trace = (s.bytes.drop start).take (sentBytes s.trace).length
  offset : s.offset = start + (sentBytes s.trace).length
  within : ∀ last, s.endOffset = some last → s.offset ≤ max start last
  reported : ∀ before event after offset, s.trace = before ++ event :: after →
    event.offset? = some offset →
    offset = start + (sentBytes (before ++ [event])).length

theorem Contiguous.opened (isAdmin : Bool) (start : Nat) (endOffset : Option Nat)
    (log : Option LogFile) :
    Contiguous start (opened isAdmin start endOffset log) where
  size := by simp [Terminal.opened]
  apart := by simp [Terminal.opened]
  acked := by simp [Terminal.opened]
  bytes := by simp [Terminal.opened, sentBytes]
  offset := by simp [Terminal.opened, sentBytes]
  within last _ := Nat.le_max_left start last
  reported := by simp [Terminal.opened]

theorem data_plain {event : TerminalEvent} (plain : event.isOutput = false) : event.data = [] := by
  cases event with
  | received => rfl
  | sent frame => cases frame with
    | output => cases plain
    | caughtUp => rfl
    | error => rfl

theorem sentBytes_plain {events : List TerminalEvent}
    (plain : ∀ event ∈ events, event.isOutput = false) : sentBytes events = [] :=
  List.flatMap_eq_nil_iff.mpr (fun event member => data_plain (plain event member))

theorem isOutput_plain {event : TerminalEvent} (plain : event.offset? = none) :
    event.isOutput = false ∧ event.isCaughtUp = false := by
  cases event with
  | received => exact ⟨rfl, rfl⟩
  | sent frame => cases frame with
    | output => cases plain
    | caughtUp => cases plain
    | error => exact ⟨rfl, rfl⟩

/-- Events between two chunks. -/
theorem Contiguous.kept {events : List TerminalEvent} (holds : Contiguous start s)
    (trace : t.trace = s.trace ++ events)
    (plain : ∀ event ∈ events, event.isOutput = false ∧
      (event.offset? = none ∨ event.offset? = some s.offset))
    (offset : t.offset = s.offset) (log : s.bytes <+: t.bytes) (endOffset : t.endOffset = s.endOffset)
    (awaiting : t.awaitingAck = s.awaitingAck ∨ ∃ event ∈ events, event.isAck = true) :
    Contiguous start t := by
  have silent : ∀ {event : TerminalEvent}, event ∈ events → event.isOutput ≠ true :=
    fun member output => by
    simp [(plain _ member).1] at output
  have sent : sentBytes t.trace = sentBytes s.trace := by
    rw [trace, sentBytes_append, sentBytes_plain (fun event member => (plain event member).1),
      List.append_nil]
  constructor
  · intro event member output
    rw [trace] at member
    obtain old | new := List.mem_append.mp member
    · exact holds.size event old output
    · exact absurd output (silent new)
  · intro before first between second after split one two
    rw [trace] at split
    obtain ⟨rest, old, tail⟩ | ⟨front, _, new⟩ := split_append split
    · obtain ⟨rest', old', _⟩ | ⟨front, _, new⟩ := split_append tail.symm
      · exact holds.apart before first between second rest' (old' ▸ old) one two
      · exact absurd two (silent (new ▸ List.mem_append_right _ List.mem_cons_self))
    · exact absurd one (silent (new ▸ List.mem_append_right _ List.mem_cons_self))
  · intro free before event after split output
    rw [trace] at split
    obtain ⟨rest, old, rfl⟩ | ⟨front, _, new⟩ := split_append split
    · obtain same | ⟨ack, member, isAck⟩ := awaiting
      · obtain ⟨ack, member, isAck⟩ := holds.acked (same ▸ free) before event rest old output
        exact ⟨ack, List.mem_append_left _ member, isAck⟩
      · exact ⟨ack, List.mem_append_right _ member, isAck⟩
    · exact absurd output (silent (new ▸ List.mem_append_right _ List.mem_cons_self))
  · obtain ⟨more, grown⟩ := log
    rw [sent, ← grown]
    have enough : (sentBytes s.trace).length ≤ (s.bytes.drop start).length := by
      have length := congrArg List.length holds.bytes
      rw [List.length_take] at length
      omega
    rw [List.drop_append, List.take_append_of_le_length enough]
    exact holds.bytes
  · rw [offset, sent]
    exact holds.offset
  · rw [endOffset, offset]
    exact holds.within
  · intro before event after reported split isOffset
    rw [trace] at split
    obtain ⟨rest, old, _⟩ | ⟨front, rfl, new⟩ := split_append split
    · exact holds.reported before event rest reported old isOffset
    · have member : event ∈ events := new ▸ List.mem_append_right _ List.mem_cons_self
      have isSame : reported = s.offset := by
        obtain none | some := (plain event member).2
        · simp [none] at isOffset
        · exact (Option.some.inj (some.symm.trans isOffset)).symm
      have quiet : sentBytes (front ++ [event]) = [] := by
        refine sentBytes_plain (fun other listed => (plain other ?_).1)
        rw [new]
        simp only [List.mem_append, List.mem_cons] at listed ⊢
        tauto
      rw [List.append_assoc, sentBytes_append, quiet, List.append_nil, isSame]
      exact holds.offset

/-- The next chunk. -/
theorem Contiguous.chunk {data : List UInt8} {updated : Option String} (holds : Contiguous start s)
    (offset : t.offset = s.offset + data.length)
    (trace : t.trace = s.trace ++ [.sent (.output data t.offset updated)])
    (ready : s.awaitingAck = false)
    (window : ∀ last, s.endOffset = some last → s.offset + data.length ≤ last)
    (next : data = (s.bytes.drop s.offset).take data.length)
    (size : 0 < data.length ∧ data.length ≤ 65536)
    (log : t.bytes = s.bytes) (endOffset : t.endOffset = s.endOffset)
    (awaiting : t.awaitingAck = true) :
    Contiguous start t := by
  have sent : sentBytes t.trace = sentBytes s.trace ++ data := by
    rw [trace, sentBytes_append]
    simp [sentBytes, TerminalEvent.data]
  have total : t.offset = start + (sentBytes t.trace).length := by
    rw [offset, sent, List.length_append, holds.offset, Nat.add_assoc]
  constructor
  · intro event member output
    rw [trace] at member
    obtain old | new := List.mem_append.mp member
    · exact holds.size event old output
    · obtain rfl := List.mem_singleton.mp new
      exact size
  · intro before first between second after split one two
    rw [trace] at split
    obtain ⟨rest, old, tail⟩ | ⟨front, _, new⟩ := split_append split
    · obtain ⟨rest', old', _⟩ | ⟨front, isFront, _⟩ := split_append tail.symm
      · exact holds.apart before first between second rest' (old' ▸ old) one two
      -- the chunk before it has been acknowledged
      · obtain ⟨ack, member, isAck⟩ := holds.acked ready before first rest old one
        exact ⟨ack, isFront ▸ List.mem_append_left _ member, isAck⟩
    · have lengths := congrArg List.length new
      simp at lengths
      omega
  · intro free
    rw [awaiting] at free
    cases free
  · rw [sent, log, List.length_append, List.take_add, ← holds.bytes, List.drop_drop,
      ← holds.offset, ← next]
  · exact total
  · intro last given
    have inside := window last (endOffset ▸ given)
    omega
  · intro before event after reported split isOffset
    rw [trace] at split
    obtain ⟨rest, old, _⟩ | ⟨front, rfl, new⟩ := split_append split
    · exact holds.reported before event rest reported old isOffset
    · cases front with
      | nil =>
        rw [List.append_nil]
        obtain ⟨rfl, _⟩ := List.cons.inj new
        rw [← trace, ← total]
        exact (Option.some.inj isOffset).symm
      | cons first front => simp at new

theorem Contiguous.step (holds : Contiguous start s) (act : TerminalAct) :
    Contiguous start (s.step act) := by
  cases moves_step s act with
  | kept events trace plain offset log endOffset awaiting =>
    exact holds.kept trace
      (fun event member => ⟨(isOutput_plain (plain event member)).1, .inl (plain event member)⟩)
      offset log endOffset awaiting
  | announced stored updated _ _ _ _ trace offset log endOffset awaiting =>
    refine holds.kept trace (fun event member => ?_) offset (log ▸ List.prefix_refl _) endOffset
      (.inl awaiting)
    obtain rfl := List.mem_singleton.mp member
    exact ⟨rfl, .inr rfl⟩
  | chunk data updated offset trace ready window next size log endOffset awaiting =>
    exact holds.chunk offset trace ready window next size log endOffset awaiting

theorem Contiguous.run (holds : Contiguous start s) (acts : List TerminalAct) :
    Contiguous start (s.run acts) := by
  induction acts generalizing s with
  | nil => exact holds
  | cons act rest ih => exact ih (holds.step act)

theorem step_endOffset (act : TerminalAct) : (s.step act).endOffset = s.endOffset := by
  cases moves_step s act with
  | kept _ _ _ _ _ endOffset => exact endOffset
  | announced _ _ _ _ _ _ _ _ _ endOffset => exact endOffset
  | chunk _ _ _ _ _ _ _ _ _ endOffset => exact endOffset

theorem run_endOffset (acts : List TerminalAct) : (s.run acts).endOffset = s.endOffset := by
  induction acts generalizing s with
  | nil => rfl
  | cons act rest ih => exact (ih (s := s.step act)).trans (step_endOffset act)

/-- Whatever the client sends and however the log grows: every chunk has 1 to 65536 bytes, an
acknowledgement lies between two chunks, the chunks put together are the bytes of the log from the
start on, none from the end on, and every offset is the start and what has been sent so far. -/
theorem stream_contiguous (isAdmin : Bool) (start : Nat) (endOffset : Option Nat) (log : Option LogFile)
    (acts : List TerminalAct) : ∃ s, s = (opened isAdmin start endOffset log).run acts ∧
      (∀ event ∈ s.trace, event.isOutput = true → 0 < event.data.length ∧ event.data.length ≤ 65536) ∧
      (∀ before first between second after, s.trace = before ++ first :: (between ++ second :: after) →
        first.isOutput = true → second.isOutput = true → ∃ event ∈ between, event.isAck = true) ∧
      sentBytes s.trace = (s.bytes.drop start).take (s.offset - start) ∧
      s.offset = start + (sentBytes s.trace).length ∧
      (∀ last, endOffset = some last → s.offset ≤ max start last) ∧
      (∀ before event after offset, s.trace = before ++ event :: after → event.offset? = some offset →
        offset = start + (sentBytes (before ++ [event])).length) := by
  have holds := (Contiguous.opened isAdmin start endOffset log).run acts
  have given : ((opened isAdmin start endOffset log).run acts).endOffset = endOffset :=
    run_endOffset acts
  generalize (opened isAdmin start endOffset log).run acts = s at holds given
  refine ⟨s, rfl, holds.size, holds.apart, ?_, holds.offset, given ▸ holds.within, holds.reported⟩
  have sent : s.offset - start = (sentBytes s.trace).length := by
    rw [holds.offset]
    exact Nat.add_sub_cancel_left _ _
  rw [sent]
  exact holds.bytes

/-- Every byte of the requested window that the log holds has been sent. -/
def WindowSent (start : Nat) (s : Terminal) : Prop :=
  ∀ i, start ≤ i → i < s.bytes.length → (∀ last, s.endOffset = some last → i < last) →
    i < start + (sentBytes s.trace).length

/-- The step sends `caught_up`. -/
def Announces (s : Terminal) (act : TerminalAct) : Prop :=
  ∃ offset updated, (s.step act).trace = s.trace ++ [.sent (.caughtUp offset updated)]

/-- `caught_up` is sent once at most, and only when the whole window has been sent. -/
def Truthful (start : Nat) (s : Terminal) (acts : List TerminalAct) : Prop :=
  ((s.run acts).trace.filter TerminalEvent.isCaughtUp).length ≤ 1 ∧
  ∀ before act after, acts = before ++ act :: after → (s.run before).Announces act →
    ((s.run before).step act).WindowSent start

/-- No turn before `caught_up` finds a chunk outstanding while the window is not complete. -/
def Prompt (s : Terminal) (acts : List TerminalAct) : Prop :=
  ∀ before stored after, acts = before ++ .turn false stored :: after →
    (s.run before).point = .turning →
    (s.run before).caughtUp = false → (s.run before).awaitingAck = true → (s.run before).complete = true

theorem complete_iff (holds : Contiguous start s) : s.complete = true ↔ s.WindowSent start := by
  unfold complete WindowSent
  rw [← holds.offset, decide_eq_true_eq]
  have from_start : start ≤ s.offset := by
    rw [holds.offset]
    exact Nat.le_add_right _ _
  cases s.endOffset with
  | none =>
    simp only [Option.elim_none, reduceCtorEq, false_implies, implies_true, true_implies]
    constructor
    · intro whole i _ inside
      omega
    · intro all
      by_contra short
      exact absurd (all s.offset from_start (by omega)) (Nat.lt_irrefl _)
  | some last =>
    simp only [Option.elim_some, Option.some.injEq, forall_eq']
    constructor
    · intro whole i _ inside before
      omega
    · intro all
      by_contra short
      exact absurd (all s.offset from_start (by omega) (by omega)) (Nat.lt_irrefl _)

/-- A turn that finds nothing to send has reached the end of the window, unless a chunk is
outstanding. -/
theorem complete_of_empty (empty : s.found.1 = []) (free : s.awaitingAck = false) :
    s.complete = true := by
  have past : (∃ last, s.endOffset = some last ∧ last ≤ s.offset) ∨ s.bytes.length ≤ s.offset := by
    cases reads : s.reads with
    | true =>
      obtain ⟨data, _⟩ := found_bounds reads
      have some_room := (limit_bounds reads).1
      rw [empty] at data
      have length := congrArg List.length data
      rw [List.length_take, List.length_drop, List.length_nil] at length
      right
      omega
    | false =>
      left
      by_contra none_past
      have ready : s.reads = true := reads_iff.mpr ⟨free, fun last given => by
        by_contra late
        exact none_past ⟨last, given, by omega⟩⟩
      rw [ready] at reads
      cases reads
  unfold complete
  rw [decide_eq_true_eq]
  obtain ⟨last, given, late⟩ | late := past
  · rw [given, Option.elim_some]
    omega
  · cases s.endOffset with
    | none => exact late
    | some last =>
      rw [Option.elim_some]
      omega

/-- `caught_up` is sent at a turn of the loop that finds nothing to send, and noted. -/
theorem announces_cases {act : TerminalAct} (announces : s.Announces act) :
    (∃ stored, act = .turn false stored) ∧
    s.point = .turning ∧ s.found.1 = [] ∧ s.caughtUp = false ∧ (s.step act).bytes = s.bytes := by
  obtain ⟨offset, updated, sent⟩ := announces
  cases moves_step s act with
  | kept events trace plain =>
    have new := List.append_cancel_left (trace.symm.trans sent)
    have silent := plain (.sent (.caughtUp offset updated))
      (by rw [new]; exact List.mem_singleton_self _)
    cases silent
  | announced stored _ isTurn turning empty first _ _ log =>
    exact ⟨⟨stored, isTurn⟩, turning, empty, first, log⟩
  | chunk data _ _ trace =>
    have new := List.append_cancel_left (trace.symm.trans sent)
    cases (List.cons.inj new).1

/-- A turn with a chunk outstanding says that the end is reached. -/
theorem announces_outstanding (stored : Bool) (turning : s.point = .turning)
    (unsaid : s.caughtUp = false)
    (outstanding : s.awaitingAck = true) : s.Announces (.turn false stored) := by
  have idle : s.reads = false := by
    unfold reads
    rw [outstanding]
    rfl
  refine ⟨s.found.2, s.logUpdatedAt, ?_⟩
  simp [step, turning, turn, found_idle idle, idle, unsaid, send]

theorem caughtUp_step (act : TerminalAct)
    (counts : (s.trace.filter TerminalEvent.isCaughtUp).length = if s.caughtUp then 1 else 0) :
    ((s.step act).trace.filter TerminalEvent.isCaughtUp).length = if (s.step act).caughtUp then 1
      else 0 := by
  cases moves_step s act with
  | kept events trace plain _ _ _ _ caught =>
    have none_new : events.filter TerminalEvent.isCaughtUp = [] :=
      List.filter_eq_nil_iff.mpr (fun event member => by simp [(isOutput_plain (plain event member)).2])
    rw [trace, List.filter_append, none_new, List.append_nil, caught]
    exact counts
  | announced _ _ _ _ _ first trace _ _ _ _ caught =>
    rw [trace, List.filter_append, List.length_append, counts, first, caught]
    rfl
  | chunk _ _ _ trace _ _ _ _ _ _ _ caught =>
    rw [trace, List.filter_append, List.length_append, counts, caught]
    rfl

theorem caughtUp_run (acts : List TerminalAct)
    (counts : (s.trace.filter TerminalEvent.isCaughtUp).length = if s.caughtUp then 1 else 0) :
    ((s.run acts).trace.filter TerminalEvent.isCaughtUp).length = if (s.run acts).caughtUp then 1
      else 0 := by
  induction acts generalizing s with
  | nil => exact counts
  | cons act rest ih => exact ih (caughtUp_step act counts)

/-- The announcement leaves the window as it is. -/
theorem windowSent_announced {act : TerminalAct} (announces : s.Announces act) :
    (s.step act).WindowSent start ↔ s.WindowSent start := by
  obtain ⟨_, _, _, _, log⟩ := announces_cases announces
  obtain ⟨offset, updated, sent⟩ := announces
  have bytes : sentBytes (s.step act).trace = sentBytes s.trace := by
    rw [sent, sentBytes_append]
    simp [sentBytes, TerminalEvent.data]
  unfold WindowSent
  rw [bytes, log, step_endOffset]

/-- `caught_up` is truthful in exactly the runs in which no turn before it finds a chunk outstanding
that is not the last of the window. -/
theorem caught_up_iff (isAdmin : Bool) (start : Nat) (endOffset : Option Nat) (log : Option LogFile)
    (acts : List TerminalAct) : (opened isAdmin start endOffset log).Truthful start acts ↔
      (opened isAdmin start endOffset log).Prompt acts := by
  have holds := fun acts => (Contiguous.opened isAdmin start endOffset log).run acts
  constructor
  · rintro ⟨_, truthful⟩ before stored after split turning unsaid outstanding
    have announces := announces_outstanding stored turning unsaid outstanding
    have sent := truthful before _ after split announces
    exact (complete_iff (holds before)).mpr ((windowSent_announced announces).mp sent)
  · intro prompt
    constructor
    · rw [caughtUp_run acts (by simp [opened])]
      split <;> omega
    · intro before act after split announces
      obtain ⟨⟨stored, rfl⟩, turning, empty, unsaid, _⟩ := announces_cases announces
      apply (windowSent_announced announces).mpr
      apply (complete_iff (holds before)).mp
      cases outstanding : ((opened isAdmin start endOffset log).run before).awaitingAck with
      | false => exact complete_of_empty empty outstanding
      | true => exact prompt before stored after split turning unsaid outstanding

/-- The second byte arrives before the first one is acknowledged. -/
theorem early_announcement : ¬ (opened false 0 none (some ⟨[1], "now"⟩)).Truthful 0
    [.turn false true, .append [2] "later", .receive .timeout .accepted, .turn false true] := by
  rintro ⟨_, truthful⟩
  have sent := truthful [.turn false true, .append [2] "later", .receive .timeout .accepted]
    (.turn false true) [] rfl
    ⟨1, some "later", rfl⟩
  have second := sent 1 (by decide) (by decide) (by simp [opened, step_endOffset, run_endOffset])
  exact absurd second (by decide)

end Terminal
end LocalFlow
