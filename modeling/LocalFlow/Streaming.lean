import LocalFlow.Storage.Edits
import LocalFlow.Validation
import LocalFlow.Library.Run
import Std.Data.String.ToNat

/-! The two event streams, over Server-Sent Events and over a WebSocket, and a client that connects
again where it was: how the ids of events are given out, what a page holds, and where a stream
starts. -/
namespace LocalFlow
open Transition

/-! ## The store -/

namespace Events
variable (events : Events)

/-- The events there are and those there were. -/
def history : List EventRecord := events.rows ++ events.deleted

/-- `events_after`. -/
def after (cursor : Nat) : List EventRecord :=
  (events.rows.filter (fun event => cursor < event.id)).take 500

/-- `latest_event_id`. -/
def latest : Nat := (events.rows.map EventRecord.id).max?.getD 0

end Events

/-- `_initial_event_cursor`. -/
def initialEventCursor (events : Events) (after : Option Nat) (lastEventId : Option String) : Nat :=
  match after with
  | some cursor => cursor
  | none =>
    match lastEventId with
    | none => events.latest
    | some text =>
      if text = "" then events.latest
      else
        match intOf text with
        | some cursor => (max 0 cursor).toNat
        | none => events.latest

/-! ## The streams -/

inductive Transport where
  | sse | websocket
  deriving DecidableEq

/-- What is on the way to the client. Keepalives and heartbeats are left out. -/
inductive FeedMessage where
  | ready (id : Nat)
  | event (event : EventRecord)

/-- A stream of the server. `found` is what the loop over a page has left. In the middle of a pass,
`half`, one transport has moved its cursor and not sent the event, and the other has sent it and not
moved its cursor. -/
structure FeedConnection where
  transport : Transport
  cursor : Nat
  found : List EventRecord
  half : Bool
  wire : List FeedMessage

/-- The client: its first cursor, where it is, and what it received over all connections. -/
structure Subscriber where
  first : Option Nat
  position : Option Nat
  received : List EventRecord

/-- `gone` is a history variable: the events that had been deleted before a poll that would have
found them. -/
structure Feed where
  db : Db
  connection : Option FeedConnection
  subscriber : Subscriber
  gone : List EventRecord

/-- `store` is a statement of the store, `poll` a call of `events_after`. `begin` and `finish` are
the two halves of a pass of the loop over a page. -/
inductive FeedAct where
  | store (db : Db)
  | connect (transport : Transport) (after : Option Nat) (lastEventId : Option String)
  | poll | begin | finish
  | receive
  | disconnect

namespace Subscriber
variable (subscriber : Subscriber)

def starts (cursor : Nat) : Subscriber :=
  { subscriber with
    first := some (subscriber.first.getD cursor)
    position := some (subscriber.position.getD cursor) }

/-- `onmessage`. -/
def receive : FeedMessage → Subscriber
  | .ready id => { subscriber with first := some (subscriber.first.getD id), position := some id }
  | .event event =>
    { subscriber with received := subscriber.received ++ [event], position := some event.id }

end Subscriber

namespace FeedConnection
variable (connection : FeedConnection)

/-- The events of the page that are not on the wire yet. -/
def unsent : List EventRecord :=
  if connection.transport = .websocket ∧ connection.half = true then connection.found.tail
    else connection.found

/-- Everything the client will receive if the connection lasts and nothing is polled. -/
def ahead : List FeedMessage := connection.wire ++ connection.unsent.map FeedMessage.event

/-- A poll has a place for the event. -/
def Covers (events : Events) (event : EventRecord) : Prop :=
  connection.cursor < event.id ∧
    ((events.after connection.cursor).length < 500 ∨ ∃ last ∈ events.after connection.cursor,
      event.id ≤ last.id)

instance (events : Events) (event : EventRecord) : Decidable (connection.Covers events event) :=
  inferInstanceAs (Decidable (_ ∧ (_ ∨ _)))

end FeedConnection

namespace Feed

def start (db : Db) : Feed := ⟨db, none, ⟨none, none, []⟩, []⟩

variable (s : Feed)

def connect (transport : Transport) (after : Option Nat) (lastEventId : Option String) : Feed :=
  match transport with
  | .sse =>
    let cursor := initialEventCursor s.db.events after lastEventId
    { s with
      connection := some ⟨.sse, cursor, [], false, []⟩
      subscriber := s.subscriber.starts cursor }
  | .websocket =>
    let cursor := initialEventCursor s.db.events after none
    { s with connection := some ⟨.websocket, cursor, [], false, [.ready cursor]⟩ }

def poll (connection : FeedConnection) : Feed :=
  { s with
    connection := some { connection with found := s.db.events.after connection.cursor }
    gone := s.gone ++ s.db.events.deleted.filter (fun event => connection.Covers s.db.events event) }

def next : FeedAct → Option Feed
  | .store db => some { s with db }
  | .connect transport after lastEventId =>
    if s.connection.isSome then none else some (s.connect transport after lastEventId)
  | .poll =>
    match s.connection with
    | some connection => if connection.found = [] then some (s.poll connection) else none
    | none => none
  | .begin =>
    match s.connection with
    | some ⟨.sse, _, event :: rest, false, wire⟩ =>
      some { s with connection := some ⟨.sse, event.id, event :: rest, true, wire⟩ }
    | some ⟨.websocket, cursor, event :: rest, false, wire⟩ =>
      some { s with
        connection := some ⟨.websocket, cursor, event :: rest, true, wire ++ [.event event]⟩ }
    | _ => none
  | .finish =>
    match s.connection with
    | some ⟨.sse, cursor, event :: rest, true, wire⟩ =>
      some { s with connection := some ⟨.sse, cursor, rest, false, wire ++ [.event event]⟩ }
    | some ⟨.websocket, _, event :: rest, true, wire⟩ =>
      some { s with connection := some ⟨.websocket, event.id, rest, false, wire⟩ }
    | _ => none
  | .receive =>
    match s.connection with
    | some ⟨transport, cursor, found, half, message :: wire⟩ =>
      some { s with
        connection := some ⟨transport, cursor, found, half, wire⟩
        subscriber := s.subscriber.receive message }
    | _ => none
  | .disconnect => if s.connection.isSome then some { s with connection := none } else none

/-- A statement of the store is an edit. -/
def Step (act : FeedAct) (t : Feed) : Prop :=
  (∀ db, act = .store db → Edit (fun _ => True) s.db db) ∧ s.next act = some t

/-- A client that has a position connects from there. -/
def Resumes : FeedAct → Prop
  | .connect transport after lastEventId => ∀ position, s.subscriber.position = some position →
    after = some position ∨ transport = .sse ∧ after = none ∧ lastEventId = some (Nat.repr position)
  | _ => True

end Feed

abbrev Resuming : Feed → FeedAct → Feed → Prop := Guarded Feed.Step Feed.Resumes

/-! ## Event ids -/

section Ids
variable {events : Events} {event x : EventRecord} {cursor : Nat}

/-- Every event there is or was has an id of its own, below the next one. -/
structure Events.Sane (events : Events) : Prop where
  below : ∀ event ∈ events.history, event.id < events.next
  distinct : (events.history.map EventRecord.id).Nodup

theorem Events.Sane.unique {other : EventRecord} (sane : events.Sane) (member : event ∈ events.history)
    (member' : other ∈ events.history) (same : event.id = other.id) : event = other :=
  List.inj_on_of_nodup_map sane.distinct member member' same

@[simp] theorem mem_history_append (now : String) (taskId : Option TaskId) (kind : String) :
    x ∈ (events.append now taskId kind).history ↔ x ∈ events.history ∨
      x = ⟨events.next, taskId, kind, now⟩ := by
  simp only [Events.history, Events.append, List.mem_append, List.mem_singleton]
  tauto

@[simp] theorem mem_history_delete (drop : EventRecord → Bool) :
    x ∈ (events.delete drop).history ↔ x ∈ events.history := by
  simp only [Events.history, Events.delete, List.mem_append, List.mem_filter, Bool.not_eq_true']
  cases drop x
  · simp
  · simp [or_comm]

theorem sane_empty : Events.empty.Sane where
  below := fun _ never => nomatch never
  distinct := .nil

theorem sane_append (sane : events.Sane) (now : String) (taskId : Option TaskId) (kind : String) :
    (events.append now taskId kind).Sane := by
  have next : (events.append now taskId kind).next = events.next + 1 := rfl
  have split : (events.append now taskId kind).history.Perm (⟨events.next, taskId, kind, now⟩ ::
    events.history) := by
    simp only [Events.history, Events.append, List.append_assoc, List.singleton_append]
    exact List.perm_middle
  constructor
  · intro event member
    rw [next]
    obtain old | rfl := (mem_history_append now taskId kind).mp member
    · exact Nat.lt_succ_of_lt (sane.below event old)
    · exact Nat.lt_succ_self _
  · apply ((split.map EventRecord.id).nodup_iff).mpr
    refine List.nodup_cons.mpr ⟨fun used => ?_, sane.distinct⟩
    -- the new id was not given out before
    obtain ⟨event, member, same⟩ := List.mem_map.mp used
    exact absurd same (Nat.ne_of_lt (sane.below event member))

theorem sane_delete (sane : events.Sane) (drop : EventRecord → Bool) : (events.delete drop).Sane := by
  have split : (events.delete drop).history.Perm events.history := by
    simp only [Events.history, Events.delete]
    rw [← List.append_assoc]
    apply List.perm_append_comm.trans
    rw [← List.append_assoc]
    exact (List.filter_append_perm drop events.rows).append_right events.deleted
  constructor
  · intro event member
    exact sane.below event ((mem_history_delete drop).mp member)
  · exact ((split.map EventRecord.id).nodup_iff).mpr sane.distinct

/-- What a statement of the store can do to the events. -/
theorem edit_events {accepts : TaskCreate → Prop} {db next : Db} (edit : Edit accepts db next) :
    next.events = db.events ∨ (∃ now taskId kind, next.events = db.events.append now taskId kind) ∨
      ∃ drop, next.events = db.events.delete drop := by
  cases edit with
  | event quiet => exact .inr (.inl ⟨_, _, _, rfl⟩)
  | submit accepted unused inserted =>
    obtain ⟨status, tasks, _, _, rfl⟩ := Db.insertTask_some inserted
    exact .inr (.inl ⟨_, _, _, rfl⟩)
  | move status found legal stamps free => exact .inr (.inl ⟨_, _, _, rfl⟩)
  | note frame => exact .inl rfl
  | delete ended => exact .inr (.inr ⟨_, rfl⟩)
  | forget drop => exact .inr (.inr ⟨drop, rfl⟩)
  | tables => exact .inl rfl

theorem sane_edit {accepts : TaskCreate → Prop} {db next : Db} (edit : Edit accepts db next)
    (sane : db.events.Sane) :
    next.events.Sane := by
  obtain same | ⟨now, taskId, kind, same⟩ | ⟨drop, same⟩ := edit_events edit
  · rw [same]
    exact sane
  · rw [same]
    exact sane_append sane now taskId kind
  · rw [same]
    exact sane_delete sane drop

theorem sane_changes {accepts : TaskCreate → Prop} {db next : Db} (changes : Changes accepts db next)
    (sane : db.events.Sane) : next.events.Sane := by
  induction changes with
  | refl => exact sane
  | tail _ edit ih => exact sane_edit edit ih

/-- How the events change: what was remains, what is new has an id that was not given out before,
and what was deleted remains deleted. -/
structure Accrues (old new : Events) : Prop where
  kept : ∀ event ∈ old.history, event ∈ new.history
  fresh : ∀ event ∈ new.history, event ∈ old.history ∨ old.next ≤ event.id
  deleted : ∀ event ∈ old.deleted, event ∈ new.deleted

theorem accrues_edit {accepts : TaskCreate → Prop} {db next : Db} (edit : Edit accepts db next) :
    Accrues db.events next.events := by
  obtain same | ⟨now, taskId, kind, same⟩ | ⟨drop, same⟩ := edit_events edit
  · rw [same]
    exact ⟨fun _ member => member, fun _ => .inl, fun _ member => member⟩
  · rw [same]
    constructor
    · exact fun event member => (mem_history_append now taskId kind).mpr (.inl member)
    · intro event member
      obtain old | rfl := (mem_history_append now taskId kind).mp member
      · exact .inl old
      · exact .inr le_rfl
    · exact fun _ member => member
  · rw [same]
    constructor
    · exact fun event member => (mem_history_delete drop).mpr member
    · exact fun event member => .inl ((mem_history_delete drop).mp member)
    · exact fun event member => List.mem_append_left _ member

/-! ## Pages -/

theorem after_sublist : (events.after cursor).Sublist events.rows :=
  (List.take_sublist _ _).trans List.filter_sublist

theorem after_ascending : (events.after cursor).Pairwise (fun a b => a.id < b.id) :=
  events.ascending.sublist after_sublist

theorem mem_after (member : event ∈ events.after cursor) : event ∈ events.rows ∧ cursor < event.id := by
  obtain ⟨stored, later⟩ := List.mem_filter.mp (List.mem_of_mem_take member)
  exact ⟨stored, of_decide_eq_true later⟩

/-- A stored event after the cursor is on the page, or the page is full of events before it. -/
theorem after_full (stored : event ∈ events.rows) (later : cursor < event.id) :
    event ∈ events.after cursor ∨
      (events.after cursor).length = 500 ∧ ∀ found ∈ events.after cursor, found.id < event.id := by
  have found : event ∈ events.rows.filter (fun event => cursor < event.id) :=
    List.mem_filter.mpr ⟨stored, decide_eq_true later⟩
  have ascending := events.ascending.sublist (List.filter_sublist (p := fun event => cursor < event.id))
  unfold Events.after
  obtain ⟨rows, isRows⟩ : ∃ rows, rows = events.rows.filter (fun event => cursor < event.id) := ⟨_, rfl⟩
  rw [← isRows] at found ascending ⊢
  rw [← List.take_append_drop 500 rows] at found ascending
  obtain here | beyond := List.mem_append.mp found
  · exact .inl here
  · have more : 0 < (rows.drop 500).length := List.length_pos_of_mem beyond
    rw [List.length_drop] at more
    refine .inr ⟨by rw [List.length_take]; omega, fun earlier member => ?_⟩
    exact (List.pairwise_append.mp ascending).2.2 earlier member event beyond

end Ids

/-! ## Connecting again -/

section Resume
variable {position : Nat} {after : Option Nat} {lastEventId : Option String}

theorem repr_digit {c : Char} (member : c ∈ (Nat.repr position).toList) : c.isDigit = true := by
  rw [Nat.toList_repr] at member
  exact Nat.isDigit_of_mem_toDigits (by decide) (by decide) member

theorem digit_bounds {c : Char} (digit : c.isDigit = true) : 48 ≤ c.toNat ∧ c.toNat ≤ 57 :=
  Char.isDigit_iff_toNat.mp digit

theorem isSpace_digit {c : Char} (digit : c.isDigit = true) : isSpace c = false := by
  obtain ⟨low, high⟩ := digit_bounds digit
  simp only [isSpace, List.mem_cons, List.not_mem_nil, or_false, Bool.or_eq_false_iff,
    decide_eq_false_iff_not,
    Bool.and_eq_false_iff]
  omega

theorem intOf_repr (position : Nat) : intOf (Nat.repr position) = some position := by
  have trimmed : Trimmed (Nat.repr position).toList := by
    constructor
    · exact fun c first => isSpace_digit (repr_digit (List.mem_of_mem_head? first))
    · exact fun c last => isSpace_digit (repr_digit (List.mem_of_getLast? last))
  have plain : (String.ofList (Nat.repr position).toList).toNat? = some position := by
    rw [String.ofList_toList, Nat.toNat?_repr]
  unfold intOf
  rw [strip_trimmed trimmed]
  split
  · rename_i same
    have := digit_bounds (repr_digit (same ▸ List.mem_cons_self : '-' ∈ (Nat.repr position).toList))
    simp at this
  · rename_i same
    have := digit_bounds (repr_digit (same ▸ List.mem_cons_self : '+' ∈ (Nat.repr position).toList))
    simp at this
  · rw [plain]
    rfl

/-- A stream starts at the position of the client that connects to it. -/
theorem initialEventCursor_header (events : Events) :
    initialEventCursor events none (some (Nat.repr position)) = position := by
  have filled : Nat.repr position ≠ "" := by
    intro empty
    have := Nat.length_repr_pos (n := position)
    rw [empty] at this
    cases this
  simp [initialEventCursor, filled, intOf_repr]

end Resume

end LocalFlow
