import LocalFlow.Streaming

/-! What a client receives over all its connections: no event twice, none out of order, and none
missing that was there when it was polled. -/
namespace LocalFlow
open Transition

/-! ## What is ahead of the client -/

/-- A client at `position` that receives the messages in order is at `last` then. An event that they
leave out is gone. -/
inductive Ahead (events : Events) (gone : List EventRecord) :
    Option Nat → List FeedMessage → Nat → Prop where
  | nil (cursor) : Ahead events gone (some cursor) [] cursor
  | ready : position = none ∨ position = some cursor → Ahead events gone (some cursor) messages last →
    Ahead events gone position (.ready cursor :: messages) last
  | event : cursor < event.id → event ∈ events.history →
    (∀ x ∈ events.history, cursor < x.id → x.id < event.id → x ∈ gone) →
    Ahead events gone (some event.id) messages last →
      Ahead events gone (some cursor) (.event event :: messages) last

section Order
variable {events next : Events} {gone more : List EventRecord} {position : Option Nat}
  {cursor last : Nat}
  {messages later : List FeedMessage} {event x : EventRecord}

namespace Ahead

theorem append (first : Ahead events gone position messages cursor)
    (second : Ahead events gone (some cursor) later last) :
    Ahead events gone position (messages ++ later) last := by
  induction first with
  | nil => exact second
  | ready place _ ih => exact .ready place (ih second)
  | event above stored between _ ih => exact .event above stored between (ih second)

/-- New events have ids above those of the messages, so they leave nothing out. -/
theorem grow (ahead : Ahead events gone position messages last) (sane : events.Sane)
    (accrues : Accrues events next)
    (rest : ∀ x ∈ gone, x ∈ more) : Ahead next more position messages last := by
  induction ahead with
  | nil => exact .nil _
  | ready place _ ih => exact .ready place ih
  | event above stored between _ ih =>
    refine .event above (accrues.kept _ stored) (fun x member low high => ?_) ih
    obtain old | new := accrues.fresh x member
    · exact rest x (between x old low high)
    · have := sane.below _ stored
      omega

/-- What a client does with its next message. -/
theorem receives {message : FeedMessage}
    (ahead : Ahead events gone position (message :: messages) last) :
    (∃ id, message = .ready id ∧ (position = none ∨ position = some id) ∧
      Ahead events gone (some id) messages last) ∨
      ∃ cursor event, message = .event event ∧ position = some cursor ∧
        Ahead events gone (some cursor) [.event event] event.id ∧
          Ahead events gone (some event.id) messages last := by
  cases ahead with
  | @ready _ id _ _ place tail => exact .inl ⟨id, rfl, place, tail⟩
  | @event cursor event _ _ above stored between tail =>
    exact .inr ⟨cursor, event, rfl, rfl, .event above stored between (.nil event.id), tail⟩

theorem le_last (ahead : Ahead events gone (some cursor) messages last) : cursor ≤ last := by
  obtain ⟨position, isPosition⟩ : ∃ position, position = some cursor := ⟨_, rfl⟩
  rw [← isPosition] at ahead
  induction ahead generalizing cursor with
  | nil =>
    cases isPosition
    exact le_rfl
  | ready place _ ih =>
    obtain nowhere | same := place
    · rw [nowhere] at isPosition
      cases isPosition
    · rw [same] at isPosition
      exact ih isPosition
  | event above _ _ _ ih =>
    cases isPosition
    exact (Nat.le_of_lt above).trans (ih rfl)

/-- Every event that the messages carry comes after the position. -/
theorem above (ahead : Ahead events gone (some cursor) messages last)
    (carried : .event event ∈ messages) :
    cursor < event.id ∧ event.id ≤ last ∧ event ∈ events.history := by
  obtain ⟨position, isPosition⟩ : ∃ position, position = some cursor := ⟨_, rfl⟩
  rw [← isPosition] at ahead
  induction ahead generalizing cursor with
  | nil => cases carried
  | ready place tail ih =>
    obtain nowhere | same := place
    · rw [nowhere] at isPosition
      cases isPosition
    · rw [same] at isPosition
      obtain _ | ⟨_, carried⟩ := carried
      exact ih carried isPosition
  | event higher stored between tail ih =>
    cases isPosition
    obtain _ | ⟨_, carried⟩ := carried
    · exact ⟨higher, tail.le_last, stored⟩
    · obtain ⟨low, rest⟩ := ih carried rfl
      exact ⟨higher.trans low, rest⟩

theorem increasing {received : List EventRecord}
    (ahead : Ahead events gone (some cursor) (received.map FeedMessage.event) last) :
    received.Pairwise (fun a b => a.id < b.id) := by
  induction received generalizing cursor with
  | nil => exact .nil
  | cons event received ih =>
    cases ahead with
    | event _ _ _ tail =>
      refine .cons (fun x member => ?_) (ih tail)
      exact (tail.above (List.mem_map_of_mem member)).1

/-- An event after the position that is not after all messages is in one of them, or gone. -/
theorem covers (ahead : Ahead events gone (some cursor) messages last) (sane : events.Sane)
    (stored : x ∈ events.history)
    (low : cursor < x.id) (high : x.id ≤ last) : .event x ∈ messages ∨ x ∈ gone := by
  obtain ⟨position, isPosition⟩ : ∃ position, position = some cursor := ⟨_, rfl⟩
  rw [← isPosition] at ahead
  induction ahead generalizing cursor with
  | nil =>
    cases isPosition
    omega
  | ready place tail ih =>
    obtain nowhere | same := place
    · rw [nowhere] at isPosition
      cases isPosition
    · rw [same] at isPosition
      exact (ih low high isPosition).imp_left (List.mem_cons_of_mem _)
  | @event _ event _ _ higher here between tail ih =>
    cases isPosition
    obtain before | same | after := Nat.lt_trichotomy x.id event.id
    · exact .inr (between x stored low before)
    · rw [sane.unique stored here same]
      exact .inl List.mem_cons_self
    · exact (ih after high rfl).imp_left (List.mem_cons_of_mem _)

/-- Rows in ascending order are ahead of a cursor, where what they leave out is gone. -/
theorem ofPage {page : List EventRecord} (ascending : page.Pairwise (fun a b => a.id < b.id))
    (stored : ∀ event ∈ page, cursor < event.id ∧ event ∈ events.history)
    (between : ∀ x ∈ events.history, cursor < x.id → ∀ event ∈ page, x.id ≤ event.id → x ∈ page ∨
      x ∈ gone) :
    Ahead events gone (some cursor) (page.map FeedMessage.event)
    ((page.getLast?.map EventRecord.id).getD cursor) := by
  induction page generalizing cursor with
  | nil => exact .nil cursor
  | cons event page ih =>
    obtain ⟨first, rest⟩ := List.pairwise_cons.mp ascending
    obtain ⟨above, here⟩ := stored event List.mem_cons_self
    have last : (((event :: page).getLast?).map EventRecord.id).getD cursor =
        ((page.getLast?).map EventRecord.id).getD event.id := by
      cases page with
      | nil => rfl
      | cons second page => simp [List.getLast?_cons]
    rw [last]
    refine .event above here (fun x member low high => ?_) (ih rest ?_ ?_)
    · obtain found | gone := between x member low event List.mem_cons_self (Nat.le_of_lt high)
      · obtain rfl | found := List.mem_cons.mp found
        · exact absurd high (Nat.lt_irrefl _)
        · exact absurd (first x found) (by omega)
      · exact gone
    · intro x member
      exact ⟨first x member, (stored x (List.mem_cons_of_mem _ member)).2⟩
    · intro x member low last member' high
      obtain found | gone :=
        between x member (above.trans low) last (List.mem_cons_of_mem _ member') high
      · obtain rfl | found := List.mem_cons.mp found
        · exact absurd low (Nat.lt_irrefl _)
        · exact .inl found
      · exact .inr gone

end Ahead

end Order

/-! ## The invariant -/

/-- The last event that was polled. -/
def FeedConnection.last (connection : FeedConnection) : Nat :=
  (connection.found.getLast?.map EventRecord.id).getD connection.cursor

structure Coherent (s : Feed) : Prop where
  sane : s.db.events.Sane
  buried : ∀ event ∈ s.gone, event ∈ s.db.events.deleted
  fresh : s.subscriber.position = none → s.subscriber.first = none ∧ s.subscriber.received = []
  received : ∀ position, s.subscriber.position = some position →
    ∃ first, s.subscriber.first = some first ∧
    Ahead s.db.events s.gone (some first) (s.subscriber.received.map FeedMessage.event) position
  ahead : ∀ connection, s.connection = some connection →
    Ahead s.db.events s.gone s.subscriber.position connection.ahead connection.last
  pass : ∀ connection, s.connection = some connection → connection.half = true →
    ∃ event rest, connection.found = event :: rest ∧
      (connection.transport = .sse → connection.cursor = event.id)

section Steps
variable {accepts : TaskCreate → Prop} {s t : Feed} {act : FeedAct} {acts : List FeedAct} {db : Db}
  {position : Nat}
  {event : EventRecord} {connection : FeedConnection}

theorem coherent_start (changes : Changes accepts Db.empty db) : Coherent (Feed.start db) where
  sane := sane_changes changes sane_empty
  buried := fun _ never => (nomatch never)
  fresh := fun _ => ⟨rfl, rfl⟩
  received := fun _ never => (nomatch never)
  ahead := fun _ never => (nomatch never)
  pass := fun _ never => (nomatch never)

theorem coherent_store (coherent : Coherent s) (edit : Edit accepts s.db db) :
    Coherent { s with db } where
  sane := sane_edit edit coherent.sane
  buried := fun event member => (accrues_edit edit).deleted event (coherent.buried event member)
  fresh := coherent.fresh
  received := by
    intro position isPosition
    obtain ⟨first, isFirst, ahead⟩ := coherent.received position isPosition
    exact ⟨first, isFirst, ahead.grow coherent.sane (accrues_edit edit) (fun _ member => member)⟩
  ahead := by
    intro connection connected
    exact (coherent.ahead connection connected).grow coherent.sane (accrues_edit edit)
      (fun _ member => member)
  pass := coherent.pass

/-- The cursor of a stream is the position of the client, where it has one. -/
theorem resumed_cursor {transport : Transport} {after : Option Nat} {lastEventId : Option String}
    (resumes : s.Resumes (.connect transport after lastEventId))
    (isPosition : s.subscriber.position = some position) :
    initialEventCursor s.db.events after (if transport = .sse then lastEventId
      else none) = position := by
  obtain rfl | ⟨rfl, rfl, rfl⟩ := resumes position isPosition
  · rfl
  · exact initialEventCursor_header s.db.events

theorem starts_again {subscriber : Subscriber} {first : Nat} (isFirst : subscriber.first = some first)
    (isPosition : subscriber.position = some position) : subscriber.starts position = subscriber := by
  cases subscriber
  cases isFirst
  cases isPosition
  rfl

theorem coherent_connect {transport : Transport} {after : Option Nat} {lastEventId : Option String}
    (coherent : Coherent s)
    (resumes : s.Resumes (.connect transport after lastEventId)) :
    Coherent (s.connect transport after lastEventId) := by
  have resumed : ∀ position, s.subscriber.position = some position →
      initialEventCursor s.db.events after (if transport = .sse then lastEventId
        else none) = position :=
    fun _ isPosition => resumed_cursor resumes isPosition
  obtain ⟨cursor, isCursor⟩ : ∃ cursor, cursor =
      initialEventCursor s.db.events after (if transport = .sse then lastEventId else none) := ⟨_, rfl⟩
  rw [← isCursor] at resumed
  cases transport with
  | sse =>
    have same : s.connect .sse after lastEventId =
        { s with
          connection := some ⟨.sse, cursor, [], false, []⟩
          subscriber := s.subscriber.starts cursor } := by
      rw [isCursor]
      rfl
    rw [same]
    cases isPosition : s.subscriber.position with
    | none =>
      obtain ⟨noFirst, nothing⟩ := coherent.fresh isPosition
      have starts : s.subscriber.starts cursor = ⟨some cursor, some cursor, []⟩ := by
        simp [Subscriber.starts, isPosition, noFirst, nothing]
      constructor
      · exact coherent.sane
      · exact coherent.buried
      · intro never
        rw [starts] at never
        cases never
      · intro position at'
        rw [starts] at at' ⊢
        cases at'
        exact ⟨cursor, rfl, .nil cursor⟩
      · intro connection connected
        cases connected
        rw [starts]
        exact .nil cursor
      · intro connection connected half
        cases connected
        cases half
    | some position =>
      obtain rfl := resumed position isPosition
      obtain ⟨first, isFirst, received⟩ := coherent.received cursor isPosition
      rw [starts_again isFirst isPosition]
      constructor
      · exact coherent.sane
      · exact coherent.buried
      · exact coherent.fresh
      · exact coherent.received
      · intro connection connected
        cases connected
        rw [isPosition]
        exact .nil cursor
      · intro connection connected half
        cases connected
        cases half
  | websocket =>
    have same : s.connect .websocket after lastEventId =
        { s with connection := some ⟨.websocket, cursor, [], false, [.ready cursor]⟩ } := by
      rw [isCursor]
      rfl
    rw [same]
    constructor
    · exact coherent.sane
    · exact coherent.buried
    · exact coherent.fresh
    · exact coherent.received
    · intro connection connected
      cases connected
      refine .ready ?_ (.nil cursor)
      cases isPosition : s.subscriber.position with
      | none => exact .inl rfl
      | some position =>
        rw [resumed position isPosition]
        exact .inr rfl
    · intro connection connected half
      cases connected
      cases half

theorem last_page (found : List EventRecord) (transport : Transport) (cursor : Nat) (half : Bool)
    (wire : List FeedMessage) :
    FeedConnection.last ⟨transport, cursor, event :: found, half, wire⟩ =
      (found.getLast?.map EventRecord.id).getD event.id := by
  cases found with
  | nil => rfl
  | cons second found => simp [FeedConnection.last, List.getLast?_cons]

/-- A page is polled between two passes. -/
theorem poll_whole (coherent : Coherent s) (connected : s.connection = some connection)
    (empty : connection.found = []) :
    connection.half = false ∧ connection.ahead = connection.wire ∧
      connection.last = connection.cursor := by
  obtain ⟨transport, cursor, found, half, wire⟩ := connection
  obtain rfl : found = [] := empty
  cases half with
  | false => exact ⟨rfl, by simp [FeedConnection.ahead, FeedConnection.unsent], rfl⟩
  | true =>
    obtain ⟨_, _, filled, _⟩ := coherent.pass _ connected rfl
    cases filled

theorem poll_ahead (coherent : Coherent s) (connected : s.connection = some connection)
    (empty : connection.found = []) :
    FeedConnection.ahead { connection with found := s.db.events.after connection.cursor } =
      connection.ahead ++ (s.db.events.after connection.cursor).map FeedMessage.event := by
  obtain ⟨whole, wired, _⟩ := poll_whole coherent connected empty
  rw [wired]
  simp [FeedConnection.ahead, FeedConnection.unsent, whole]

theorem coherent_poll (coherent : Coherent s) (connected : s.connection = some connection)
    (empty : connection.found = []) :
    Coherent (s.poll connection) := by
  obtain ⟨whole, _, isLast⟩ := poll_whole coherent connected empty
  obtain ⟨covered, isCovered⟩ : ∃ covered, covered = s.db.events.deleted.filter (fun event =>
    connection.Covers s.db.events event) := ⟨_, rfl⟩
  have more : ∀ event ∈ s.gone, event ∈ s.gone ++ covered := fun event member =>
    List.mem_append_left _ member
  have same : Accrues s.db.events s.db.events :=
    ⟨fun _ member => member, fun _ => .inl, fun _ member => member⟩
  have polled : s.poll connection = { s with
      connection := some { connection with found := s.db.events.after connection.cursor }
      gone := s.gone ++ covered } := by
    rw [isCovered]
    rfl
  rw [polled]
  constructor
  · exact coherent.sane
  · intro event member
    obtain before | now := List.mem_append.mp member
    · exact coherent.buried event before
    · rw [isCovered] at now
      exact (List.mem_filter.mp now).1
  · exact coherent.fresh
  · intro position isPosition
    obtain ⟨first, isFirst, received⟩ := coherent.received position isPosition
    exact ⟨first, isFirst, received.grow coherent.sane same more⟩
  · intro _ now
    cases now
    have wired := (coherent.ahead _ connected).grow coherent.sane same more
    rw [isLast] at wired
    rw [poll_ahead coherent connected empty]
    refine wired.append (.ofPage after_ascending ?_ ?_)
    · intro event member
      exact ⟨(mem_after member).2, List.mem_append_left _ (mem_after member).1⟩
    · intro x member later last found high
      obtain stored | deleted := List.mem_append.mp member
      · obtain here | ⟨_, below⟩ := after_full stored later
        · exact .inl here
        · exact absurd (below last found) (by omega)
      · refine .inr (List.mem_append_right _ ?_)
        rw [isCovered]
        exact List.mem_filter.mpr ⟨deleted, decide_eq_true ⟨later, .inr ⟨last, found, high⟩⟩⟩
  · intro _ now half
    cases now
    rw [whole] at half
    cases half

/-- A state that differs in the connection only, with the same messages ahead. -/
theorem coherent_passed {other : FeedConnection} (coherent : Coherent s)
    (connected : s.connection = some connection)
    (ahead : other.ahead = connection.ahead) (last : other.last = connection.last)
    (pass : other.half = true →
      ∃ event rest, other.found = event :: rest ∧ (other.transport = .sse → other.cursor = event.id)) :
    Coherent { s with connection := some other } := by
  constructor
  · exact coherent.sane
  · exact coherent.buried
  · exact coherent.fresh
  · exact coherent.received
  · intro _ now
    cases now
    rw [ahead, last]
    exact coherent.ahead connection connected
  · intro _ now half
    cases now
    exact pass half

/-- Half a pass of the loop moves a message from the page to the wire, or the cursor. -/
theorem begin_passes (moved : s.next .begin = some t) :
    ∃ connection other, s.connection = some connection ∧
    t = { s with connection := some other } ∧ other.ahead = connection.ahead ∧
      other.last = connection.last ∧
    (other.half = true → ∃ event rest, other.found = event :: rest ∧
      (other.transport = .sse → other.cursor = event.id)) := by
  rw [Feed.next] at moved
  split at moved
  · rename_i cursor event rest wire connected
    cases moved
    refine ⟨_, _, connected, rfl, rfl, ?_, fun _ => ⟨event, rest, rfl, fun _ => rfl⟩⟩
    rw [last_page, last_page]
  · rename_i cursor event rest wire connected
    cases moved
    refine ⟨_, _, connected, rfl, ?_, ?_, fun _ => ⟨event, rest, rfl, fun never => nomatch never⟩⟩
    · simp [FeedConnection.ahead, FeedConnection.unsent]
    · rw [last_page, last_page]
  · cases moved

theorem finish_passes (coherent : Coherent s) (moved : s.next .finish = some t) : ∃ connection other,
    s.connection = some connection ∧ t = { s with connection := some other } ∧
      other.ahead = connection.ahead ∧
    other.last = connection.last ∧ other.half = false := by
  rw [Feed.next] at moved
  split at moved
  · rename_i cursor event rest wire connected
    cases moved
    obtain ⟨_, _, isFound, atEvent⟩ := coherent.pass _ connected rfl
    cases isFound
    obtain rfl : cursor = event.id := atEvent rfl
    refine ⟨_, _, connected, rfl, ?_, ?_, rfl⟩
    · simp [FeedConnection.ahead, FeedConnection.unsent]
    · rw [last_page]
      rfl
  · rename_i cursor event rest wire connected
    cases moved
    refine ⟨_, _, connected, rfl, ?_, ?_, rfl⟩
    · simp [FeedConnection.ahead, FeedConnection.unsent]
    · rw [last_page]
      rfl
  · cases moved

theorem coherent_receive (coherent : Coherent s) (moved : s.next .receive = some t) : Coherent t := by
  rw [Feed.next] at moved
  split at moved
  · rename_i transport cursor found half message wire connected
    cases moved
    have ahead := coherent.ahead _ connected
    have isAhead : FeedConnection.ahead ⟨transport, cursor, found, half, message :: wire⟩ =
        message :: FeedConnection.ahead ⟨transport, cursor, found, half, wire⟩ := rfl
    rw [isAhead] at ahead
    have pass : ∀ connection,
      some (FeedConnection.mk transport cursor found half wire) = some connection →
        connection.half = true → ∃ event rest, connection.found = event :: rest ∧
          (connection.transport = .sse → connection.cursor = event.id) := by
      intro connection now
      cases now
      exact coherent.pass ⟨transport, cursor, found, half, message :: wire⟩ connected
    obtain ⟨id, rfl, place, tail⟩ | ⟨position, event, rfl, isPosition, step, tail⟩ := ahead.receives
    · constructor
      · exact coherent.sane
      · exact coherent.buried
      · intro never
        cases never
      · intro position isId
        cases isId
        obtain nowhere | isPosition := place
        · obtain ⟨noFirst, nothing⟩ := coherent.fresh nowhere
          refine ⟨id, by simp [Subscriber.receive, noFirst], ?_⟩
          simpa [Subscriber.receive, nothing] using Ahead.nil id
        · obtain ⟨first, isFirst, received⟩ := coherent.received id isPosition
          exact ⟨first, by simp [Subscriber.receive, isFirst], received⟩
      · intro connection now
        cases now
        exact tail
      · exact pass
    · constructor
      · exact coherent.sane
      · exact coherent.buried
      · intro never
        cases never
      · intro last isLast
        cases isLast
        obtain ⟨first, isFirst, received⟩ := coherent.received position isPosition
        refine ⟨first, isFirst, ?_⟩
        simpa [Subscriber.receive] using received.append step
      · intro connection now
        cases now
        exact tail
      · exact pass
  · cases moved

theorem coherent_step (coherent : Coherent s) (step : Resuming s act t) : Coherent t := by
  obtain ⟨⟨edits, moved⟩, resumes⟩ := step
  cases act with
  | store db =>
    cases moved
    exact coherent_store coherent (edits db rfl)
  | connect transport after lastEventId =>
    rw [Feed.next] at moved
    split at moved
    · cases moved
    · cases moved
      exact coherent_connect coherent resumes
  | poll =>
    rw [Feed.next] at moved
    split at moved
    · rename_i connection connected
      split at moved
      · cases moved
        exact coherent_poll coherent connected ‹_›
      · cases moved
    · cases moved
  | begin =>
    obtain ⟨connection, other, connected, rfl, ahead, last, pass⟩ := begin_passes moved
    exact coherent_passed coherent connected ahead last pass
  | finish =>
    obtain ⟨connection, other, connected, rfl, ahead, last, whole⟩ := finish_passes coherent moved
    refine coherent_passed coherent connected ahead last (fun half => ?_)
    rw [whole] at half
    cases half
  | receive => exact coherent_receive coherent moved
  | disconnect =>
    rw [Feed.next] at moved
    split at moved
    · cases moved
      constructor
      · exact coherent.sane
      · exact coherent.buried
      · exact coherent.fresh
      · exact coherent.received
      · intro _ never
        cases never
      · intro _ never
        cases never
    · cases moved

theorem coherent_run (changes : Changes accepts Db.empty db)
    (run : Run Resuming (Feed.start db) acts s) : Coherent s :=
  run.invariant coherent_step (coherent_start changes)

/-- In a run from a state the event was deleted, and then there was a poll that has a place for it. -/
def Purged (start : Feed) (acts : List FeedAct) (event : EventRecord) : Prop :=
  ∃ before later middle connection, acts = before ++ .poll :: later ∧ Run Resuming start before middle ∧
    middle.connection = some connection ∧ event ∈ middle.db.events.deleted ∧
      connection.Covers middle.db.events event

theorem purged_step (step : Resuming s act t) (gone : event ∈ t.gone) :
    event ∈ s.gone ∨ act = .poll ∧ ∃ connection, s.connection = some connection ∧
      event ∈ s.db.events.deleted ∧
      connection.Covers s.db.events event := by
  obtain ⟨⟨_, moved⟩, _⟩ := step
  cases act with
  | poll =>
    rw [Feed.next] at moved
    split at moved
    · rename_i connection connected
      split at moved
      · cases moved
        refine (List.mem_append.mp gone).imp_right (fun now => ⟨rfl, connection, connected, ?_⟩)
        obtain ⟨deleted, covered⟩ := List.mem_filter.mp now
        exact ⟨deleted, of_decide_eq_true covered⟩
      · cases moved
    · cases moved
  | store db =>
    cases moved
    exact .inl gone
  | connect transport after lastEventId =>
    rw [Feed.next] at moved
    split at moved
    · cases moved
    · cases moved
      cases transport <;> exact .inl gone
  | begin | finish | receive | disconnect =>
    rw [Feed.next] at moved
    split at moved <;> cases moved <;> exact .inl gone

theorem purged_run (run : Run Resuming s acts t) (gone : event ∈ t.gone) :
    event ∈ s.gone ∨ Purged s acts event := by
  induction run with
  | nil => exact .inl gone
  | @cons s act middle acts t step later ih =>
    obtain early | ⟨before, rest, last, connection, rfl, run, found⟩ := ih gone
    · obtain before | ⟨rfl, connection, found⟩ := purged_step step early
      · exact .inl before
      · exact .inr ⟨[], acts, s, connection, rfl, .nil s, found⟩
    · exact .inr ⟨act :: before, rest, last, connection, rfl, .cons step run, found⟩

end Steps

/-! ## Delivery -/

section Progress
variable {s t : Feed} {act : FeedAct} {event : EventRecord} {connection : FeedConnection} {first : Nat}

/-- What a step does to a connection that lasts: a poll adds a page, the client takes the next
message, or nothing changes in what is ahead. -/
theorem connected_step (coherent : Coherent s) (connected : s.connection = some connection)
    (lasts : act ≠ .disconnect)
    (moved : s.next act = some t) : ∃ other, t.connection = some other ∧
      ((act = .poll ∧ connection.found = [] ∧ t = s.poll connection ∧
          other = { connection with found := s.db.events.after connection.cursor }) ∨
        (act = .receive ∧ other.last = connection.last ∧ ∃ message, connection.ahead = message ::
          other.ahead ∧
          t.subscriber = s.subscriber.receive message) ∨
        (act ≠ .poll ∧ act ≠ .receive ∧ other.last = connection.last ∧ other.ahead = connection.ahead ∧
          t.subscriber = s.subscriber)) := by
  cases act with
  | store db =>
    cases moved
    exact ⟨connection, connected, .inr (.inr ⟨nofun, nofun, rfl, rfl, rfl⟩)⟩
  | connect transport after lastEventId =>
    rw [Feed.next, connected] at moved
    cases moved
  | poll =>
    rw [Feed.next, connected] at moved
    split at moved
    · rename_i same
      cases same
      split at moved
      · rename_i empty
        cases moved
        exact ⟨_, rfl, .inl ⟨rfl, empty, rfl, rfl⟩⟩
      · cases moved
    · cases moved
  | begin =>
    obtain ⟨before, other, isBefore, rfl, ahead, last, _⟩ := begin_passes moved
    obtain rfl : connection = before := Option.some.inj (connected.symm.trans isBefore)
    exact ⟨other, rfl, .inr (.inr ⟨nofun, nofun, last, ahead, rfl⟩)⟩
  | finish =>
    obtain ⟨before, other, isBefore, rfl, ahead, last, _⟩ := finish_passes coherent moved
    obtain rfl : connection = before := Option.some.inj (connected.symm.trans isBefore)
    exact ⟨other, rfl, .inr (.inr ⟨nofun, nofun, last, ahead, rfl⟩)⟩
  | receive =>
    rw [Feed.next, connected] at moved
    split at moved
    · rename_i message wire same
      cases same
      cases moved
      exact ⟨_, rfl, .inr (.inl ⟨rfl, rfl, message, rfl, rfl⟩)⟩
    · cases moved
  | disconnect => exact absurd rfl lasts

/-- The event is on the way to the client, or there. -/
def Sent (event : EventRecord) (s : Feed) : Prop :=
  event ∈ s.subscriber.received ∨ ∃ connection, s.connection = some connection ∧
    .event event ∈ connection.ahead

theorem received_step (received : event ∈ s.subscriber.received) (moved : s.next act = some t) :
    event ∈ t.subscriber.received := by
  cases act with
  | receive =>
    rw [Feed.next] at moved
    split at moved
    · rename_i message wire connected
      cases moved
      cases message with
      | ready id => exact received
      | event other => exact List.mem_append_left _ received
    · cases moved
  | store db =>
    cases moved
    exact received
  | connect transport after lastEventId =>
    rw [Feed.next] at moved
    split at moved
    · cases moved
    · cases moved
      cases transport <;> exact received
  | poll =>
    rw [Feed.next] at moved
    split at moved
    · split at moved <;> cases moved
      exact received
    · cases moved
  | begin | finish | disconnect =>
    rw [Feed.next] at moved
    split at moved <;> cases moved <;> exact received

/-- What is not after the last poll is on the way, or was deleted in time. -/
theorem sent_of_last (coherent : Coherent s) (isFirst : s.subscriber.first = some first)
    (later : first < event.id)
    (member : event ∈ s.db.events.history) (connected : s.connection = some connection)
    (polled : event.id ≤ connection.last) : Sent event s ∨ event ∈ s.gone := by
  cases isPosition : s.subscriber.position with
  | none =>
    rw [(coherent.fresh isPosition).1] at isFirst
    cases isFirst
  | some position =>
    obtain ⟨first', same, received⟩ := coherent.received position isPosition
    obtain rfl : first = first' := Option.some.inj (isFirst.symm.trans same)
    have ahead := coherent.ahead connection connected
    rw [isPosition] at ahead
    by_cases passed : event.id ≤ position
    · obtain found | gone := received.covers coherent.sane member later passed
      · obtain ⟨same, taken, isSame⟩ := List.mem_map.mp found
        cases isSame
        exact .inl (.inl taken)
      · exact .inr gone
    · obtain found | gone := ahead.covers coherent.sane member (by omega) polled
      · exact .inl (.inr ⟨connection, connected, found⟩)
      · exact .inr gone

theorem first_receive {message : FeedMessage} {subscriber : Subscriber}
    (isFirst : subscriber.first = some first) :
    (subscriber.receive message).first = some first := by
  cases message <;> simp [Subscriber.receive, isFirst]

theorem history_step (member : event ∈ s.db.events.history) (step : Resuming s act t) :
    event ∈ t.db.events.history := by
  obtain ⟨⟨edits, moved⟩, _⟩ := step
  cases act with
  | store db =>
    cases moved
    exact (accrues_edit (edits db rfl)).kept event member
  | connect transport after lastEventId =>
    rw [Feed.next] at moved
    split at moved
    · cases moved
    · cases moved
      cases transport <;> exact member
  | poll =>
    rw [Feed.next] at moved
    split at moved
    · split at moved <;> cases moved
      exact member
    · cases moved
  | begin | finish | receive | disconnect =>
    rw [Feed.next] at moved
    split at moved <;> cases moved <;> exact member

/-- Until the event is polled every poll gets closer to it. -/
theorem approach_step (coherent : Coherent s) (isFirst : s.subscriber.first = some first)
    (later : first < event.id)
    (member : event ∈ s.db.events.history) (connected : s.connection = some connection)
    (lasts : act ≠ .disconnect)
    (step : Resuming s act t) : (Sent event t ∨ event ∈ t.gone) ∨ t.subscriber.first = some first ∧
      ∃ other, t.connection = some other ∧ other.last < event.id ∧ connection.last ≤ other.last ∧
        (act = .poll → connection.last < other.last) := by
  obtain ⟨other, connected', change⟩ := connected_step coherent connected lasts step.1.2
  have kept : t.subscriber.first = some first := by
    obtain ⟨_, _, rfl, _⟩ | ⟨_, _, message, _, same⟩ | ⟨_, _, _, _, same⟩ := change
    · exact isFirst
    · rw [same]
      exact first_receive isFirst
    · rw [same]
      exact isFirst
  by_cases reached : event.id ≤ other.last
  · exact .inl (sent_of_last (coherent_step coherent step) kept later
      (history_step member step) connected' reached)
  obtain ⟨isPoll, empty, rfl, rfl⟩ | ⟨isReceive, last, _⟩ | ⟨noPoll, _, last, _⟩ := change
  · obtain ⟨_, _, isLast⟩ := poll_whole coherent connected empty
    obtain ⟨found, isFound⟩ : ∃ found, found = s.db.events.after connection.cursor := ⟨_, rfl⟩
    rw [← isFound] at reached connected'
    cases ending : found.getLast? with
    | none =>
      -- on an empty page there is a place for the event, which is not stored then
      obtain rfl := List.getLast?_eq_none_iff.mp ending
      have short : connection.cursor < event.id := Nat.lt_of_not_le reached
      obtain stored | deleted := List.mem_append.mp member
      · obtain here | ⟨full, _⟩ := after_full stored short
        · rw [← isFound] at here
          cases here
        · rw [← isFound] at full
          cases full
      · have covered : connection.Covers s.db.events event := by
          refine ⟨short, .inl ?_⟩
          rw [← isFound]
          decide
        exact .inl (.inr (List.mem_append_right _
          (List.mem_filter.mpr ⟨deleted, decide_eq_true covered⟩)))
    | some final =>
      have above := (mem_after (isFound ▸ List.mem_of_getLast? ending)).2
      have isFinal : FeedConnection.last { connection with found } = final.id := by
        simp [FeedConnection.last, ending]
      rw [isFinal] at reached
      refine .inr ⟨kept, _, connected', ?_⟩
      rw [isFinal, isLast]
      exact ⟨by omega, Nat.le_of_lt above, fun _ => above⟩
  · refine .inr ⟨kept, other, connected', by omega, last ▸ le_rfl, fun isPoll => ?_⟩
    rw [isReceive] at isPoll
    cases isPoll
  · exact .inr ⟨kept, other, connected', by omega, last ▸ le_rfl, fun isPoll => absurd isPoll noPoll⟩

/-- The messages before the event with this id. -/
def messagesBefore (id : Nat) (messages : List FeedMessage) : Nat :=
  messages.findIdx (fun | .event event => event.id == id | .ready _ => false)

theorem messagesBefore_append {messages more : List FeedMessage} (member : .event event ∈ messages) :
    messagesBefore event.id (messages ++ more) = messagesBefore event.id messages := by
  unfold messagesBefore
  rw [List.findIdx_append, if_pos (List.findIdx_lt_length_of_exists ⟨_, member, by simp⟩)]

/-- An event on the way gets there, a message at a time. -/
theorem arrive_step (coherent : Coherent s) (connected : s.connection = some connection)
    (member : .event event ∈ connection.ahead) (lasts : act ≠ .disconnect)
    (moved : s.next act = some t) : event ∈ t.subscriber.received ∨ ∃ other, t.connection = some other ∧
      .event event ∈ other.ahead ∧
        messagesBefore event.id other.ahead ≤ messagesBefore event.id connection.ahead ∧
      (act = .receive → messagesBefore event.id other.ahead <
        messagesBefore event.id connection.ahead) := by
  obtain ⟨other, connected', change⟩ := connected_step coherent connected lasts moved
  obtain ⟨isPoll, empty, _, rfl⟩ | ⟨isReceive, _, message, isAhead, same⟩ | ⟨_, noReceive, _, same,
    _⟩ := change
  · refine .inr ⟨_, connected', ?_⟩
    rw [poll_ahead coherent connected empty, messagesBefore_append member]
    refine ⟨List.mem_append_left _ member, le_rfl, fun isReceive => ?_⟩
    rw [isPoll] at isReceive
    cases isReceive
  · have ahead := coherent.ahead connection connected
    rw [isAhead] at ahead member ⊢
    obtain isMessage | rest := List.mem_cons.mp member
    · left
      rw [same, ← isMessage]
      exact List.mem_append_right _ List.mem_cons_self
    · right
      -- the first message is another one, and ids are not given out twice
      have apart : messagesBefore event.id (message :: other.ahead) =
        messagesBefore event.id other.ahead + 1 := by
        obtain ⟨id, rfl, _⟩ | ⟨cursor, first, rfl, _, here, tail⟩ := ahead.receives
        · simp [messagesBefore, List.findIdx_cons]
        · have higher := (tail.above rest).1
          have differs : (first.id == event.id) = false := by
            rw [beq_eq_false_iff_ne]
            omega
          simp [messagesBefore, List.findIdx_cons, differs]
      rw [apart]
      exact ⟨other, connected', rest, by omega, fun _ => by omega⟩
  · refine .inr ⟨other, connected', ?_⟩
    rw [same]
    exact ⟨member, le_rfl, fun isReceive => absurd isReceive noReceive⟩

/-- An event gets to a client whose connection lasts, or is deleted in time, where the server goes
on polling and the client receiving. -/
theorem delivered (e : Execution Resuming) (coherent : Coherent (e.state 0))
    (connected : (e.state 0).connection.isSome)
    (lasts : ∀ n, e.label n ≠ .disconnect) (polls : ∀ n, ∃ m, n ≤ m ∧ e.label m = .poll)
    (receives : ∀ n connection, (e.state n).connection = some connection → connection.wire ≠ [] →
      ∃ m, n ≤ m ∧ e.label m = .receive)
    (isFirst : (e.state 0).subscriber.first = some first) (later : first < event.id)
    (member : event ∈ (e.state 0).db.events.history) :
    ∃ n, event ∈ (e.state n).subscriber.received ∨ event ∈ (e.state n).gone := by
  have sound : ∀ n, Coherent (e.state n) := by
    intro n
    induction n with
    | zero => exact coherent
    | succ n ih => exact coherent_step ih (e.next n)
  have recorded : ∀ n, event ∈ (e.state n).db.events.history := by
    intro n
    induction n with
    | zero => exact member
    | succ n ih => exact history_step ih (e.next n)
  -- first the event is polled
  have sent : ∃ n, Sent event (e.state n) ∨ event ∈ (e.state n).gone := by
    obtain ⟨connection, isConnected⟩ := Option.isSome_iff_exists.mp connected
    by_cases early : event.id ≤ connection.last
    · exact ⟨0, sent_of_last coherent isFirst later member isConnected early⟩
    let live : Feed → Prop := fun s => s.subscriber.first = some first ∧
      ∃ connection, s.connection = some connection ∧ connection.last < event.id
    let goal : Feed → Prop := fun s => Sent event s ∨ event ∈ s.gone
    let rank : Feed → Nat := fun s => event.id - (s.connection.map FeedConnection.last).getD 0
    have approaches : ∀ n, live (e.state n) → goal (e.state (n + 1)) ∨ live (e.state (n + 1)) ∧
        rank (e.state (n + 1)) ≤ rank (e.state n) ∧
        (e.label n = .poll → rank (e.state (n + 1)) < rank (e.state n)) := by
      rintro n ⟨isFirst, connection, isConnected, low⟩
      obtain sent | ⟨isFirst', other, isConnected', low', rises, strictly⟩ :=
        approach_step (sound n) isFirst later
        (recorded n) isConnected (lasts n) (e.next n)
      · exact .inl sent
      · refine .inr ⟨⟨isFirst', other, isConnected', low'⟩, ?_⟩
        simp only [rank, isConnected, isConnected', Option.map_some, Option.getD_some]
        refine ⟨by omega, fun isPoll => ?_⟩
        have := strictly isPoll
        omega
    obtain ⟨n, _, sent⟩ := @Execution.eventually_of_rank _ _ _ _ 0 _ _ e live goal (· = .poll) rank
      (fun n _ => (polls n).imp (fun _ found => ⟨found.1, .inr found.2⟩))
      (fun n alive => (approaches n alive).imp_right (fun next => ⟨next.1, next.2.1⟩))
      (fun n alive isPoll => (approaches n alive).imp_right (fun next => ⟨next.1, next.2.2 isPoll⟩))
      ⟨isFirst, connection, isConnected, by omega⟩
    exact ⟨n, sent⟩
  obtain ⟨start, (received | onTheWay) | gone⟩ := sent
  · exact ⟨start, .inl received⟩
  swap
  · exact ⟨start, .inr gone⟩
  -- and then the messages before it are received
  let goal : Feed → Prop := fun s => event ∈ s.subscriber.received
  let live : Feed → Prop := fun s => ∃ connection, s.connection = some connection ∧
    .event event ∈ connection.ahead
  let rank : Feed → Nat := fun s =>
    (s.connection.map (fun connection => messagesBefore event.id connection.ahead)).getD 0
  have arrives : ∀ n, live (e.state n) → goal (e.state (n + 1)) ∨ live (e.state (n + 1)) ∧
      rank (e.state (n + 1)) ≤ rank (e.state n) ∧
      (e.label n = .receive → rank (e.state (n + 1)) < rank (e.state n)) := by
    rintro n ⟨connection, isConnected, member⟩
    obtain received | ⟨other, isConnected', member', falls, strictly⟩ :=
      arrive_step (sound n) isConnected member (lasts n) (e.next n).1.2
    · exact .inl received
    · refine .inr ⟨⟨other, isConnected', member'⟩, ?_⟩
      simp only [rank, isConnected, isConnected', Option.map_some, Option.getD_some]
      exact ⟨falls, strictly⟩
  have fair : ∀ n, live (e.state n) → ∃ m, n ≤ m ∧ (goal (e.state m) ∨ e.label m = .receive) := by
    intro n alive
    obtain ⟨m, after, isPoll⟩ := polls n
    have still : live (e.state m) ∨ goal (e.state m) := by
      refine e.stable (P := fun s => live s ∨ goal s) ?_ (.inl alive) after
      rintro k (alive | received)
      · exact (arrives k alive).symm.imp_left And.left
      · exact .inr (received_step received (e.next k).1.2)
    obtain ⟨connection, isConnected, member⟩ | received := still
    · -- at a poll the page is empty, so the event is on the wire
      obtain ⟨other, _, change⟩ := connected_step (sound m) isConnected (lasts m) (e.next m).1.2
      obtain ⟨_, empty, _⟩ | ⟨isReceive, _⟩ | ⟨noPoll, _⟩ := change
      · rw [(poll_whole (sound m) isConnected empty).2.1] at member
        obtain ⟨k, later, isReceive⟩ := receives m connection isConnected (List.ne_nil_of_mem member)
        exact ⟨k, after.trans later, .inr isReceive⟩
      · exact ⟨m, after, .inr isReceive⟩
      · exact absurd isPoll noPoll
    · exact ⟨m, after, .inl received⟩
  obtain ⟨n, _, received⟩ :=
    @Execution.eventually_of_rank _ _ _ _ start _ _ e live goal (· = .receive) rank fair
    (fun n alive => (arrives n alive).imp_right (fun next => ⟨next.1, next.2.1⟩))
    (fun n alive isReceive =>
      (arrives n alive).imp_right (fun next => ⟨next.1, next.2.2 isReceive⟩)) onTheWay
  exact ⟨n, .inl received⟩

end Progress

/-- Whatever the store does and wherever the connections end, a client that connects again from
where it was receives the events in the order of their ids, none of them twice, and each one after
its first cursor that was not deleted before the poll that has a place for it. No id is given out
twice. -/
theorem stream_delivers {db : Db} {acts : List FeedAct} {s : Feed}
    (changes : Changes (fun _ => True) Db.empty db)
    (run : Run Resuming (Feed.start db) acts s) :
    (s.db.events.history.map EventRecord.id).Nodup ∧
      s.subscriber.received.Pairwise (fun a b => a.id < b.id) ∧
      (∀ event ∈ s.subscriber.received, event ∈ s.db.events.history ∧
        ∃ first, s.subscriber.first = some first ∧ first < event.id) ∧
      (∀ first position, s.subscriber.first = some first → s.subscriber.position = some position →
        ∀ event ∈ s.db.events.history, first < event.id → event.id ≤ position →
          event ∈ s.subscriber.received ∨ Purged (Feed.start db) acts event) ∧
      ∀ e : Execution Resuming, e.state 0 = s → s.connection.isSome → (∀ n, e.label n ≠ .disconnect) →
        (∀ n, ∃ m, n ≤ m ∧ e.label m = .poll) →
        (∀ n connection, (e.state n).connection = some connection → connection.wire ≠ [] →
          ∃ m, n ≤ m ∧ e.label m = .receive) →
        ∀ first event, s.subscriber.first = some first → first < event.id →
          event ∈ s.db.events.history →
          ∃ n, event ∈ (e.state n).subscriber.received ∨
            Purged (Feed.start db) (acts ++ (List.range n).map e.label) event := by
  have coherent := coherent_run changes run
  have nothing : s.subscriber.position = none → s.subscriber.received = [] := fun nowhere =>
    (coherent.fresh nowhere).2
  refine ⟨coherent.sane.distinct, ?_, ?_, ?_, ?_⟩
  · cases isPosition : s.subscriber.position with
    | none =>
      rw [nothing isPosition]
      exact .nil
    | some position =>
      obtain ⟨first, _, received⟩ := coherent.received position isPosition
      exact received.increasing
  · intro event member
    cases isPosition : s.subscriber.position with
    | none =>
      rw [nothing isPosition] at member
      cases member
    | some position =>
      obtain ⟨first, isFirst, received⟩ := coherent.received position isPosition
      obtain ⟨above, _, stored⟩ := received.above (List.mem_map_of_mem member)
      exact ⟨stored, first, isFirst, above⟩
  · intro first position isFirst isPosition event member low high
    obtain ⟨first', same, received⟩ := coherent.received position isPosition
    obtain rfl : first = first' := Option.some.inj (isFirst.symm.trans same)
    obtain carried | gone := received.covers coherent.sane member low high
    · obtain ⟨_, taken, isSame⟩ := List.mem_map.mp carried
      cases isSame
      exact .inl taken
    · exact .inr ((purged_run run gone).resolve_left (fun never => nomatch never))
  · rintro e rfl connected lasts polls receives first event isFirst later member
    obtain ⟨n, received | gone⟩ :=
      delivered e coherent connected lasts polls receives isFirst later member
    · exact ⟨n, .inl received⟩
    · exact ⟨n, .inr ((purged_run (run.append (e.run n)) gone).resolve_left
        (fun never => nomatch never))⟩

/-- Three events, of which the second is deleted before the first poll. The client loses its
connection after the first event and before the server moves its cursor, and connects again over the
other transport. -/
theorem stream_delivers_reconnect : ∃ acts s, Run Resuming (Feed.start Db.empty) acts s ∧
    s.subscriber.received.map EventRecord.id = [1, 3] ∧
      s.subscriber.received.Pairwise (fun a b => a.id < b.id) ∧
    ∀ event ∈ s.db.events.history, event.id ≤ 3 → 0 < event.id →
      event ∈ s.subscriber.received ∨ Purged (Feed.start Db.empty) acts event := by
  let one := Db.empty.addEvent "" none "config_changed"
  let two := one.addEvent "" none "config_changed"
  let three := two.addEvent "" none "config_changed"
  let less : Db := { three with events := three.events.delete (fun event => event.id == 2) }
  have stores {s : Feed} {db : Db} (edit : Edit (fun _ => True) s.db db) : Resuming s (.store db)
    { s with db } := by
    refine ⟨⟨fun other isOther => ?_, rfl⟩, trivial⟩
    cases isOther
    exact edit
  have connects {s t : Feed} {transport : Transport} {after : Option Nat} {header : Option String}
      (moved : s.next (.connect transport after header) = some t)
      (resumes : s.Resumes (.connect transport after header)) : Resuming s
        (.connect transport after header) t :=
    ⟨⟨nofun, moved⟩, resumes⟩
  have run : ∃ s, Run Resuming (Feed.start Db.empty)
    [.connect .websocket none none, .receive, .store one, .store two,
      .store three, .store less, .poll, .begin, .receive, .disconnect, .connect .sse (some 1) none,
        .poll, .begin,
      .finish, .receive] s ∧ s.subscriber = ⟨some 0, some 3, less.events.rows⟩ := by
    exact ⟨_, .cons (by exact connects rfl nofun) <| .cons (by exact ⟨⟨nofun, rfl⟩, trivial⟩) <|
      .cons (by exact stores (.event rfl)) <| .cons (by exact stores (.event rfl)) <|
      .cons (by exact stores (.event rfl)) <| .cons (by exact stores (.forget _)) <|
      .cons (by exact ⟨⟨nofun, rfl⟩, trivial⟩) <| .cons (by exact ⟨⟨nofun, rfl⟩, trivial⟩) <|
      .cons (by exact ⟨⟨nofun, rfl⟩, trivial⟩) <| .cons (by exact ⟨⟨nofun, rfl⟩, trivial⟩) <|
      .cons (by exact connects rfl (fun _ isPosition => .inl isPosition)) <|
      .cons (by exact ⟨⟨nofun, rfl⟩, trivial⟩) <| .cons (by exact ⟨⟨nofun, rfl⟩, trivial⟩) <|
      .cons (by exact ⟨⟨nofun, rfl⟩, trivial⟩) <| .cons (by exact ⟨⟨nofun, rfl⟩, trivial⟩) <|
        .nil _, rfl⟩
  obtain ⟨s, run, isSubscriber⟩ := run
  obtain ⟨_, increasing, _, complete, _⟩ := stream_delivers .refl run
  refine ⟨_, s, run, ?_, increasing, fun event member low high => ?_⟩
  · rw [isSubscriber]
    rfl
  · exact complete 0 3 (by rw [isSubscriber]) (by rw [isSubscriber]) event member high low

end LocalFlow
