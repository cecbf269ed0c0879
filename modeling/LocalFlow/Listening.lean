import LocalFlow.EventChannel

/-! What the listeners of the page are called with: every channel is a client of the streams that
connects again where it was, and hands on what it receives. -/
namespace LocalFlow
open Transition

/-- A channel as a client of the streams. -/
def Channel.view (db : Db) (channel : Channel) : Feed :=
  ⟨db, channel.sockets.head?.bind BrowserSocket.stream,
    ⟨channel.first, channel.cursor, channel.received⟩, channel.gone⟩

/-- No listener throws. -/
def ChannelAct.calm : ChannelAct → Bool
  | .message _ throws => throws.isNone
  | _ => true

def PageAct.calm : PageAct → Bool
  | .channel _ act => act.calm
  | _ => true

section Refinement
variable {channel after : Channel} {db : Db} {socket : BrowserSocket} {number handle : Nat}
  {act : ChannelAct}

theorem view_single (single : channel.sockets = [socket]) :
    channel.view db = channel.feed db socket := by
  simp [Channel.view, Channel.feed, single]

/-- What `onmessage` does to the client. -/
theorem onMessage_client (message : FeedMessage) :
    (⟨(channel.onMessage number message none).first, (channel.onMessage number message none).cursor,
      (channel.onMessage number message none).received⟩ : Subscriber) =
      Subscriber.receive ⟨channel.first, channel.cursor, channel.received⟩ message := by
  cases message <;> simp [Channel.onMessage, Channel.threw, Subscriber.receive, Channel.alive]

theorem onMessage_rest (message : FeedMessage) (throws : Option Nat) :
    (channel.onMessage number message throws).sockets = channel.sockets ∧
      (channel.onMessage number message throws).gone = channel.gone := by
  unfold Channel.onMessage
  dsimp only
  split
  · exact ⟨rfl, rfl⟩
  · split <;> exact ⟨rfl, rfl⟩

theorem found_single (condition : Condition channel) (isFound : channel.find number = some socket) :
    channel.sockets = [socket] ∧ socket.number = number := by
  have none_or : channel.sockets = [] ∨ ∃ other, channel.sockets = [other] := by
    cases condition with
    | live other kept welcome single => exact .inr ⟨other, single⟩
    | waiting _ _ _ _ none => exact .inl none
    | refused _ _ none => exact .inl none
    | closed _ _ left => exact left.imp_right (fun left => left.imp (fun _ both => both.1))
  obtain none | ⟨other, single⟩ := none_or
  · rw [Channel.find_none none] at isFound
    cases isFound
  · obtain ⟨rfl, same⟩ := Channel.find_single single isFound
    exact ⟨single, same⟩

/-- A server step, the way the client sees it. -/
theorem resuming_of {s t : Feed} {step : FeedAct} (moved : s.next step = some t)
    (quiet : ∀ db, step ≠ .store db)
    (resumes : s.Resumes step) : Run Resuming s [step] t :=
  .single ⟨⟨fun db isStore => absurd isStore (quiet db), moved⟩, resumes⟩

theorem refines_serve {step : FeedAct} (condition : Condition channel)
    (moved : channel.next db (.serve number step) = some after) :
    Run Resuming (channel.view db) [step] (after.view db) := by
  obtain ⟨found, isFound, moved⟩ := Option.bind_eq_some_iff.mp moved
  rw [Option.ite_none_right_eq_some] at moved
  obtain ⟨server, moved⟩ := moved
  obtain ⟨feed, served, rfl⟩ := Option.map_eq_some_iff.mp moved
  obtain ⟨single, rfl⟩ := found_single condition isFound
  obtain ⟨sameDb, sameClient, _⟩ := serve_frame server served
  have seen : Channel.view db
    { channel.replace { found with stream := feed.connection } with gone := feed.gone } = feed := by
    obtain ⟨db', connection, client, gone⟩ := feed
    cases sameDb
    cases sameClient
    rw [Channel.view]
    dsimp only
    rw [Channel.replace_single single]
    rfl
  rw [view_single single, seen]
  refine resuming_of served ?_ ?_
  · rintro other rfl
    cases server
  · cases step with
    | connect => cases server
    | _ => trivial

theorem refines_opened (condition : Condition channel)
    (moved : channel.next db (.opened number) = some after) :
    ∃ acts, Run Resuming (channel.view db) acts (after.view db) := by
  obtain ⟨found, isFound, moved⟩ := Option.bind_eq_some_iff.mp moved
  rw [Option.ite_none_right_eq_some] at moved
  obtain ⟨⟨unopened, stays⟩, moved⟩ := moved
  obtain ⟨feed, connects, rfl⟩ := Option.map_eq_some_iff.mp moved
  obtain ⟨_, _, single, rfl, _, attached, fresh, _⟩ := condition_heard condition isFound stays
  obtain ⟨nothing, here⟩ := fresh unopened
  have seen : Channel.view db
    ((channel.replace { found with opened := true, stream := feed.connection }).alive found.number) =
      feed := by
    rw [Feed.next, if_neg (by simp [Channel.feed, nothing])] at connects
    cases connects
    rw [Channel.view]
    dsimp only [Channel.alive]
    rw [Channel.replace_single single]
    rfl
  dsimp only
  rw [if_pos attached, view_single single, seen]
  refine ⟨_, resuming_of connects (fun _ same => ?_) (fun position isPosition => .inl ?_)⟩
  · cases same
  · rw [here]
    exact isPosition

theorem refines_message (condition : Condition channel)
    (moved : channel.next db (.message number none) = some after) :
    Run Resuming (channel.view db) [.receive] (after.view db) := by
  obtain ⟨found, isFound, moved⟩ := Option.bind_eq_some_iff.mp moved
  split at moved
  · next transport cursor page half message wire isStream =>
    rw [Option.ite_none_right_eq_some] at moved
    obtain ⟨⟨_, stays⟩, moved⟩ := moved
    cases moved
    obtain ⟨_, _, single, rfl, _, attached, _, _⟩ := condition_heard condition isFound stays
    rw [if_pos attached, view_single single]
    have rest := Channel.replace_single single found.opened (some ⟨transport, cursor, page, half, wire⟩)
    generalize isTaken :
      channel.replace { found with stream := some ⟨transport, cursor, page, half, wire⟩ } =
        taken at rest
    have client : (⟨taken.first, taken.cursor, taken.received⟩ : Subscriber) =
        ⟨channel.first, channel.cursor, channel.received⟩ := by
      rw [← isTaken]
      rfl
    obtain ⟨sockets, gone⟩ := @onMessage_rest taken found.number message none
    have seen : (taken.onMessage found.number message none).view db =
        ⟨db, some ⟨transport, cursor, page, half, wire⟩,
          Subscriber.receive ⟨channel.first, channel.cursor, channel.received⟩ message,
            channel.gone⟩ := by
      rw [Channel.view, sockets, gone, rest, onMessage_client, client, ← isTaken]
      rfl
    rw [seen]
    refine resuming_of ?_ (fun _ same => ?_) trivial
    · rw [Feed.next, Channel.feed]
      dsimp only
      rw [isStream]
    · cases same
  · cases moved

/-- When the connection ends the stream does. -/
theorem refines_ended {code : Nat} (condition : Condition channel)
    (moved : channel.next db (.ended number code) = some after) :
    ∃ acts, Run Resuming (channel.view db) acts (after.view db) := by
  obtain ⟨found, isFound, rfl⟩ := Option.map_eq_some_iff.mp moved
  obtain ⟨single, rfl⟩ := found_single condition isFound
  obtain ⟨left, isLeft⟩ : ∃ left : Channel, left =
    { channel with sockets := channel.sockets.filter (fun other => other.number ≠ found.number) } :=
      ⟨_, rfl⟩
  have none : left.sockets = [] := by simp [isLeft, single]
  have client : left.view db = { channel.feed db found with connection := .none } := by
    rw [Channel.view, none, isLeft]
    rfl
  have seen : Channel.view db (if found.attached then left.onClose code else left) = left.view db := by
    split
    · unfold Channel.onClose
      dsimp only
      split <;> rfl
    · rfl
  dsimp only
  rw [← isLeft, seen, client, view_single single]
  by_cases streams : (channel.feed db found).connection.isSome = true
  · refine ⟨[.disconnect], resuming_of ?_ (fun _ same => ?_) trivial⟩
    · rw [Feed.next, if_pos streams]
    · cases same
  · have nothing : (channel.feed db found).connection = .none :=
      Option.not_isSome_iff_eq_none.mp streams
    rw [← nothing]
    exact ⟨[], .nil _⟩

theorem view_connect : channel.connect.view db = channel.view db := by
  unfold Channel.connect
  split
  · rfl
  · cases sockets : channel.sockets <;> simp [Channel.view, Channel.alive, sockets]

theorem refines_fire (moved : channel.next db (.fire handle) = some after) :
    after.view db = channel.view db := by
  obtain ⟨timeout, _, rfl⟩ := Option.map_eq_some_iff.mp moved
  dsimp only
  split
  · exact view_connect
  · next number isClose =>
    cases sockets : channel.sockets with
    | nil => simp [Channel.view, Channel.closeSocket, sockets]
    | cons socket rest =>
      simp only [Channel.view, Channel.closeSocket, sockets, List.map_cons, List.head?_cons,
        Option.bind_some]
      split <;> rfl

/-- A step of a channel is one of a client that connects from where it is, or none at all. -/
theorem refines_next (condition : Condition channel) (calm : act.calm = true)
    (moved : channel.next db act = some after) :
    ∃ acts, Run Resuming (channel.view db) acts (after.view db) := by
  cases act with
  | serve number step => exact ⟨_, refines_serve condition moved⟩
  | opened number => exact refines_opened condition moved
  | message number throws =>
    obtain rfl := Option.isNone_iff_eq_none.mp calm
    exact ⟨_, refines_message condition moved⟩
  | heartbeat number =>
    obtain ⟨found, isFound, moved⟩ := Option.bind_eq_some_iff.mp moved
    rw [Option.ite_none_right_eq_some] at moved
    obtain ⟨_, moved⟩ := moved
    cases moved
    refine ⟨[], ?_⟩
    split <;> exact .nil _
  | ended number code => exact refines_ended condition moved
  | fire handle =>
    rw [refines_fire moved]
    exact ⟨[], .nil _⟩

end Refinement

/-! ## The listeners -/

/-- A listener has been called with what was received while it was there, of its name, each once and
in order. -/
structure Heard (received : List EventRecord) (listener : Listener) : Prop where
  starts : listener.since ≤ listener.upto.getD received.length
  ends : listener.upto.getD received.length ≤ received.length
  calls : listener.calls =
    ((received.take (listener.upto.getD received.length)).drop listener.since).filter
      (fun event => event.kind = listener.name)

/-- What the page has decided about a listener. -/
def Listener.key (listener : Listener) : (Nat × Nat) × String × Option Nat :=
  (listener.id, listener.name, listener.upto)

section Listeners
variable {channel after : Channel} {db : Db} {act : ChannelAct} {event : EventRecord}
  {listener : Listener}
variable {received : List EventRecord}

/-- A call, where the listener is there and the name is its own. -/
def Listener.called (event : EventRecord) (listener : Listener) : Listener :=
  if listener.upto = none ∧ listener.name = event.kind then
    { listener with calls := listener.calls ++ [event] } else listener

theorem dispatch_calm (listeners : List Listener) :
    Channel.dispatch event none listeners = listeners.map (Listener.called event) := by
  induction listeners with
  | nil => rfl
  | cons listener rest ih =>
    rw [Channel.dispatch, List.map_cons, Listener.called]
    split <;> simp [ih]

theorem dispatch_keys (throws : Option Nat) (listeners : List Listener) :
    (Channel.dispatch event throws listeners).map Listener.key = listeners.map Listener.key := by
  induction listeners generalizing throws with
  | nil => simp [Channel.dispatch]
  | cons listener rest ih =>
    simp only [Channel.dispatch]
    split
    · rw [List.map_cons, List.map_cons]
      split
      · rfl
      · rw [ih]
        rfl
      · rw [ih]
        rfl
    · rw [List.map_cons, List.map_cons, ih]

theorem heard_called (heard : Heard received listener) :
    Heard (received ++ [event]) (listener.called event) := by
  obtain ⟨starts, ends, calls⟩ := heard
  unfold Listener.called
  cases upto : listener.upto with
  | some last =>
    rw [upto] at starts ends calls
    simp only [Option.getD_some] at starts ends calls
    rw [if_neg (by simp)]
    refine ⟨?_, ?_, ?_⟩
    · simpa [upto] using starts
    · simp only [upto, Option.getD_some, List.length_append, List.length_singleton]
      omega
    · rw [upto, Option.getD_some, List.take_append_of_le_length ends]
      exact calls
  | none =>
    rw [upto] at starts ends calls
    simp only [Option.getD_none, List.take_length] at starts ends calls
    have longer : (received ++ [event]).drop listener.since = received.drop listener.since ++ [event] :=
      List.drop_append_of_le_length starts
    have window : Heard (received ++ [event]) { listener with
        calls := (received.drop listener.since ++ [event]).filter
          (fun event => event.kind = listener.name) } := by
      refine ⟨?_, ?_, ?_⟩
      · simp only [upto, Option.getD_none, List.length_append]
        omega
      · simp [upto]
      · simp only [upto, Option.getD_none, List.take_length, longer]
    rw [List.filter_append, ← calls] at window
    split
    · next named => simpa [List.filter_singleton, named.2, upto] using window
    · next other =>
      have named : event.kind ≠ listener.name := fun same => other ⟨rfl, same.symm⟩
      simpa [List.filter_singleton, named] using window

theorem heard_drop (heard : Heard channel.received listener) :
    Heard channel.received (channel.drop listener) := by
  unfold Channel.drop
  split
  · next there =>
    obtain ⟨starts, ends, calls⟩ := heard
    rw [there] at starts calls
    exact ⟨starts, le_rfl, calls⟩
  · exact heard

theorem heard_new (id : Nat × Nat) (name : String) :
    Heard received ⟨id, name, received.length, none, []⟩ := by
  refine ⟨le_rfl, le_rfl, ?_⟩
  simp

/-- Only a message changes the listeners and what was received. -/
theorem next_rest (moved : channel.next db act = some after) :
    (after.listeners = channel.listeners ∧ after.received = channel.received ∧
      after.closed = channel.closed) ∨
      ∃ number throws event, act = .message number throws ∧
        after.listeners = Channel.dispatch event throws channel.listeners ∧
        after.closed = channel.closed ∧
        (after.received = channel.received ++ [event] ∨ throws ≠ none ∧
          after.received = channel.received) := by
  cases act with
  | serve number step =>
    obtain ⟨found, _, moved⟩ := Option.bind_eq_some_iff.mp moved
    rw [Option.ite_none_right_eq_some] at moved
    obtain ⟨feed, _, rfl⟩ := Option.map_eq_some_iff.mp moved.2
    exact .inl ⟨rfl, rfl, rfl⟩
  | opened number =>
    obtain ⟨found, _, moved⟩ := Option.bind_eq_some_iff.mp moved
    rw [Option.ite_none_right_eq_some] at moved
    obtain ⟨feed, _, rfl⟩ := Option.map_eq_some_iff.mp moved.2
    left
    dsimp only
    split <;> exact ⟨rfl, rfl, rfl⟩
  | message number throws =>
    obtain ⟨found, _, moved⟩ := Option.bind_eq_some_iff.mp moved
    split at moved
    · next message wire _ =>
      rw [Option.ite_none_right_eq_some] at moved
      obtain ⟨_, moved⟩ := moved
      cases moved
      split
      · unfold Channel.onMessage
        dsimp only
        split
        · exact .inl ⟨rfl, rfl, rfl⟩
        · next event _ =>
          refine .inr ⟨number, throws, event, rfl, ?_⟩
          split
          · next threw =>
            refine ⟨rfl, rfl, .inr ⟨?_, rfl⟩⟩
            rintro rfl
            cases threw
          · exact ⟨rfl, rfl, .inl rfl⟩
      · exact .inl ⟨rfl, rfl, rfl⟩
    · cases moved
  | heartbeat number =>
    obtain ⟨found, _, moved⟩ := Option.bind_eq_some_iff.mp moved
    rw [Option.ite_none_right_eq_some] at moved
    obtain ⟨_, moved⟩ := moved
    cases moved
    left
    split <;> exact ⟨rfl, rfl, rfl⟩
  | ended number code =>
    obtain ⟨found, _, rfl⟩ := Option.map_eq_some_iff.mp moved
    left
    dsimp only
    split
    · unfold Channel.onClose
      dsimp only
      split <;> exact ⟨rfl, rfl, rfl⟩
    · exact ⟨rfl, rfl, rfl⟩
  | fire handle =>
    obtain ⟨timeout, _, rfl⟩ := Option.map_eq_some_iff.mp moved
    left
    dsimp only
    split
    · unfold Channel.connect
      split <;> exact ⟨rfl, rfl, rfl⟩
    · exact ⟨rfl, rfl, rfl⟩

/-- No step adds a listener or takes one away, or closes the channel. -/
theorem next_keys (moved : channel.next db act = some after) :
    after.listeners.map Listener.key = channel.listeners.map Listener.key ∧
      after.closed = channel.closed := by
  obtain ⟨listeners, _, closed⟩ | ⟨_, throws, event, _, listeners, closed, _⟩ := next_rest moved
  · exact ⟨by rw [listeners], closed⟩
  · exact ⟨by rw [listeners, dispatch_keys], closed⟩

theorem heard_next (heard : ∀ listener ∈ channel.listeners, Heard channel.received listener)
    (calm : act.calm = true)
    (moved : channel.next db act = some after) :
    ∀ listener ∈ after.listeners, Heard after.received listener := by
  obtain ⟨listeners, received, _⟩ | ⟨_, throws, event, rfl, listeners, _, received⟩ := next_rest moved
  · rw [listeners, received]
    exact heard
  · obtain rfl := Option.isNone_iff_eq_none.mp calm
    rw [listeners, received.resolve_right (fun never => never.1 rfl), dispatch_calm]
    intro listener member
    obtain ⟨old, isOld, rfl⟩ := List.mem_map.mp member
    exact heard_called (heard old isOld)

end Listeners

end LocalFlow
