import LocalFlow.Delivering

/-! The event channel of the web page: its socket, the timeouts that watch it and connect it again,
its listeners, and the consumers that share it. -/
namespace LocalFlow
open Transition

/-! ## The browser -/

inductive TimeoutCall where
  | connect
  | close (socket : Nat)

/-- What `setTimeout` has been asked for and has not run. -/
structure Timeout where
  handle : Nat
  call : TimeoutCall
  delay : Nat

/-- A WebSocket whose close event has not come. `leaving` is one that `close` was called on,
`attached` one that has its handlers; `stream` is what the server sends it. -/
structure BrowserSocket where
  number : Nat
  after : Option Nat
  opened : Bool
  leaving : Bool
  attached : Bool
  stream : Option FeedConnection

/-- A function in the sets of `listeners`, the `id.2`-th that consumer `id.1` has added. History
variables: what the channel had received when it was added and when it was removed, and what it has
been called with. -/
structure Listener where
  id : Nat × Nat
  name : String
  since : Nat
  upto : Option Nat
  calls : List EventRecord

/-- The variables of `createEventChannel`. History variables: the first cursor, what was received,
what was deleted before a poll, and whether the server has refused. -/
structure Channel where
  closed : Bool
  listeners : List Listener
  sockets : List BrowserSocket
  socket : Nat
  timeouts : List Timeout
  timer : Option Nat
  watchdog : Option Nat
  cursor : Option Nat
  attempts : Nat
  handles : Nat
  first : Option Nat
  received : List EventRecord
  gone : List EventRecord
  refused : Bool

namespace Channel
variable (channel : Channel)

/-- The timeouts without that of a handle, which may be none or one that has run. -/
def cleared (handle : Option Nat) : List Timeout :=
  channel.timeouts.filter (fun timeout => some timeout.handle ≠ handle)

/-- `alive`. -/
def alive (number : Nat) : Channel :=
  { channel with
    timeouts := channel.cleared channel.watchdog ++ [⟨channel.handles, .close number, 45000⟩]
    watchdog := some channel.handles
    handles := channel.handles + 1 }

/-- `connect`. -/
def connect : Channel :=
  if channel.closed then channel
  else
    let opening : Channel := { channel with
      sockets := channel.sockets ++ [⟨channel.socket + 1, channel.cursor, false, false, true, none⟩]
      socket := channel.socket + 1 }
    opening.alive (channel.socket + 1)

/-- `createEventChannel`. -/
def create : Channel := connect ⟨false, [], [], 0, [], none, none, none, 0, 0, none, [], [], false⟩

/-- `listener(...)` for each function of a set, unless one throws: `throws` is how many have
returned by then. -/
def dispatch (event : EventRecord) : Option Nat → List Listener → List Listener
  | _, [] => []
  | throws, listener :: rest =>
    if listener.upto = none ∧ listener.name = event.kind then
      { listener with calls := listener.calls ++ [event] } ::
        (match throws with
        | some 0 => rest
        | some (more + 1) => dispatch event (some more) rest
        | none => dispatch event none rest)
    else listener :: dispatch event throws rest

def threw (event : EventRecord) (throws : Option Nat) : Bool :=
  throws.any (fun more =>
    more < channel.listeners.countP (fun listener => listener.upto = none ∧ listener.name = event.kind))

/-- `onmessage`. -/
def onMessage (number : Nat) (message : FeedMessage) (throws : Option Nat) : Channel :=
  let awake : Channel := alive { channel with attempts := 0 } number
  match message with
  | .ready id => { awake with cursor := some id, first := some (channel.first.getD id) }
  | .event event =>
    let called := { awake with listeners := dispatch event throws channel.listeners }
    if channel.threw event throws then called
    else { called with cursor := some event.id, received := channel.received ++ [event] }

/-- `Math.min(1000 * 2 ** Math.min(attempts, 5), 30000)`. -/
def delay (attempts : Nat) : Nat := min (1000 * 2 ^ min attempts 5) 30000

/-- `onclose`. -/
def onClose (code : Nat) : Channel :=
  let unwatched := { channel with timeouts := channel.cleared channel.watchdog }
  if channel.closed = false ∧ code ∉ [4400, 4403] then
    { unwatched with
      timeouts := unwatched.timeouts ++ [⟨channel.handles, .connect, delay channel.attempts⟩]
      timer := some channel.handles
      handles := channel.handles + 1
      attempts := channel.attempts + 1 }
  else { unwatched with refused := true }

/-- `close` of a socket. -/
def closeSocket (number : Nat) : List BrowserSocket :=
  channel.sockets.map (fun socket => if socket.number = number then { socket with leaving := true }
    else socket)

/-- `addEventListener`. -/
def addEventListener (name : String) (id : Nat × Nat) : Channel :=
  { channel with listeners := channel.listeners ++ [⟨id, name, channel.received.length, none, []⟩] }

/-- A listener is taken out of its set. -/
def drop (listener : Listener) : Listener :=
  if listener.upto = none then { listener with upto := some channel.received.length } else listener

/-- `removeEventListener`. -/
def removeEventListener (name : String) (id : Nat × Nat) : Channel :=
  { channel with
    listeners := channel.listeners.map (fun listener =>
      if listener.name = name ∧ listener.id = id then channel.drop listener else listener) }

/-- `close`. -/
def close : Channel :=
  { channel with
    closed := true
    timeouts := (channel.cleared channel.timer).filter
      (fun timeout => some timeout.handle ≠ channel.watchdog)
    sockets := channel.sockets.map (fun socket =>
      if socket.number = channel.socket then { socket with leaving := true, attached := false }
        else socket)
    listeners := channel.listeners.map channel.drop }

/-- The stream of one socket and the client behind it. -/
def feed (db : Db) (socket : BrowserSocket) : Feed :=
  ⟨db, socket.stream, ⟨channel.first, channel.cursor, channel.received⟩, channel.gone⟩

end Channel

/-- What happens to a channel from outside: a half of what the server does, or an event of the
browser. -/
inductive ChannelAct where
  | serve (number : Nat) (act : FeedAct)
  | opened (number : Nat)
  | message (number : Nat) (throws : Option Nat)
  | heartbeat (number : Nat)
  | ended (number code : Nat)
  | fire (handle : Nat)

/-- The halves of the server's loop. -/
def FeedAct.isServer : FeedAct → Bool
  | .poll | .begin | .finish => true
  | _ => false

namespace Channel
variable (db : Db) (channel : Channel)

def find (number : Nat) : Option BrowserSocket :=
  channel.sockets.find? (fun socket => socket.number = number)

def replace (socket : BrowserSocket) : Channel :=
  { channel with
    sockets := channel.sockets.map (fun other => if other.number = socket.number then socket
      else other) }

def next : ChannelAct → Option Channel
  | .serve number act =>
    (channel.find number).bind (fun socket =>
      if act.isServer then
        ((channel.feed db socket).next act).map (fun feed =>
          { channel.replace { socket with stream := feed.connection } with gone := feed.gone })
      else none)
  | .opened number =>
    (channel.find number).bind (fun socket =>
      if socket.opened = false ∧ socket.leaving = false then
        ((channel.feed db socket).next (.connect .websocket socket.after none)).map (fun feed =>
          let accepted := channel.replace { socket with opened := true, stream := feed.connection }
          if socket.attached then accepted.alive number else accepted)
      else none)
  | .message number throws =>
    (channel.find number).bind (fun socket =>
      match socket.stream with
      | some ⟨transport, cursor, found, half, message :: wire⟩ =>
        if socket.opened = true ∧ socket.leaving = false then
          let taken := channel.replace
            { socket with stream := some ⟨transport, cursor, found, half, wire⟩ }
          some (if socket.attached then taken.onMessage number message throws else taken)
        else none
      | _ => none)
  | .heartbeat number =>
    (channel.find number).bind (fun socket =>
      if socket.opened = true ∧ socket.leaving = false then
        some (if socket.attached then alive { channel with attempts := 0 } number else channel)
      else none)
  | .ended number code =>
    (channel.find number).map (fun socket =>
      let left :=
        { channel with sockets := channel.sockets.filter (fun other => other.number ≠ number) }
      if socket.attached then left.onClose code else left)
  | .fire handle =>
    (channel.timeouts.find? (fun timeout => timeout.handle = handle)).map (fun timeout =>
      let rest := { channel with timeouts := channel.cleared (some handle) }
      match timeout.call with
      | .connect => rest.connect
      | .close number => { rest with sockets := rest.closeSocket number })

end Channel

/-! ## The page -/

/-- What `eventChannel` returns to a consumer. -/
structure Consumer where
  channel : Nat
  registrations : List (String × (Nat × Nat))
  closed : Bool

/-- The page with all the channels it has created. -/
structure Page where
  db : Db
  channels : List Channel
  sharedChannel : Option Nat
  consumers : Int
  handed : List Consumer

inductive PageAct where
  | store (db : Db)
  | eventChannel
  | addEventListener (consumer : Nat) (name : String)
  | close (consumer : Nat)
  | channel (index : Nat) (act : ChannelAct)

namespace Page
variable (s : Page)

def start (db : Db) : Page := ⟨db, [], none, 0, []⟩

def modify (index : Nat) (change : Channel → Channel) : List Channel := s.channels.modify index change

/-- `eventChannel`. -/
def eventChannel : Page :=
  match s.sharedChannel with
  | some index => { s with consumers := s.consumers + 1, handed := s.handed ++ [⟨index, [], false⟩] }
  | none =>
    { s with
      channels := s.channels ++ [Channel.create]
      sharedChannel := some s.channels.length
      consumers := s.consumers + 1
      handed := s.handed ++ [⟨s.channels.length, [], false⟩] }

/-- `addEventListener` of a consumer. -/
def addEventListener (consumer : Nat) (name : String) : Option Page :=
  s.handed[consumer]?.map (fun own =>
    if own.closed then s
    else
      let owned := (consumer, own.registrations.length)
      { s with
        handed := s.handed.set consumer
          { own with registrations := own.registrations ++ [(name, owned)] }
        channels := s.modify own.channel (fun channel => channel.addEventListener name owned) })

/-- `close` of a consumer. -/
def close (consumer : Nat) : Option Page :=
  s.handed[consumer]?.map (fun own =>
    if own.closed then s
    else
      let left := { s with
        handed := s.handed.set consumer { own with closed := true }
        channels := s.modify own.channel (fun channel =>
          own.registrations.foldl (fun channel registration =>
            channel.removeEventListener registration.1 registration.2) channel)
        consumers := s.consumers - 1 }
      if left.consumers = 0 then
        { left with channels := left.modify own.channel Channel.close, sharedChannel := none }
      else left)

def next : PageAct → Option Page
  | .store db => some { s with db }
  | .eventChannel => some s.eventChannel
  | .addEventListener consumer name => s.addEventListener consumer name
  | .close consumer => s.close consumer
  | .channel index act =>
    s.channels[index]?.bind (fun channel =>
      (channel.next s.db act).map (fun after => { s with channels := s.channels.set index after }))

/-- A statement of the store is an edit. -/
def Step (act : PageAct) (t : Page) : Prop :=
  (∀ db, act = .store db → Edit (fun _ => True) s.db db) ∧ s.next act = some t

end Page

/-! ## The connection -/

/-- How a channel is connected. The server is watched, a new attempt is due, the server has refused,
or the page has closed the channel, which nothing calls any more. -/
inductive Condition (channel : Channel) : Prop where
  | live (socket : BrowserSocket) (kept : channel.closed = false) (welcome : channel.refused = false)
    (single : channel.sockets = [socket]) (current : socket.number = channel.socket)
      (attached : socket.attached = true)
    (unopened : socket.opened = false → socket.stream = none ∧ socket.after = channel.cursor)
    (watched : channel.timeouts = [] ∧ socket.leaving = true ∨
      ∃ handle, channel.timeouts = [⟨handle, .close socket.number, 45000⟩] ∧
        channel.watchdog = some handle)
  | waiting (handle delay : Nat) (kept : channel.closed = false) (welcome : channel.refused = false)
    (none : channel.sockets = []) (due : channel.timeouts = [⟨handle, .connect, delay⟩])
      (timer : channel.timer = some handle)
    (soon : 1000 ≤ delay ∧ delay ≤ 30000)
  | refused (kept : channel.closed = false) (unwelcome : channel.refused = true)
      (none : channel.sockets = [])
    (quiet : channel.timeouts = [])
  | closed (closed : channel.closed = true) (quiet : channel.timeouts = [])
    (left : channel.sockets = [] ∨ ∃ socket, channel.sockets = [socket] ∧ socket.attached = false ∧
      socket.leaving = true)

section Connection
variable {channel after : Channel} {db : Db} {socket other : BrowserSocket} {number handle : Nat}
  {act : ChannelAct}

namespace Channel

theorem find_single (single : channel.sockets = [socket]) (found : channel.find number = some other) :
    other = socket ∧ socket.number = number := by
  rw [find, single, List.find?_singleton] at found
  split at found
  · next same =>
    cases found
    exact ⟨rfl, of_decide_eq_true same⟩
  · cases found

theorem find_none (none : channel.sockets = []) : channel.find number = Option.none := by
  rw [find, none, List.find?_nil]

theorem replace_single (single : channel.sockets = [socket]) (opened : Bool)
    (stream : Option FeedConnection) :
    (channel.replace { socket with opened, stream }).sockets = [{ socket with opened, stream }] := by
  simp [replace, single]

end Channel

theorem delay_bounds (attempts : Nat) :
    1000 ≤ Channel.delay attempts ∧ Channel.delay attempts ≤ 30000 := by
  have positive : 0 < 2 ^ min attempts 5 := Nat.pow_pos (by decide)
  simp only [Channel.delay]
  omega

/-- Whatever is heard of the server, the watch begins anew. -/
theorem condition_alive (kept : channel.closed = false) (welcome : channel.refused = false)
    (single : channel.sockets = [socket])
    (current : socket.number = channel.socket) (attached : socket.attached = true)
    (opened : socket.opened = true)
    (watched : ∃ handle, channel.timeouts = [⟨handle, .close socket.number, 45000⟩] ∧
      channel.watchdog = some handle) :
    Condition (channel.alive socket.number) := by
  obtain ⟨handle, pending, isWatchdog⟩ := watched
  refine .live socket kept welcome single current attached (fun closed => ?_)
    (.inr ⟨channel.handles, ?_, rfl⟩)
  · rw [opened] at closed
    cases closed
  · simp [Channel.alive, Channel.cleared, pending, isWatchdog]

theorem condition_connect (kept : channel.closed = false) (welcome : channel.refused = false)
    (none : channel.sockets = [])
    (quiet : channel.timeouts = []) : Condition channel.connect := by
  rw [Channel.connect, if_neg (Bool.eq_false_iff.mp kept)]
  refine .live ⟨channel.socket + 1, channel.cursor, false, false, true,
    .none⟩ kept welcome ?_ rfl rfl (fun _ => ⟨rfl, rfl⟩)
    (.inr ⟨channel.handles, ?_, rfl⟩)
  · simp [Channel.alive, none]
  · simp [Channel.alive, Channel.cleared, quiet]

theorem condition_create : Condition Channel.create := condition_connect rfl rfl rfl rfl

/-- The server changes what it has for a socket, and no more. -/
theorem serve_frame {feed next : Feed} {step : FeedAct} (server : step.isServer = true)
    (moved : feed.next step = some next) :
    next.db = feed.db ∧ next.subscriber = feed.subscriber ∧ feed.connection.isSome = true := by
  cases step with
  | poll =>
    rw [Feed.next] at moved
    split at moved
    · next connected =>
      split at moved
      · cases moved
        exact ⟨rfl, rfl, by rw [connected]; rfl⟩
      · cases moved
    · cases moved
  | begin | finish =>
    rw [Feed.next] at moved
    split at moved
    · next connected =>
      cases moved
      exact ⟨rfl, rfl, by rw [connected]; rfl⟩
    · next connected =>
      cases moved
      exact ⟨rfl, rfl, by rw [connected]; rfl⟩
    · cases moved
  | _ => cases server

theorem condition_serve {step : FeedAct} (condition : Condition channel)
    (moved : channel.next db (.serve number step) = some after) :
    Condition after := by
  obtain ⟨found, isFound, moved⟩ := Option.bind_eq_some_iff.mp moved
  rw [Option.ite_none_right_eq_some] at moved
  obtain ⟨server, moved⟩ := moved
  obtain ⟨feed, served, rfl⟩ := Option.map_eq_some_iff.mp moved
  have streams := (serve_frame server served).2.2
  cases condition with
  | live socket kept welcome single current attached unopened watched =>
    obtain ⟨rfl, rfl⟩ := Channel.find_single single isFound
    refine .live { found with stream := feed.connection } kept welcome
      (Channel.replace_single single _ _) current attached
      (fun closed => ?_) watched
    have nothing : found.stream = none := (unopened closed).1
    have something : found.stream.isSome = true := streams
    rw [nothing] at something
    cases something
  | waiting _ _ _ _ none =>
    rw [Channel.find_none none] at isFound
    cases isFound
  | refused _ _ none =>
    rw [Channel.find_none none] at isFound
    cases isFound
  | closed closed quiet left =>
    refine .closed closed quiet ?_
    obtain none | ⟨socket, single, detached, leaving⟩ := left
    · rw [Channel.find_none none] at isFound
      cases isFound
    · obtain ⟨rfl, rfl⟩ := Channel.find_single single isFound
      exact .inr ⟨{ found with stream := feed.connection }, Channel.replace_single single _ _,
        detached, leaving⟩

/-- An event of a socket that is not being closed comes to a live channel. -/
theorem condition_heard (condition : Condition channel)
    (isFound : channel.find number = some socket) (stays : socket.leaving = false) :
    channel.closed = false ∧ channel.refused = false ∧ channel.sockets = [socket] ∧
      socket.number = number ∧
      socket.number = channel.socket ∧ socket.attached = true ∧
      (socket.opened = false → socket.stream = none ∧ socket.after = channel.cursor) ∧
      ∃ handle, channel.timeouts = [⟨handle, .close socket.number, 45000⟩] ∧
        channel.watchdog = some handle := by
  cases condition with
  | live found kept welcome single current attached unopened watched =>
    obtain ⟨rfl, same⟩ := Channel.find_single single isFound
    refine ⟨kept, welcome, single, same, current, attached, unopened, watched.resolve_left ?_⟩
    rintro ⟨_, leaving⟩
    rw [stays] at leaving
    cases leaving
  | waiting _ _ _ _ none =>
    rw [Channel.find_none none] at isFound
    cases isFound
  | refused _ _ none =>
    rw [Channel.find_none none] at isFound
    cases isFound
  | closed closed quiet left =>
    obtain none | ⟨found, single, detached, leaving⟩ := left
    · rw [Channel.find_none none] at isFound
      cases isFound
    · obtain ⟨rfl, _⟩ := Channel.find_single single isFound
      rw [stays] at leaving
      cases leaving

theorem condition_opened (condition : Condition channel)
    (moved : channel.next db (.opened number) = some after) : Condition after := by
  obtain ⟨found, isFound, moved⟩ := Option.bind_eq_some_iff.mp moved
  rw [Option.ite_none_right_eq_some] at moved
  obtain ⟨⟨_, stays⟩, moved⟩ := moved
  obtain ⟨feed, served, rfl⟩ := Option.map_eq_some_iff.mp moved
  obtain ⟨kept, welcome, single, rfl, current, attached, _, watched⟩ :=
    condition_heard condition isFound stays
  dsimp only
  rw [if_pos attached]
  exact @condition_alive _ { found with opened := true, stream := feed.connection } kept welcome
    (Channel.replace_single single _ _) current attached rfl watched

theorem condition_heartbeat (condition : Condition channel)
    (moved : channel.next db (.heartbeat number) = some after) :
    Condition after := by
  obtain ⟨found, isFound, moved⟩ := Option.bind_eq_some_iff.mp moved
  rw [Option.ite_none_right_eq_some] at moved
  obtain ⟨⟨opened, stays⟩, moved⟩ := moved
  cases moved
  obtain ⟨kept, welcome, single, rfl, current, attached, _, watched⟩ :=
    condition_heard condition isFound stays
  rw [if_pos attached]
  exact @condition_alive
    { channel with attempts := 0 } found kept welcome single current attached opened watched

theorem condition_message {throws : Option Nat} (condition : Condition channel)
    (moved : channel.next db (.message number throws) = some after) : Condition after := by
  obtain ⟨found, isFound, moved⟩ := Option.bind_eq_some_iff.mp moved
  split at moved
  · next transport cursor page half message wire isStream =>
    rw [Option.ite_none_right_eq_some] at moved
    obtain ⟨⟨opened, stays⟩, moved⟩ := moved
    cases moved
    obtain ⟨kept, welcome, single, rfl, current, attached, _, handle, pending, isWatchdog⟩ :=
      condition_heard condition isFound stays
    rw [if_pos attached]
    have rest := Channel.replace_single single found.opened (some ⟨transport, cursor, page, half, wire⟩)
    have again : channel.cleared channel.watchdog = [] := by simp [Channel.cleared, pending, isWatchdog]
    have unopened : found.opened = false → ∀ P : Prop, P := by
      intro closed
      rw [opened] at closed
      cases closed
    unfold Channel.onMessage
    dsimp only
    split
    · refine .live _ kept welcome rest current attached (fun closed => unopened closed _)
        (.inr ⟨channel.handles, ?_, rfl⟩)
      exact congrArg (· ++ [_]) again
    · split
      · refine .live _ kept welcome rest current attached (fun closed => unopened closed _)
          (.inr ⟨channel.handles, ?_, rfl⟩)
        exact congrArg (· ++ [_]) again
      · refine .live _ kept welcome rest current attached (fun closed => unopened closed _)
          (.inr ⟨channel.handles, ?_, rfl⟩)
        exact congrArg (· ++ [_]) again
  · cases moved

theorem condition_ended {code : Nat} (condition : Condition channel)
    (moved : channel.next db (.ended number code) = some after) :
    Condition after := by
  obtain ⟨found, isFound, rfl⟩ := Option.map_eq_some_iff.mp moved
  dsimp only
  cases condition with
  | live socket kept welcome single current attached unopened watched =>
    obtain ⟨rfl, rfl⟩ := Channel.find_single single isFound
    have none : channel.sockets.filter (fun other => other.number ≠ found.number) = [] := by
      simp [single]
    have quiet : channel.cleared channel.watchdog = [] := by
      obtain ⟨pending, _⟩ | ⟨handle, pending, isWatchdog⟩ := watched
      · simp [Channel.cleared, pending]
      · simp [Channel.cleared, pending, isWatchdog]
    rw [if_pos attached]
    unfold Channel.onClose
    dsimp only
    split
    · refine .waiting channel.handles (Channel.delay channel.attempts) kept welcome none ?_ rfl
        (delay_bounds _)
      exact congrArg (· ++ [_]) quiet
    · exact .refused kept rfl none quiet
  | waiting _ _ _ _ none =>
    rw [Channel.find_none none] at isFound
    cases isFound
  | refused _ _ none =>
    rw [Channel.find_none none] at isFound
    cases isFound
  | closed closed quiet left =>
    obtain none | ⟨socket, single, detached, leaving⟩ := left
    · rw [Channel.find_none none] at isFound
      cases isFound
    · obtain ⟨rfl, rfl⟩ := Channel.find_single single isFound
      rw [detached, if_neg Bool.false_ne_true]
      exact .closed closed quiet (.inl (by simp [single]))

theorem condition_fire (condition : Condition channel)
    (moved : channel.next db (.fire handle) = some after) : Condition after := by
  obtain ⟨timeout, isTimeout, rfl⟩ := Option.map_eq_some_iff.mp moved
  dsimp only
  cases condition with
  | live socket kept welcome single current attached unopened watched =>
    obtain ⟨quiet, _⟩ | ⟨pending, due, isWatchdog⟩ := watched
    · rw [quiet] at isTimeout
      cases isTimeout
    · rw [due, List.find?_singleton] at isTimeout
      split at isTimeout
      · next same =>
        cases isTimeout
        have isHandle : pending = handle := of_decide_eq_true same
        have leaving : channel.closeSocket socket.number = [{ socket with leaving := true }] := by
          simp [Channel.closeSocket, single]
        refine .live { socket with leaving := true } kept welcome leaving current attached unopened
          (.inl ⟨?_, rfl⟩)
        simp [Channel.cleared, due, isHandle]
      · cases isTimeout
  | waiting pending wait kept welcome none due timer soon =>
    rw [due, List.find?_singleton] at isTimeout
    split at isTimeout
    · next same =>
      cases isTimeout
      have isHandle : pending = handle := of_decide_eq_true same
      refine condition_connect kept welcome none ?_
      simp [Channel.cleared, due, isHandle]
    · cases isTimeout
  | refused _ _ _ quiet =>
    rw [quiet] at isTimeout
    cases isTimeout
  | closed _ quiet =>
    rw [quiet] at isTimeout
    cases isTimeout

theorem condition_next (condition : Condition channel) (moved : channel.next db act = some after) :
    Condition after := by
  cases act with
  | serve => exact condition_serve condition moved
  | opened => exact condition_opened condition moved
  | message => exact condition_message condition moved
  | heartbeat => exact condition_heartbeat condition moved
  | ended => exact condition_ended condition moved
  | fire => exact condition_fire condition moved

/-- After `close` nothing is due, and the socket has lost its handlers. -/
theorem condition_close (condition : Condition channel) : Condition channel.close := by
  cases condition with
  | live socket kept welcome single current attached unopened watched =>
    refine .closed rfl ?_ (.inr ⟨{ socket with leaving := true, attached := false }, ?_, rfl, rfl⟩)
    · obtain ⟨quiet, _⟩ | ⟨handle, due, isWatchdog⟩ := watched
      · simp [Channel.close, Channel.cleared, quiet]
      · simp [Channel.close, isWatchdog, Channel.cleared, due]
    · simp [Channel.close, single, current]
  | waiting handle wait kept welcome none due timer soon =>
    refine .closed rfl ?_ (.inl ?_)
    · simp [Channel.close, Channel.cleared, due, timer]
    · simp [Channel.close, none]
  | refused kept unwelcome none quiet =>
    refine .closed rfl ?_ (.inl ?_)
    · simp [Channel.close, Channel.cleared, quiet]
    · simp [Channel.close, none]
  | closed closed quiet left =>
    refine .closed rfl ?_ ?_
    · simp [Channel.close, Channel.cleared, quiet]
    · obtain none | ⟨socket, single, detached, leaving⟩ := left
      · exact .inl (by simp [Channel.close, none])
      · right
        by_cases current : socket.number = channel.socket
        · exact ⟨{ socket with leaving := true, attached := false },
            by simp [Channel.close, single, current], rfl, rfl⟩
        · exact ⟨socket, by simp [Channel.close, single, current], detached, leaving⟩

/-- The listeners have no part in it. -/
theorem condition_listeners (condition : Condition channel) (listeners : List Listener) :
    Condition { channel with listeners } := by
  cases condition with
  | live socket kept welcome single current attached unopened watched =>
    exact .live socket kept welcome single current attached unopened watched
  | waiting handle wait kept welcome none due timer soon =>
    exact .waiting handle wait kept welcome none due timer soon
  | refused kept unwelcome none quiet => exact .refused kept unwelcome none quiet
  | closed closed quiet left => exact .closed closed quiet left

end Connection

end LocalFlow
