import LocalFlow.Library.Run
import Mathlib.Data.List.Nodup
import Mathlib.Data.List.MinMax

/-! The owner of a task's processes where there is no systemd user manager. It is the subreaper of the
family of the command it starts, and is to outlive the family and to report how the command ended. -/
namespace LocalFlow
open Transition

inductive OwnSignal where
  | int | term | hup | kill
  deriving DecidableEq

/-- A process of the family, from its fork until it is reaped. Its serial number tells it from every
other process there ever was, its pid only from those there are. The owner has the serial number 0;
`status` is set once the process has ended. -/
structure Process where
  serial : Nat
  pid : Nat
  parent : Nat
  status : Option Int
  signals : List OwnSignal

/-- What the end of a process makes of a process. -/
def Process.after (p : Process) (serial : Nat) (status : Int) (heir : Nat) : Process :=
  if p.serial = serial then { p with status := some status }
  else if p.parent = serial then { p with parent := heir } else p

@[simp] theorem Process.after_serial (p : Process) (serial : Nat) (status : Int) (heir : Nat) :
    (p.after serial status heir).serial = p.serial := by
  unfold after
  split
  · rfl
  · split <;> rfl

@[simp] theorem Process.after_pid (p : Process) (serial : Nat) (status : Int) (heir : Nat) :
    (p.after serial status heir).pid = p.pid := by
  unfold after
  split
  · rfl
  · split <;> rfl

abbrev Family := List Process

namespace Family
variable (family : Family)

def alive (serial : Nat) : Bool := family.any (fun p => p.serial = serial && p.status.isNone)

/-- The serial numbers above a process, up to the owner's. -/
def ancestors : Nat → Nat → List Nat
  | 0, _ => []
  | fuel + 1, serial =>
    match family.find? (fun p => p.serial = serial) with
    | none => []
    | some p => p.parent :: ancestors fuel p.parent

/-- A process ends. Its children are adopted by a subreaper above it, at the latest by the owner. -/
def exit (serial : Nat) (status : Int) (heir : Nat) : Family := family.map (·.after serial status heir)

def reap (serial : Nat) : Family := family.filter (fun p => p.serial ≠ serial)

/-- The pids in the `children` files of a process. -/
def childrenOf (owner pid : Nat) : List Nat :=
  (family.filter (fun p =>
    if p.parent = 0 then owner = pid
    else family.any (fun q => q.serial = p.parent && q.pid = pid))).map Process.pid

def deliver (pid : Nat) (signal : OwnSignal) : Family :=
  family.map (fun p => if p.pid = pid then { p with signals := p.signals ++ [signal] } else p)

end Family

/-- What a round of signals is for. -/
inductive Purpose where
  | request | force | cleanup

/-- Where `own` stands. -/
inductive OwnPoint where
  | spawning | unguarded | publishing | reaping | receiving
  | scanning (signal : OwnSignal) (pending found : List Nat) (purpose : Purpose)
  | signalling (signal : OwnSignal) (targets : List Nat) (purpose : Purpose)
  | collecting
  | returned (code : Int)
  | raised
  | killed

/-- `leader` is the pid of the command, and `ended` how the command really ended. -/
structure Own where
  pid : Nat
  family : Family
  next : Nat
  leader : Option Nat
  ended : Option Int
  status : Option Int
  requested : Option OwnSignal
  force : Bool
  point : OwnPoint

/-- How one signal went: the process is gone, it is no child and there is no pidfd, or the call raises
something else. -/
inductive Delivery where
  | sent | gone | skipped | failed

/-- How one process was asked for its children: they are read, or cannot be read, or the listing of
its threads raises, as it does for a process that is reaped between the two calls of `glob`. -/
inductive Threads where
  | read | unreadable | failed

inductive OwnAct where
  | fork (parent pid : Nat)
  | exit (serial : Nat) (status : Int) (heir : Nat)
  | collect (serial : Nat)
  | request (signal : OwnSignal)
  | refuse | spawnFails | spawn (pid : Nat)
  | interrupted | terminated | install
  | publish (written : Bool)
  | wait (serial : Nat) | waitNone | waitRaise
  | receive (message : Option OwnSignal) | receiveFails
  | scan (threads : Threads)
  | deliver (outcome : Delivery)

namespace Own

def start (pid : Nat) : Own where
  pid
  family := []
  next := 1
  leader := none
  ended := none
  status := none
  requested := none
  force := false
  point := .spawning

def guarded (s : Own) : Bool :=
  match s.point with
  | .spawning | .unguarded | .returned _ | .raised | .killed => false
  | _ => true

/-- `_signal_family`. -/
def signalFamily (s : Own) (signal : OwnSignal) (purpose : Purpose) : Own :=
  { s with point := .scanning signal [s.pid] [] purpose }

def forceFamily (s : Own) : Own :=
  if s.force then s.signalFamily .kill .force else { s with point := .reaping }

def signalled (s : Own) : Purpose → Own
  | .request => { s with requested := none }.forceFamily
  | .force => { s with point := .reaping }
  | .cleanup => { s with point := .collecting }

/-- An exception in the loop goes through the cleanup, one in the cleanup leaves `own`. -/
def raise (s : Own) : Purpose → Own
  | .cleanup => { s with point := .raised }
  | _ => s.signalFamily .kill .cleanup

/-- After `recv`. -/
def received (s : Own) (message : Option OwnSignal) : Own :=
  match message.or s.requested with
  | none => s.forceFamily
  | some signal => { s with
      requested := some signal
      force := s.force || signal = OwnSignal.kill }.signalFamily signal .request

/-- What the processes and the kernel do. -/
def move (s : Own) : OwnAct → Option Own
  | .fork parent pid =>
    if s.family.alive parent ∧ pid ≠ s.pid ∧ pid ∉ s.family.map Process.pid then
      some { s with family := s.family ++ [⟨s.next, pid, parent, none, []⟩], next := s.next + 1 }
    else none
  | .exit serial status heir =>
    if s.family.alive serial ∧ heir ∈ s.family.ancestors s.family.length serial ∧
        (heir = 0 ∨ s.family.alive heir) then
      some { s with
        family := s.family.exit serial status heir
        ended := if serial = 1 then some status else s.ended }
    else none
  | .collect serial =>
    if s.family.any (fun p => p.serial = serial && p.status.isSome && p.parent ≠ 0) then
      some { s with family := s.family.reap serial }
    else none
  | .request signal => if s.guarded ∧ signal ≠ .kill then some { s with requested := some signal }
      else none
  | _ => none

/-- What `own` does. `none` when the act is not possible. -/
def step (s : Own) (act : OwnAct) : Option Own :=
  match s.point, act with
  | .spawning, .refuse => some { s with point := .raised }
  | .spawning, .spawnFails => some { s with point := .returned 127 }
  | .spawning, .spawn pid =>
    if pid ≠ s.pid then
      some { s with
        family := [⟨1, pid, 0, none, []⟩]
        next := 2
        leader := some pid
        point := .unguarded }
    else none
  -- until the handlers are installed a signal has its default effect
  | .unguarded, .interrupted => some { s with point := .raised }
  | .unguarded, .terminated => some { s with point := .killed }
  | .unguarded, .install => some { s with point := .publishing }
  | .publishing, .publish written =>
    some (if written then { s with point := .reaping } else s.raise .request)
  | .reaping, .wait serial =>
    match s.family.find? (fun p => p.serial = serial && p.status.isSome && p.parent = 0) with
    | some p => some { s with
        family := s.family.reap serial
        status := if s.leader = some p.pid then p.status else s.status }
    | none => none
  | .reaping, .waitNone =>
    if s.family.any (fun p => p.parent = 0) ∧
      s.family.all (fun p => p.parent ≠ 0 || p.status.isNone) then
      some { s with point := .receiving } else none
  | .reaping, .waitRaise =>
    if s.family.all (fun p => p.parent ≠ 0) then
      some { s with point := .returned (s.status.getD 127) } else none
  | .receiving, .receive message => some (s.received message)
  | .receiving, .receiveFails => some (s.raise .request)
  | .scanning signal [] found purpose, .scan _ =>
    some { s with point := .signalling signal found purpose }
  | .scanning signal (parent :: pending) found purpose, .scan threads =>
    match threads with
    | .read =>
      let new := (s.family.childrenOf s.pid parent).filter (· ∉ found)
      some { s with point := .scanning signal (new ++ pending) (found ++ new) purpose }
    | .unreadable => some { s with point := .scanning signal pending found purpose }
    | .failed => some (s.raise purpose)
  | .signalling _ [] purpose, .deliver _ => some (s.signalled purpose)
  | .signalling signal (pid :: targets) purpose, .deliver outcome =>
    let left := { s with point := .signalling signal targets purpose }
    match outcome with
    | .sent => some { left with family := s.family.deliver pid signal }
    | .gone => if pid ∉ s.family.map Process.pid then some left else none
    | .skipped => some left
    | .failed => some (s.raise purpose)
  | .collecting, .wait serial =>
    if s.family.any (fun p => p.serial = serial && p.status.isSome && p.parent = 0) then
      some { s with family := s.family.reap serial }
    else none
  | .collecting, .waitNone =>
    if s.family.any (fun p => p.parent = 0) ∧
      s.family.all (fun p => p.parent ≠ 0 || p.status.isNone) then
      some (s.signalFamily .kill .cleanup) else none
  | .collecting, .waitRaise =>
    if s.family.all (fun p => p.parent ≠ 0) then some { s with point := .raised } else none
  | _, act => s.move act

def Step (s : Own) (act : OwnAct) (t : Own) : Prop := s.step act = some t

end Own
/-- What signals do not change. -/
def Process.core (p : Process) : Nat × Nat × Nat × Option Int := (p.serial, p.pid, p.parent, p.status)

/-- Every process of the family was forked after its parent, which is the owner or has not ended. -/
structure Family.Rooted (family : Family) (next : Nat) : Prop where
  serials : ∀ p ∈ family, 0 < p.serial ∧ p.serial < next
  distinct : (family.map Process.serial).Nodup
  pids : (family.map Process.pid).Nodup
  parents : ∀ p ∈ family, p.parent < p.serial ∧
    (p.parent = 0 ∨ ∃ q ∈ family, q.serial = p.parent ∧ q.status = none)

namespace Family
variable {family other : Family} {next serial : Nat}

theorem alive_iff : family.alive serial = true ↔ ∃ p ∈ family, p.serial = serial ∧ p.status = none := by
  simp [alive]

namespace Rooted

theorem inj (rooted : family.Rooted next) {p q : Process} (left : p ∈ family) (right : q ∈ family)
    (same : p.serial = q.serial) : p = q :=
  List.inj_on_of_nodup_map rooted.distinct left right same

/-- A family without a child of the owner is empty. -/
theorem empty (rooted : family.Rooted next) (orphanless : ∀ p ∈ family, p.parent ≠ 0) :
    family = [] := by
  have none_up_to : ∀ n, ∀ p ∈ family, p.serial ≠ n := by
    intro n
    induction n using Nat.strong_induction_on with
    | h n ih =>
      intro p member isSerial
      obtain ⟨below, root | ⟨q, parent, same, _⟩⟩ := rooted.parents p member
      · exact orphanless p member root
      · exact ih q.serial (by omega) q parent rfl
  exact List.eq_nil_iff_forall_not_mem.mpr (fun p member => none_up_to p.serial p member rfl)

theorem core (rooted : family.Rooted next) (same : other.map Process.core = family.map Process.core) :
    other.Rooted next := by
  have back : ∀ p ∈ other, ∃ q ∈ family, q.core = p.core := by
    intro p member
    exact List.mem_map.mp (same ▸ List.mem_map_of_mem member)
  have forth : ∀ q ∈ family, ∃ p ∈ other, p.core = q.core := by
    intro q member
    exact List.mem_map.mp (same ▸ List.mem_map_of_mem member)
  constructor
  · intro p member
    obtain ⟨q, stored, isCore⟩ := back p member
    have serial : q.serial = p.serial := congrArg Prod.fst isCore
    exact serial ▸ rooted.serials q stored
  · have serials : other.map Process.serial = family.map Process.serial := by
      simpa [Process.core, Function.comp_def] using congrArg (List.map Prod.fst) same
    exact serials ▸ rooted.distinct
  · have pids : other.map Process.pid = family.map Process.pid := by
      simpa [Process.core, Function.comp_def] using congrArg (List.map (fun core => core.2.1)) same
    exact pids ▸ rooted.pids
  · intro p member
    obtain ⟨q, stored, isCore⟩ := back p member
    have serial : q.serial = p.serial := congrArg Prod.fst isCore
    have parent : q.parent = p.parent := congrArg (fun core => core.2.2.1) isCore
    obtain ⟨below, root | ⟨r, above, isParent, alive⟩⟩ := rooted.parents q stored
    · exact ⟨by omega, .inl (by omega)⟩
    · obtain ⟨r', above', isCore'⟩ := forth r above
      have serial' : r'.serial = r.serial := congrArg Prod.fst isCore'
      have status' : r'.status = r.status := congrArg (fun core => core.2.2.2) isCore'
      exact ⟨by omega, .inr ⟨r', above', by omega, status'.trans alive⟩⟩

theorem fork (rooted : family.Rooted next) {parent pid : Nat} (alive : family.alive parent = true)
    (fresh : pid ∉ family.map Process.pid) :
    Rooted (family ++ [⟨next, pid, parent, none, []⟩]) (next + 1) := by
  obtain ⟨q, isQ, isParent, live⟩ := alive_iff.mp alive
  obtain ⟨positive, below⟩ := rooted.serials q isQ
  constructor
  · intro p member
    obtain old | new := List.mem_append.mp member
    · have range := rooted.serials p old
      omega
    · obtain rfl := List.mem_singleton.mp new
      dsimp only
      omega
  · rw [List.map_append, List.nodup_append]
    refine ⟨rooted.distinct, List.nodup_singleton _, ?_⟩
    intro a old b new same
    obtain ⟨p, member, rfl⟩ := List.mem_map.mp old
    have isNext : b = next := by simpa using new
    have range := rooted.serials p member
    omega
  · rw [List.map_append, List.nodup_append]
    refine ⟨rooted.pids, List.nodup_singleton _, ?_⟩
    intro a old b new same
    have isPid : b = pid := by simpa using new
    exact fresh (isPid ▸ same ▸ old)
  · intro p member
    obtain old | new := List.mem_append.mp member
    · obtain ⟨lower, root | ⟨r, above, same, still⟩⟩ := rooted.parents p old
      · exact ⟨lower, .inl root⟩
      · exact ⟨lower, .inr ⟨r, List.mem_append_left _ above, same, still⟩⟩
    · obtain rfl := List.mem_singleton.mp new
      exact ⟨isParent ▸ below, .inr ⟨q, List.mem_append_left _ isQ, isParent, live⟩⟩

theorem ancestors_lt (rooted : family.Rooted next) (fuel : Nat) {heir : Nat}
    (above : heir ∈ family.ancestors fuel serial) : heir < serial := by
  induction fuel generalizing serial with
  | zero => cases above
  | succ fuel ih =>
    unfold ancestors at above
    split at above
    · cases above
    · rename_i p found
      have isSerial : p.serial = serial := by simpa using List.find?_some found
      have below := (rooted.parents p (List.mem_of_find?_eq_some found)).1
      obtain rfl | further := List.mem_cons.mp above
      · omega
      · exact (ih further).trans (by omega)

theorem exit (rooted : family.Rooted next) {status : Int} {heir : Nat}
    (above : heir ∈ family.ancestors family.length serial)
    (adopts : heir = 0 ∨ family.alive heir = true) :
    (family.exit serial status heir).Rooted next := by
  have lower := rooted.ancestors_lt family.length above
  -- a process other than the one that ends stays alive
  have stays : ∀ q ∈ family, q.serial ≠ serial → q.status = none →
      ∃ r ∈ family.exit serial status heir, r.serial = q.serial ∧ r.status = none := by
    intro q member apart live
    refine ⟨_, List.mem_map_of_mem member, Process.after_serial q serial status heir, ?_⟩
    rw [Process.after, if_neg apart]
    split <;> exact live
  constructor
  · intro p member
    obtain ⟨q, stored, rfl⟩ := List.mem_map.mp member
    rw [Process.after_serial]
    exact rooted.serials q stored
  · have serials : (family.exit serial status heir).map Process.serial = family.map Process.serial := by
      simp [Family.exit, Function.comp_def]
    exact serials ▸ rooted.distinct
  · have pids : (family.exit serial status heir).map Process.pid = family.map Process.pid := by
      simp [Family.exit, Function.comp_def]
    exact pids ▸ rooted.pids
  · intro p member
    obtain ⟨q, stored, rfl⟩ := List.mem_map.mp member
    obtain ⟨below, up⟩ := rooted.parents q stored
    have kept : q.parent ≠ serial → q.parent = 0 ∨
        ∃ r ∈ family.exit serial status heir, r.serial = q.parent ∧ r.status = none := by
      refine fun apart => up.imp_right (fun ⟨r, isR, same, live⟩ => ?_)
      obtain ⟨r', isR', same', live'⟩ := stays r isR (same ▸ apart) live
      exact ⟨r', isR', same'.trans same, live'⟩
    rw [Process.after_serial, Process.after]
    split
    · exact ⟨below, kept (by omega)⟩
    · split
      · refine ⟨by dsimp only; omega, adopts.imp_right (fun alive => ?_)⟩
        obtain ⟨r, isR, same, live⟩ := alive_iff.mp alive
        obtain ⟨r', isR', same', live'⟩ := stays r isR (by omega) live
        exact ⟨r', isR', same'.trans same, live'⟩
      · exact ⟨below, kept ‹_›⟩

/-- A process that has ended has no children left. -/
theorem reap (rooted : family.Rooted next) (ended : ∀ p ∈ family, p.serial = serial → p.status ≠ none) :
    (family.reap serial).Rooted next := by
  constructor
  · exact fun p member => rooted.serials p (List.mem_filter.mp member).1
  · exact rooted.distinct.sublist (List.filter_sublist.map _)
  · exact rooted.pids.sublist (List.filter_sublist.map _)
  · intro p member
    obtain ⟨below, root | ⟨q, isQ, same, live⟩⟩ := rooted.parents p (List.mem_filter.mp member).1
    · exact ⟨below, .inl root⟩
    · refine ⟨below, .inr ⟨q, List.mem_filter.mpr ⟨isQ, ?_⟩, same, live⟩⟩
      rw [decide_eq_true_eq]
      exact fun isSerial => ended q isQ isSerial live

end Rooted
end Family

/-- In the `try` block with a started command, in its `finally` block, or outside of both. -/
inductive OwnStage where
  | before | trying | cleaning | after
  deriving DecidableEq

def Purpose.stage : Purpose → OwnStage
  | .request | .force => .trying
  | .cleanup => .cleaning

def OwnPoint.stage : OwnPoint → OwnStage
  | .spawning => .before
  | .unguarded | .publishing | .reaping | .receiving => .trying
  | .scanning _ _ _ purpose | .signalling _ _ purpose => purpose.stage
  | .collecting => .cleaning
  | .returned _ | .raised | .killed => .after

namespace Own
variable {s t : Own} {act : OwnAct} {acts : List OwnAct}

/-- Nothing but signals happened to the processes, and nothing was learnt about the command. -/
structure Same (s t : Own) : Prop where
  core : t.family.map Process.core = s.family.map Process.core
  next : t.next = s.next
  leader : t.leader = s.leader
  ended : t.ended = s.ended
  status : t.status = s.status

/-- Everything one step can do. -/
inductive Stepped (s : Own) : OwnAct → Own → Prop where
  | refuse (isPoint : s.point = .spawning) : Stepped s .refuse { s with point := .raised }
  | spawnFails (isPoint : s.point = .spawning) : Stepped s .spawnFails { s with point := .returned 127 }
  | spawn (pid : Nat) (isPoint : s.point = .spawning) : Stepped s (.spawn pid) { s with
      family := [⟨1, pid, 0, none, []⟩], next := 2, leader := some pid, point := .unguarded }
  | interrupted (isPoint : s.point = .unguarded) : Stepped s .interrupted { s with point := .raised }
  | terminated (isPoint : s.point = .unguarded) : Stepped s .terminated { s with point := .killed }
  | abandon (act : OwnAct) (raises : act = .deliver .failed ∨ act = .scan .failed)
      (isStage : s.point.stage = .cleaning) :
      Stepped s act { s with point := .raised }
  | control (act : OwnAct) {t : Own} (same : Same s t) (started : s.point.stage = .trying ∨
      s.point.stage = .cleaning)
      (stays : t.point.stage = s.point.stage ∨ t.point.stage = .cleaning) : Stepped s act t
  | wait (serial : Nat) {p : Process} (isPoint : s.point = .reaping)
      (found : s.family.find? (fun p => p.serial = serial && p.status.isSome &&
        p.parent = 0) = some p) :
      Stepped s (.wait serial) { s with
        family := s.family.reap serial, status := if s.leader = some p.pid then p.status else s.status }
  | finish (isPoint : s.point = .reaping) (none_left : ∀ p ∈ s.family, p.parent ≠ 0) :
      Stepped s .waitRaise { s with point := .returned (s.status.getD 127) }
  | discard (serial : Nat) {p : Process} (isPoint : s.point = .collecting) (member : p ∈ s.family)
      (isSerial : p.serial = serial) (exited : p.status ≠ none) :
      Stepped s (.wait serial) { s with family := s.family.reap serial }
  | cleaned (isPoint : s.point = .collecting) (none_left : ∀ p ∈ s.family, p.parent ≠ 0) :
      Stepped s .waitRaise { s with point := .raised }
  | fork (parent pid : Nat) (alive : s.family.alive parent = true)
      (fresh : pid ∉ s.family.map Process.pid) :
      Stepped s (.fork parent pid) { s with
        family := s.family ++ [⟨s.next, pid, parent, none, []⟩], next := s.next + 1 }
  | exit (serial : Nat) (status : Int) (heir : Nat) (alive : s.family.alive serial = true)
      (above : heir ∈ s.family.ancestors s.family.length serial)
        (adopts : heir = 0 ∨ s.family.alive heir = true) :
      Stepped s (.exit serial status heir) { s with
        family := s.family.exit serial status heir, ended := if serial = 1 then some status
          else s.ended }
  | collect (serial : Nat) {p : Process} (member : p ∈ s.family) (isSerial : p.serial = serial)
      (exited : p.status ≠ none) (inner : p.parent ≠ 0) :
      Stepped s (.collect serial) { s with family := s.family.reap serial }
  | request (signal : OwnSignal) (guarded : s.guarded = true) :
      Stepped s (.request signal) { s with requested := some signal }

theorem move_cases (moved : s.move act = some t) : Stepped s act t := by
  unfold move at moved
  split at moved
  · split at moved <;> cases moved
    rename_i fits
    exact .fork _ _ fits.1 fits.2.2
  · split at moved <;> cases moved
    rename_i fits
    exact .exit _ _ _ fits.1 fits.2.1 fits.2.2
  · split at moved <;> cases moved
    rename_i found
    obtain ⟨p, member, isP⟩ := List.any_eq_true.mp found
    simp only [Bool.and_eq_true, decide_eq_true_eq] at isP
    refine .collect _ member isP.1.1 ?_ isP.2
    exact Option.isSome_iff_ne_none.mp isP.1.2
  · split at moved <;> cases moved
    rename_i fits
    exact .request _ fits.1
  · cases moved

theorem same_forceFamily (s : Own) : Same s s.forceFamily ∧ s.forceFamily.point.stage = .trying := by
  unfold forceFamily
  split <;> exact ⟨⟨rfl, rfl, rfl, rfl, rfl⟩, rfl⟩

theorem same_received (s : Own) (message : Option OwnSignal) :
    Same s (s.received message) ∧ (s.received message).point.stage = .trying := by
  unfold received
  split
  · exact same_forceFamily s
  · exact ⟨⟨rfl, rfl, rfl, rfl, rfl⟩, rfl⟩

theorem same_signalled (s : Own) (purpose : Purpose) :
    Same s (s.signalled purpose) ∧ (s.signalled purpose).point.stage = purpose.stage := by
  cases purpose with
  | request =>
    obtain ⟨same, stage⟩ := same_forceFamily { s with requested := none }
    exact ⟨⟨same.core, same.next, same.leader, same.ended, same.status⟩, stage⟩
  | force => exact ⟨⟨rfl, rfl, rfl, rfl, rfl⟩, rfl⟩
  | cleanup => exact ⟨⟨rfl, rfl, rfl, rfl, rfl⟩, rfl⟩

theorem core_deliver (family : Family) (pid : Nat) (signal : OwnSignal) :
    (family.deliver pid signal).map Process.core = family.map Process.core := by
  rw [Family.deliver, List.map_map]
  refine List.map_congr_left (fun p _ => ?_)
  rw [Function.comp_apply]
  split <;> rfl

theorem stage_started (purpose : Purpose) : purpose.stage = .trying ∨ purpose.stage = .cleaning := by
  cases purpose with
  | request => exact .inl rfl
  | force => exact .inl rfl
  | cleanup => exact .inr rfl

/-- An exception of `_signal_family`. -/
theorem raise_cases {purpose : Purpose} (raises : act = .deliver .failed ∨ act = .scan .failed)
    (isStage : s.point.stage = purpose.stage) : Stepped s act (s.raise purpose) := by
  cases purpose with
  | request => exact .control _ ⟨rfl, rfl, rfl, rfl, rfl⟩ (.inl isStage) (.inr rfl)
  | force => exact .control _ ⟨rfl, rfl, rfl, rfl, rfl⟩ (.inl isStage) (.inr rfl)
  | cleanup => exact .abandon act raises isStage

theorem step_cases (step : s.Step act t) : Stepped s act t := by
  unfold Step Own.step at step
  split at step
  · cases step
    exact .refuse ‹_›
  · cases step
    exact .spawnFails ‹_›
  · split at step <;> cases step
    exact .spawn _ ‹_›
  · cases step
    exact .interrupted ‹_›
  · cases step
    exact .terminated ‹_›
  · rename_i isPoint
    cases step
    refine .control _ ⟨rfl, rfl, rfl, rfl, rfl⟩ (.inl (by rw [isPoint]; rfl))
      (.inl (by rw [isPoint]; rfl))
  · rename_i isPoint
    cases step
    split
    · exact .control _ ⟨rfl, rfl, rfl, rfl, rfl⟩ (.inl (by rw [isPoint]; rfl))
        (.inl (by rw [isPoint]; rfl))
    · exact .control _ ⟨rfl, rfl, rfl, rfl, rfl⟩ (.inl (by rw [isPoint]; rfl)) (.inr rfl)
  · split at step <;> cases step
    exact .wait _ ‹_› ‹_›
  · rename_i isPoint
    split at step <;> cases step
    exact .control _ ⟨rfl, rfl, rfl, rfl, rfl⟩ (.inl (by rw [isPoint]; rfl))
      (.inl (by rw [isPoint]; rfl))
  · split at step <;> cases step
    rename_i orphanless
    exact .finish ‹_› (fun p member => of_decide_eq_true (List.all_eq_true.mp orphanless p member))
  · rename_i isPoint
    cases step
    obtain ⟨same, stage⟩ := same_received s _
    exact .control _ same (.inl (by rw [isPoint]; rfl)) (.inl (by rw [stage, isPoint]; rfl))
  · rename_i isPoint
    cases step
    exact .control _ ⟨rfl, rfl, rfl, rfl, rfl⟩ (.inl (by rw [isPoint]; rfl)) (.inr rfl)
  · rename_i signal found purpose _ isPoint
    cases step
    exact .control _ ⟨rfl, rfl, rfl, rfl, rfl⟩ (by rw [isPoint]; exact stage_started purpose)
      (.inl (by rw [isPoint]; rfl))
  · rename_i signal parent pending found purpose threads isPoint
    have started : s.point.stage = .trying ∨ s.point.stage = .cleaning := by
      rw [isPoint]
      exact stage_started purpose
    split at step
    · cases step
      exact .control _ ⟨rfl, rfl, rfl, rfl, rfl⟩ started (.inl (by rw [isPoint]; rfl))
    · cases step
      exact .control _ ⟨rfl, rfl, rfl, rfl, rfl⟩ started (.inl (by rw [isPoint]; rfl))
    · cases step
      exact raise_cases (.inr rfl) (by rw [isPoint]; rfl)
  · rename_i signal purpose _ isPoint
    cases step
    obtain ⟨same, stage⟩ := same_signalled s purpose
    exact .control _ same (by rw [isPoint]; exact stage_started purpose)
      (.inl (by rw [stage, isPoint]; rfl))
  · rename_i signal pid targets purpose outcome isPoint
    have started : s.point.stage = .trying ∨ s.point.stage = .cleaning := by
      rw [isPoint]
      exact stage_started purpose
    split at step
    · cases step
      exact .control _ ⟨core_deliver _ _ _, rfl, rfl, rfl, rfl⟩ started (.inl (by rw [isPoint]; rfl))
    · split at step <;> cases step
      exact .control _ ⟨rfl, rfl, rfl, rfl, rfl⟩ started (.inl (by rw [isPoint]; rfl))
    · cases step
      exact .control _ ⟨rfl, rfl, rfl, rfl, rfl⟩ started (.inl (by rw [isPoint]; rfl))
    · cases step
      exact raise_cases (.inl rfl) (by rw [isPoint]; rfl)
  · split at step <;> cases step
    rename_i found
    obtain ⟨p, member, isP⟩ := List.any_eq_true.mp found
    simp only [Bool.and_eq_true, decide_eq_true_eq] at isP
    exact .discard _ ‹_› member isP.1.1 (Option.isSome_iff_ne_none.mp isP.1.2)
  · rename_i isPoint
    split at step <;> cases step
    exact .control _ ⟨rfl, rfl, rfl, rfl, rfl⟩ (.inr (by rw [isPoint]; rfl)) (.inr rfl)
  · split at step <;> cases step
    rename_i orphanless
    exact .cleaned ‹_› (fun p member => of_decide_eq_true (List.all_eq_true.mp orphanless p member))
  · exact move_cases step

/-- No interrupt comes before the handlers are installed, neither a scan nor a signal of the cleanup
raises, and no process forked later gets the pid of the command. -/
def careful (s : Own) : OwnAct → Bool
  | .interrupted => false
  | .deliver .failed | .scan .failed => s.point.stage ≠ .cleaning
  | .fork _ pid => s.leader ≠ some pid
  | _ => true

def Careful (s : Own) (act : OwnAct) : Prop := s.careful act = true

/-- The command is a child of the owner until the owner reaps it and notes its status. -/
structure Leads (s : Own) : Prop where
  rooted : s.family.Rooted s.next
  mine : ∀ p ∈ s.family, s.leader = some p.pid → p.serial = 1
  first : ∀ p ∈ s.family, p.serial = 1 → s.leader = some p.pid ∧ p.parent = 0 ∧ p.status = s.ended
  gone : s.leader ≠ none → (∀ p ∈ s.family, p.serial ≠ 1) →
    s.ended ≠ none ∧ (s.point.stage = .trying → s.status = s.ended)
  before : s.point.stage = .before → s.family = [] ∧ s.leader = none ∧ s.ended = none
  raised : s.point = .raised → s.family = []
  returned : ∀ code, s.point = .returned code → s.family = [] ∧ (s.leader ≠ none → s.ended = some code)

theorem leads_start (pid : Nat) : (start pid).Leads where
  rooted := ⟨fun _ member => absurd member List.not_mem_nil, List.nodup_nil, List.nodup_nil,
    fun _ member => absurd member List.not_mem_nil⟩
  mine := fun _ member => absurd member List.not_mem_nil
  first := fun _ member => absurd member List.not_mem_nil
  gone := fun started => absurd rfl started
  before := fun _ => ⟨rfl, rfl, rfl⟩
  raised := fun isPoint => nomatch isPoint
  returned := fun _ isPoint => nomatch isPoint

theorem leads_control (leads : s.Leads) (same : Same s t)
    (started : s.point.stage = .trying ∨ s.point.stage = .cleaning)
    (stays : t.point.stage = s.point.stage ∨ t.point.stage = .cleaning) : t.Leads := by
  have back : ∀ p ∈ t.family, ∃ q ∈ s.family, q.serial = p.serial ∧ q.pid = p.pid ∧
    q.parent = p.parent ∧ q.status = p.status := by
    intro p member
    obtain ⟨q, stored, isCore⟩ :=
      List.mem_map.mp (same.core ▸ List.mem_map_of_mem member : p.core ∈ s.family.map Process.core)
    simp only [Process.core, Prod.mk.injEq] at isCore
    exact ⟨q, stored, isCore⟩
  have going : t.point.stage = .trying ∨ t.point.stage = .cleaning := by
    obtain still | cleaning := stays
    · rw [still]
      exact started
    · exact .inr cleaning
  constructor
  · rw [same.next]
    exact leads.rooted.core same.core
  · intro p member isLeader
    obtain ⟨q, stored, serial, pid, _, _⟩ := back p member
    rw [same.leader, ← pid] at isLeader
    exact serial.symm.trans (leads.mine q stored isLeader)
  · intro p member isFirst
    obtain ⟨q, stored, serial, pid, parent, status⟩ := back p member
    obtain ⟨isLeader, root, ended⟩ := leads.first q stored (serial.trans isFirst)
    rw [same.leader, same.ended, ← pid, ← parent, ← status]
    exact ⟨isLeader, root, ended⟩
  · intro begun absent
    rw [same.leader] at begun
    rw [same.ended, same.status]
    have missing : ∀ q ∈ s.family, q.serial ≠ 1 := by
      intro q stored isFirst
      obtain ⟨p, member, isCore⟩ := List.mem_map.mp
        (same.core ▸ List.mem_map_of_mem stored : q.core ∈ t.family.map Process.core)
      have serial : p.serial = q.serial := congrArg Prod.fst isCore
      exact absent p member (serial.trans isFirst)
    obtain ⟨ended, noted⟩ := leads.gone begun missing
    refine ⟨ended, fun trying => noted ?_⟩
    obtain still | cleaning := stays
    · exact still.symm.trans trying
    · rw [cleaning] at trying
      cases trying
  · intro before
    rw [before] at going
    exact absurd going (by decide)
  · intro isPoint
    rw [isPoint] at going
    exact absurd going (by decide)
  · intro code isPoint
    rw [isPoint] at going
    exact absurd going (by simp [OwnPoint.stage])

/-- Reaping an ended process other than the command changes nothing that is known of the command. -/
theorem first_reap {serial : Nat} (apart : serial ≠ 1)
    (absent : ∀ p ∈ s.family.reap serial, p.serial ≠ 1) : ∀ p ∈ s.family, p.serial ≠ 1 := by
  intro p member isFirst
  refine absent p (List.mem_filter.mpr ⟨member, ?_⟩) isFirst
  rw [decide_eq_true_eq, isFirst]
  exact apart.symm

/-- A reaped family is that of before but for one ended process. -/
theorem leads_reap (leads : s.Leads) {serial : Nat} {p : Process} (member : p ∈ s.family)
    (isSerial : p.serial = serial)
    (exited : p.status ≠ none) {status : Option Int}
    (noted : serial = 1 → s.point.stage = .trying → status = s.ended)
    (other : serial ≠ 1 → status = s.status) :
    Leads { s with family := s.family.reap serial, status } := by
  have inner : ∀ q ∈ s.family.reap serial, q ∈ s.family := fun q kept => (List.mem_filter.mp kept).1
  constructor
  · refine leads.rooted.reap (fun q stored same => ?_)
    rw [leads.rooted.inj stored member (same.trans isSerial.symm)]
    exact exited
  · exact fun q kept isLeader => leads.mine q (inner q kept) isLeader
  · exact fun q kept isFirst => leads.first q (inner q kept) isFirst
  · intro begun absent
    by_cases isLeader : serial = 1
    · have ended := (leads.first p member (isSerial.trans isLeader)).2.2
      exact ⟨ended ▸ exited, fun trying => noted isLeader trying⟩
    · obtain ⟨ended, known⟩ := leads.gone begun (first_reap isLeader absent)
      exact ⟨ended, fun trying => (other isLeader).trans (known trying)⟩
  · intro before
    have empty := (leads.before before).1
    rw [empty] at member
    cases member
  · intro isPoint
    rw [leads.raised isPoint] at member
    cases member
  · intro code isPoint
    rw [(leads.returned code isPoint).1] at member
    cases member

theorem leads_fork (leads : s.Leads) {parent pid : Nat} (alive : s.family.alive parent = true)
    (fresh : pid ∉ s.family.map Process.pid) (apart : s.leader ≠ some pid) :
    Leads { s with family := s.family ++ [⟨s.next, pid, parent, none, []⟩], next := s.next + 1 } := by
  obtain ⟨q, stored, isParent, _⟩ := Family.alive_iff.mp alive
  have range := leads.rooted.serials q stored
  constructor
  · exact leads.rooted.fork alive fresh
  · intro p member isLeader
    obtain old | new := List.mem_append.mp member
    · exact leads.mine p old isLeader
    · obtain rfl := List.mem_singleton.mp new
      exact absurd isLeader apart
  · intro p member isFirst
    obtain old | new := List.mem_append.mp member
    · exact leads.first p old isFirst
    · obtain rfl := List.mem_singleton.mp new
      dsimp only at isFirst
      omega
  · intro begun absent
    exact leads.gone begun (fun p member => absent p (List.mem_append_left _ member))
  · intro before
    rw [(leads.before before).1] at stored
    cases stored
  · intro isPoint
    rw [leads.raised isPoint] at stored
    cases stored
  · intro code isPoint
    rw [(leads.returned code isPoint).1] at stored
    cases stored

theorem leads_exit (leads : s.Leads) {serial : Nat} {status : Int} {heir : Nat}
    (alive : s.family.alive serial = true)
    (above : heir ∈ s.family.ancestors s.family.length serial)
    (adopts : heir = 0 ∨ s.family.alive heir = true) :
    Leads { s with
      family := s.family.exit serial status heir, ended :=
  if serial = 1 then some status else s.ended } := by
  obtain ⟨q, stored, isSerial, live⟩ := Family.alive_iff.mp alive
  have positive := (leads.rooted.serials q stored).1
  constructor
  · exact leads.rooted.exit above adopts
  · intro p member isLeader
    obtain ⟨r, old, rfl⟩ := List.mem_map.mp member
    rw [Process.after_pid] at isLeader
    rw [Process.after_serial]
    exact leads.mine r old isLeader
  · intro p member isFirst
    obtain ⟨r, old, rfl⟩ := List.mem_map.mp member
    rw [Process.after_serial] at isFirst
    obtain ⟨isLeader, root, noted⟩ := leads.first r old isFirst
    rw [Process.after_pid]
    by_cases ends : r.serial = serial
    · have isAfter : r.after serial status heir = { r with status := some status } := if_pos ends
      rw [isAfter]
      exact ⟨isLeader, root, (if_pos (ends.symm.trans isFirst)).symm⟩
    · have isAfter : r.after serial status heir = r := (if_neg ends).trans (if_neg (by omega))
      rw [isAfter]
      exact ⟨isLeader, root, noted.trans (if_neg (fun isOne => ends (isFirst.trans isOne.symm))).symm⟩
  · intro begun absent
    have missing : ∀ p ∈ s.family, p.serial ≠ 1 := by
      intro p old isFirst
      exact absent _ (List.mem_map_of_mem old)
        ((Process.after_serial p serial status heir).trans isFirst)
    have apart : serial ≠ 1 := fun isOne => missing q stored (isSerial.trans isOne)
    dsimp only
    rw [if_neg apart]
    exact leads.gone begun missing
  · intro before
    rw [(leads.before before).1] at stored
    cases stored
  · intro isPoint
    rw [leads.raised isPoint] at stored
    cases stored
  · intro code isPoint
    rw [(leads.returned code isPoint).1] at stored
    cases stored

/-- The command is not in the family any more. -/
theorem leads_finish (leads : s.Leads) (trying : s.point.stage = .trying)
    (orphanless : ∀ p ∈ s.family, p.parent ≠ 0) :
    s.family = [] ∧ (s.leader ≠ none → s.ended = some (s.status.getD 127)) := by
  have empty := leads.rooted.empty orphanless
  refine ⟨empty, fun begun => ?_⟩
  obtain ⟨ended, noted⟩ := leads.gone begun (fun p member => absurd (empty ▸ member) List.not_mem_nil)
  rw [noted trying]
  obtain ⟨code, isCode⟩ := Option.ne_none_iff_exists'.mp ended
  rw [isCode]
  rfl

/-- `own` stands somewhere outside its two blocks. -/
theorem leads_over (leads : s.Leads) {point : OwnPoint} (exited : point.stage = .after)
    (raised : point = .raised → s.family = [])
    (returned : ∀ code, point = .returned code → s.family = [] ∧
      (s.leader ≠ none → s.ended = some code)) :
    Leads { s with point } where
  rooted := leads.rooted
  mine := leads.mine
  first := leads.first
  gone := fun begun absent => ⟨(leads.gone begun absent).1, fun trying => by
    dsimp only at trying
    rw [exited] at trying
    cases trying⟩
  before := fun before => by
    dsimp only at before
    rw [exited] at before
    cases before
  raised := raised
  returned := returned

theorem leads_spawn (pid owner : Nat) (requested : Option OwnSignal) (force : Bool)
    {ended status : Option Int}
    (unknown : ended = none) :
    Leads ⟨owner, [⟨1, pid, 0, none, []⟩], 2, some pid, ended, status, requested, force,
      .unguarded⟩ where
  rooted := by
    constructor
    · intro p member
      obtain rfl := List.mem_singleton.mp member
      exact ⟨Nat.one_pos, Nat.one_lt_two⟩
    · exact List.nodup_singleton _
    · exact List.nodup_singleton _
    · intro p member
      obtain rfl := List.mem_singleton.mp member
      exact ⟨Nat.one_pos, .inl rfl⟩
  mine := by
    intro p member _
    obtain rfl := List.mem_singleton.mp member
    rfl
  first := by
    intro p member _
    obtain rfl := List.mem_singleton.mp member
    exact ⟨rfl, rfl, unknown.symm⟩
  gone := fun _ absent => absurd rfl (absent _ List.mem_cons_self)
  before := fun before => nomatch before
  raised := fun isPoint => nomatch isPoint
  returned := fun _ isPoint => nomatch isPoint

theorem leads_step (leads : s.Leads) (step : Guarded Step Careful s act t) : t.Leads := by
  obtain ⟨stepped, careful⟩ := step
  cases step_cases stepped with
  | refuse isPoint =>
    have empty := (leads.before (by rw [isPoint]; rfl)).1
    exact leads_over leads rfl (fun _ => empty) (fun _ returned => nomatch returned)
  | spawnFails isPoint =>
    obtain ⟨empty, unstarted, _⟩ := leads.before (by rw [isPoint]; rfl)
    exact leads_over leads rfl (fun raised => nomatch raised)
      (fun _ _ => ⟨empty, fun begun => absurd unstarted begun⟩)
  | spawn pid isPoint =>
    exact leads_spawn pid s.pid s.requested s.force (leads.before (by rw [isPoint]; rfl)).2.2
  | interrupted isPoint => cases careful
  | terminated isPoint =>
    exact leads_over leads rfl (fun raised => nomatch raised) (fun _ returned => nomatch returned)
  | abandon act raises isStage =>
    rcases raises with rfl | rfl
    · exact absurd isStage (of_decide_eq_true careful)
    · exact absurd isStage (of_decide_eq_true careful)
  | control act same started stays => exact leads_control leads same started stays
  | @wait serial p isPoint found =>
    have member := List.mem_of_find?_eq_some found
    have isP := List.find?_some found
    simp only [Bool.and_eq_true, decide_eq_true_eq] at isP
    refine leads_reap leads member isP.1.1 (Option.isSome_iff_ne_none.mp isP.1.2) ?_ ?_
    · intro isOne _
      obtain ⟨isLeader, _, noted⟩ := leads.first p member (isP.1.1.trans isOne)
      rw [if_pos isLeader]
      exact noted
    · intro apart
      exact if_neg (fun isLeader => apart (isP.1.1.symm.trans (leads.mine p member isLeader)))
  | finish isPoint orphanless =>
    have trying : s.point.stage = .trying := by rw [isPoint]; rfl
    exact leads_over leads rfl (fun raised => nomatch raised) (fun code same => by
      cases same
      exact leads_finish leads trying orphanless)
  | discard serial isPoint member isSerial exited =>
    refine leads_reap leads member isSerial exited (fun _ trying => ?_) (fun _ => rfl)
    rw [isPoint] at trying
    cases trying
  | cleaned isPoint orphanless =>
    exact leads_over leads rfl (fun _ => leads.rooted.empty orphanless)
      (fun _ returned => nomatch returned)
  | fork parent pid alive fresh => exact leads_fork leads alive fresh (of_decide_eq_true careful)
  | exit serial status heir alive above adopts => exact leads_exit leads alive above adopts
  | collect serial member isSerial exited inner =>
    refine leads_reap leads member isSerial exited (fun isOne _ => ?_) (fun _ => rfl)
    exact absurd (leads.first _ member (isSerial.trans isOne)).2.1 inner
  | request signal guarded => exact { leads with }

/-- Whatever the processes, the kernel and the controller do: when `own` raises or returns, no process
of the family is left, and the status it returns is the one the command ended with. -/
theorem own_outlives_family {pid : Nat} (run : Run (Guarded Step Careful) (start pid) acts t) :
    (t.point = .raised → t.family = []) ∧
    ∀ code, t.point = .returned code → t.family = [] ∧ (t.leader ≠ none → t.ended = some code) := by
  have leads : t.Leads :=
    run.invariant (P := Leads) (fun before step => leads_step before step) (leads_start pid)
  exact ⟨leads.raised, leads.returned⟩

/-- Several steps in a row, each of them checked before it is taken. -/
def steps (check : Own → OwnAct → Bool) : Own → List OwnAct → Option Own
  | s, [] => some s
  | s, act :: rest => if check s act then (s.step act).bind (fun t => steps check t rest) else none

theorem steps_run {check : Own → OwnAct → Bool} (stepped : steps check s acts = some t) :
    Run (Guarded Step (fun s act => check s act = true)) s acts t := by
  induction acts generalizing s with
  | nil =>
    cases stepped
    exact .nil _
  | cons act rest ih =>
    unfold steps at stepped
    split at stepped
    · rename_i passed
      obtain ⟨middle, first, later⟩ := Option.bind_eq_some_iff.mp stepped
      exact .cons ⟨first, passed⟩ (ih later)
    · cases stepped

/-- The command ends before the process it has forked, which the owner adopts. -/
theorem own_outlives_family_child :
    ∃ (acts : List OwnAct) (t : Own), Run (Guarded Step Careful) (start 1) acts t ∧
    t.point = .returned 7 ∧ t.family = [] ∧ t.ended = some 7 := by
  let acts : List OwnAct :=
    [.spawn 10, .install, .publish true, .fork 1 11, .exit 1 7 0, .wait 1, .waitNone,
    .receive none, .exit 2 0 0, .wait 2, .waitRaise]
  have evaluated : (steps careful (start 1) acts).any (fun t => t.leader.isSome &&
      match t.point with | .returned code => code = 7 | _ => false) = true := by decide +kernel
  obtain ⟨t, stepped, holds⟩ := Option.any_eq_true _ _ |>.mp evaluated
  rw [Bool.and_eq_true] at holds
  have run : Run (Guarded Step Careful) (start 1) acts t := steps_run stepped
  obtain ⟨code, isPoint, isCode⟩ : ∃ code, t.point = .returned code ∧ code = 7 := by
    cases point : t.point with
    | returned code =>
      rw [point] at holds
      exact ⟨code, rfl, of_decide_eq_true holds.2⟩
    | _ => simp [point] at holds
  subst isCode
  obtain ⟨empty, ended⟩ := (own_outlives_family run).2 7 isPoint
  exact ⟨acts, t, run, isPoint, empty, ended (Option.isSome_iff_ne_none.mp holds.1)⟩

theorem raised_of_steps (evaluated : (steps (fun _ _ => true) s acts).any (fun t => !t.family.isEmpty &&
    match t.point with | .raised => true | _ => false) = true) :
    ∃ t, Run Step s acts t ∧ t.point = .raised ∧ t.family ≠ [] := by
  obtain ⟨t, stepped, holds⟩ := Option.any_eq_true _ _ |>.mp evaluated
  rw [Bool.and_eq_true] at holds
  refine ⟨t, (steps_run stepped).unguarded, ?_, by simpa using holds.1⟩
  cases point : t.point with
  | raised => rfl
  | _ => simp [point] at holds

/-- Signals to a command of another user are refused: `own` raises and leaves it behind. So it does
when a grandchild is reaped while the cleanup asks for its children. And a process that gets the pid
of the command after it has its status reported instead. -/
theorem family_abandoned :
    (∃ (acts : List OwnAct) (t : Own), Run Step (start 1) acts t ∧ t.point = .raised ∧ t.family ≠ []) ∧
    (∃ (acts : List OwnAct) (t : Own), Run Step (start 1) (acts ++ [.scan .failed]) t ∧
      t.point = .raised ∧
      t.family ≠ []) ∧
    ∃ (acts : List OwnAct) (t : Own), Run Step (start 1) acts t ∧ t.point = .returned 5 ∧
      t.ended = some 7 := by
  refine ⟨⟨[.spawn 10, .install, .publish true, .waitNone, .receive (some .term), .scan .read,
    .scan .read, .scan .read,
      .deliver .failed, .scan .read, .scan .read, .scan .read, .deliver .failed],
        raised_of_steps (by decide +kernel)⟩,
    ⟨[.spawn 10, .install, .fork 1 11, .publish false, .scan .read, .scan .read, .exit 2 0 0,
      .collect 2],
      raised_of_steps (by decide +kernel)⟩, ?_⟩
  let acts : List OwnAct :=
    [.spawn 10, .install, .publish true, .fork 1 11, .exit 1 7 0, .wait 1, .fork 2 10,
    .exit 2 0 0, .wait 2, .exit 3 5 0, .wait 3, .waitRaise]
  have evaluated : (steps (fun _ _ => true) (start 1) acts).any (fun t => t.ended = some 7 &&
      match t.point with | .returned code => code = 5 | _ => false) = true := by decide +kernel
  obtain ⟨t, stepped, holds⟩ := Option.any_eq_true _ _ |>.mp evaluated
  rw [Bool.and_eq_true, decide_eq_true_eq] at holds
  refine ⟨acts, t, (steps_run stepped).unguarded, ?_, holds.1⟩
  cases point : t.point with
  | returned code =>
    rw [point] at holds
    rw [of_decide_eq_true holds.2]
  | _ => simp [point] at holds

end Own
end LocalFlow
