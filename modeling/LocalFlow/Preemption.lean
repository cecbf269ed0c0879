import LocalFlow.ProcessOwner
import LocalFlow.Library.Run

/-! The loop of `own` between two of its steps. The handler can run at any of these points, and it
writes the variable that the loop reads, acts on and clears. -/
namespace LocalFlow
open Transition

/-- A datagram of the control socket. -/
inductive ControlMessage where
  | sigint | sigterm | sigkill | other

def ControlMessage.signal? : ControlMessage → Option OwnSignal
  | .sigint => some .int
  | .sigterm => some .term
  | .sigkill => some .kill
  | .other => none

/-- Where the loop stands. At `received` the datagram is there and the default of `get` is not read,
at `looked` it is read and the result is not stored. `signalling`, `forcing` and `killing` are inside
of the three calls of `_signal_family`. -/
inductive LoopPoint where
  | publishing | reaping | receiving
  | received (message : ControlMessage)
  | looked (message : ControlMessage) (pending : Option OwnSignal)
  | testing | acting | calling
  | signalling (signal : OwnSignal)
  | clearing | checking | forcing
  | cleaning | killing | collecting
  | drained | raised

def LoopPoint.over : LoopPoint → Bool
  | .drained | .raised => true
  | _ => false

/-- Where no call of `_signal_family` is ahead before the end of the turn. -/
def LoopPoint.ends : LoopPoint → Bool
  | .killing | .collecting | .drained | .raised => true
  | _ => false

/-- `passing` are the signals passed to `_signal_family` in the present turn, `turns` those of the
turns before. -/
structure OwnLoop where
  requested : Option OwnSignal
  force : Bool
  point : LoopPoint
  passing : List OwnSignal
  turns : List (List OwnSignal)

/-- `signal` is a run of the handler, `waited` the reaping of one child. -/
inductive LoopAct where
  | signal (signal : OwnSignal)
  | waited
  | reap (left : Bool)
  | receive (message : Option ControlMessage)
  | next
  | fail

/-- The acts of the loop itself. The children that have ended are reaped in a single one. -/
def LoopAct.own : LoopAct → Bool
  | .signal _ | .waited => false
  | _ => true

/-- The request that an act brings. -/
def LoopAct.receives : LoopAct → Option OwnSignal
  | .signal sig => some sig
  | .receive message => message.bind ControlMessage.signal?
  | _ => none

namespace OwnLoop

def start : OwnLoop := ⟨none, false, .publishing, [], []⟩

section Model
variable (s : OwnLoop)

/-- Everything passed to `_signal_family`. -/
def passed : List OwnSignal := s.turns.flatten ++ s.passing

def goto (point : LoopPoint) : OwnLoop := { s with point }

/-- The call of `_signal_family`. -/
def pass (signal : OwnSignal) (point : LoopPoint) : OwnLoop :=
  { s with passing := s.passing ++ [signal], point }

def endTurn (point : LoopPoint) : OwnLoop :=
  { s with passing := [], turns := s.turns ++ [s.passing], point }

def proceed : Option OwnLoop :=
  match s.point with
  | .publishing => some (s.goto .reaping)
  | .received message => some (s.goto (.looked message s.requested))
  | .looked message pending =>
    some { s with requested := message.signal?.or pending, point := .testing }
  | .testing => some (s.goto (if s.requested.isSome then .acting else .checking))
  | .acting => some { s with force := s.force || s.requested = some .kill, point := .calling }
  | .calling => s.requested.map (fun signal => s.pass signal (.signalling signal))
  | .signalling _ => some (s.goto .clearing)
  | .clearing => some { s with requested := none, point := .checking }
  | .checking => some (if s.force then s.pass .kill .forcing else s.endTurn .reaping)
  | .forcing => some (s.endTurn .reaping)
  | .cleaning => some (s.pass .kill .killing)
  | .killing => some (s.goto .collecting)
  | .reaping | .receiving | .collecting | .drained | .raised => none

def step : LoopAct → Option OwnLoop
  | .signal signal => if s.point.over ∨ signal = .kill then none
      else some { s with requested := some signal }
  | .waited =>
    match s.point with
    | .reaping | .collecting => some s
    | _ => none
  | .reap left =>
    match s.point with
    | .reaping => some (s.goto (if left then .receiving else .drained))
    | .collecting => some (if left then s.endTurn .cleaning else s.goto .raised)
    | _ => none
  | .receive message =>
    match s.point with
    | .receiving => some (s.goto (message.elim .testing .received))
    | _ => none
  | .next => s.proceed
  | .fail =>
    match s.point with
    | .publishing | .receiving | .signalling _ | .forcing => some (s.goto .cleaning)
    | .killing => some (s.goto .raised)
    | _ => none

/-- What `_signal_family` is passed next if nothing else is requested. -/
def coming : Option OwnSignal :=
  match s.point with
  | .received message => message.signal?.or s.requested
  | .looked message pending => message.signal?.or pending
  | .signalling _ | .clearing | .killing | .collecting | .drained | .raised => none
  | .cleaning => some .kill
  | _ => s.requested

/-- Whether a request may take the place of the one that is coming: there is none, it is the same,
or it is a kill and the family is killed in every turn anyway. -/
def Yields (signal : OwnSignal) : Prop :=
  s.coming = none ∨ s.coming = some signal ∨ s.coming = some .kill ∧ s.force = true

/-- An act that loses no request. The handler runs where the loop still reads what it writes,
neither the handler nor a datagram overwrites another request, and no exception drops one. -/
def Safe : LoopAct → Prop
  | .signal signal => { s with requested := some signal }.coming = some signal ∧ s.Yields signal
  | .receive message => ∀ signal ∈ message.bind ControlMessage.signal?, s.Yields signal
  | .fail => s.coming = none ∨ s.coming = some .kill
  | _ => True

instance (signal : OwnSignal) : Decidable (s.Yields signal) := inferInstanceAs (Decidable (_ ∨ _ ∨ _))

instance (act : LoopAct) : Decidable (s.Safe act) :=
  match act with
  | .signal _ => inferInstanceAs (Decidable (_ ∧ _))
  | .receive message =>
    inferInstanceAs (Decidable (∀ signal ∈ message.bind ControlMessage.signal?, s.Yields signal))
  | .fail => inferInstanceAs (Decidable (_ ∨ _))
  | .waited | .reap _ | .next => inferInstanceAs (Decidable True)

def Step (act : LoopAct) (t : OwnLoop) : Prop := s.step act = some t

end Model

abbrev Kept : OwnLoop → LoopAct → OwnLoop → Prop := Guarded Step Safe

variable {s t u : OwnLoop} {act : LoopAct} {sig : OwnSignal}

/-! ## What comes is passed -/

/-- The signal is still to be passed to `_signal_family`: it comes next, or it is a kill and the
turn ends with one. -/
def Owes (s : OwnLoop) (sig : OwnSignal) : Prop :=
  s.coming = some sig ∨ sig = .kill ∧ s.force = true ∧ s.point.ends = false

/-- The steps of the loop up to the call to which the signal is passed. -/
def distance (s : OwnLoop) (sig : OwnSignal) : Nat :=
  match s.point with
  | .publishing | .forcing => 11
  | .reaping => 10
  | .receiving => 9
  | .received _ => 8
  | .looked _ _ => 7
  | .testing => 6
  | .acting => 5
  | .calling => 4
  | .signalling _ | .killing => 3
  | .clearing | .collecting => 2
  | .checking => if sig = .kill ∧ s.force = true then 1 else 12
  | .cleaning => 1
  | .drained | .raised => 0

/-- The signal has been passed since, or no process of the family is left. -/
def Passes (before : List OwnSignal) (sig : OwnSignal) (s : OwnLoop) : Prop :=
  s.point = .drained ∨ ∃ more, s.passed = before ++ more ∧ sig ∈ more

theorem distance_le : s.distance sig ≤ 12 := by
  unfold distance
  split <;> first | omega | (split <;> omega)

/-- A call passes one signal, everything else none. -/
theorem passed_step (step : s.Step act t) : ∃ more, t.passed = s.passed ++ more := by
  obtain ⟨requested, force, point, passing, turns⟩ := s
  cases act with
  | signal signal =>
    simp only [Step, OwnLoop.step] at step
    split at step <;> cases step
    exact ⟨[], by simp [passed]⟩
  | waited =>
    cases point <;> cases step <;> exact ⟨[], by simp⟩
  | reap left =>
    cases left <;> cases point <;> cases step <;> exact ⟨[], by simp [passed, goto, endTurn]⟩
  | receive message =>
    cases point <;> cases step
    exact ⟨[], by simp [passed, goto]⟩
  | next =>
    cases point with
    | calling =>
      obtain ⟨signal, _, rfl⟩ := Option.map_eq_some_iff.mp step
      exact ⟨[signal], by simp [passed, pass]⟩
    | checking =>
      cases force <;> cases step
      · exact ⟨[], by simp [passed, endTurn]⟩
      · exact ⟨[.kill], by simp [passed, pass]⟩
    | cleaning =>
      cases step
      exact ⟨[.kill], by simp [passed, pass]⟩
    | forcing =>
      cases step
      exact ⟨[], by simp [passed, endTurn]⟩
    | _ => cases step <;> exact ⟨[], by simp [passed, goto]⟩
  | fail =>
    cases point <;> cases step <;> exact ⟨[], by simp [passed, goto]⟩

theorem owes_signal (kept : Kept s (.signal other) t) (owes : s.Owes sig) :
    t.Owes sig ∧ t.distance sig = s.distance sig := by
  obtain ⟨step, reads, yields⟩ := kept
  simp only [Step, OwnLoop.step] at step
  split at step <;> cases step
  rename_i fits
  refine ⟨?_, rfl⟩
  obtain comes | forced := owes
  · obtain idle | same | ⟨killing, force⟩ := yields
    · cases comes.symm.trans idle
    · exact .inl (reads.trans (same.symm.trans comes))
    · have isKill : sig = .kill := Option.some.inj (comes.symm.trans killing)
      refine .inr ⟨isKill, force, ?_⟩
      unfold coming at comes
      grind [LoopPoint.ends]
  · exact .inr forced

theorem owes_reap (step : s.Step (.reap left) t) (owes : s.Owes sig) :
    t.point = .drained ∨ t.Owes sig ∧ t.distance sig + 1 ≤ s.distance sig := by
  obtain ⟨requested, force, point, passing, turns⟩ := s
  cases point with
  | reaping =>
    cases left <;> cases step
    · exact .inl rfl
    · exact .inr ⟨owes.imp id (fun ⟨isKill, forced, _⟩ => ⟨isKill, forced, rfl⟩), le_rfl⟩
  | collecting =>
    obtain comes | ⟨_, _, ends⟩ := owes
    · cases comes
    · cases ends
  | _ => cases step

theorem owes_receive (kept : Kept s (.receive message) t) (owes : s.Owes sig) :
    t.Owes sig ∧ t.distance sig + 1 ≤ s.distance sig := by
  obtain ⟨requested, force, point, passing, turns⟩ := s
  obtain ⟨step, yields⟩ := kept
  cases point with
  | receiving =>
    cases step
    cases message with
    | none => exact ⟨owes, by simp [distance, goto]⟩
    | some message =>
      refine ⟨?_, le_rfl⟩
      obtain comes | ⟨isKill, forced, _⟩ := owes
      · cases brings : message.signal? with
        | none => exact .inl (by simpa [coming, goto, brings] using comes)
        | some other =>
          obtain idle | same | ⟨killing, force⟩ := yields other brings
          · cases comes.symm.trans idle
          · have same : other = sig := Option.some.inj (same.symm.trans comes)
            exact .inl (by simp [coming, goto, brings, same])
          · exact .inr ⟨Option.some.inj (comes.symm.trans killing), force, rfl⟩
      · exact .inr ⟨isKill, forced, rfl⟩
  | _ => cases step

theorem owes_fail (kept : Kept s .fail t) (owes : s.Owes sig) :
    t.Owes sig ∧ t.distance sig + 1 ≤ s.distance sig := by
  obtain ⟨requested, force, point, passing, turns⟩ := s
  obtain ⟨step, drops⟩ := kept
  have isKill : sig = .kill := by
    obtain comes | ⟨isKill, _⟩ := owes
    · obtain idle | killing := drops
      · cases comes.symm.trans idle
      · exact Option.some.inj (comes.symm.trans killing)
    · exact isKill
  subst isKill
  cases point with
  | killing =>
    obtain comes | ⟨_, _, ends⟩ := owes
    · cases comes
    · cases ends
  | publishing | receiving | signalling | forcing =>
    cases step
    exact ⟨.inl rfl, by simp [distance, goto]⟩
  | _ => cases step

/-- A step of the loop goes on to the call, or is the call. -/
theorem owes_next (step : s.Step .next t) (owes : s.Owes sig) :
    (∃ more, t.passed = s.passed ++ more ∧ sig ∈ more) ∨ t.Owes sig ∧
      t.distance sig + 1 ≤ s.distance sig := by
  obtain ⟨requested, force, point, passing, turns⟩ := s
  cases point with
  | calling =>
    obtain ⟨signal, isRequested, rfl⟩ := Option.map_eq_some_iff.mp step
    obtain comes | ⟨isKill, forced, _⟩ := owes
    · obtain rfl : signal = sig := Option.some.inj (isRequested.symm.trans comes)
      exact .inl ⟨[signal], by simp [passed, pass], List.mem_singleton_self _⟩
    · exact .inr ⟨.inr ⟨isKill, forced, rfl⟩, le_rfl⟩
  | checking =>
    cases force with
    | false =>
      cases step
      obtain comes | ⟨_, forced, _⟩ := owes
      · exact .inr ⟨.inl comes, by simp [distance, endTurn]⟩
      · cases forced
    | true =>
      cases step
      by_cases isKill : sig = .kill
      · exact .inl ⟨[.kill], by simp [passed, pass], by simp [isKill]⟩
      · obtain comes | ⟨same, _⟩ := owes
        · exact .inr ⟨.inl comes, by simp [distance, pass, isKill]⟩
        · exact absurd same isKill
  | cleaning =>
    cases step
    obtain comes | ⟨isKill, _⟩ := owes
    · exact .inl ⟨[.kill], by simp [passed, pass], by simpa [coming, eq_comm] using comes⟩
    · exact .inl ⟨[.kill], by simp [passed, pass], by simp [isKill]⟩
  | testing =>
    cases requested with
    | none =>
      cases step
      obtain comes | ⟨isKill, forced, _⟩ := owes
      · cases comes
      · have forced : force = true := forced
        exact .inr ⟨.inr ⟨isKill, forced, rfl⟩, by simp [distance, goto, isKill, forced]⟩
    | some signal =>
      cases step
      exact .inr ⟨owes, le_rfl⟩
  | acting =>
    cases step
    refine .inr ⟨owes.imp id (fun ⟨isKill, forced, _⟩ => ⟨isKill, ?_, rfl⟩), le_rfl⟩
    have forced : force = true := forced
    simp [forced]
  | clearing =>
    cases step
    obtain comes | ⟨isKill, forced, _⟩ := owes
    · cases comes
    · have forced : force = true := forced
      exact .inr ⟨.inr ⟨isKill, forced, rfl⟩, by simp [distance, isKill, forced]⟩
  | signalling =>
    cases step
    obtain comes | forced := owes
    · cases comes
    · exact .inr ⟨.inr forced, le_rfl⟩
  | killing =>
    obtain comes | ⟨_, _, ends⟩ := owes
    · cases comes
    · cases ends
  | publishing | received | looked | forcing =>
    cases step
    exact .inr ⟨owes, le_rfl⟩
  | reaping | receiving | collecting | drained | raised => cases step

/-- What one step makes of a signal that is still to be passed. -/
theorem owes_step (kept : Kept s act t) (owes : s.Owes sig) :
    Passes s.passed sig t ∨ t.Owes sig ∧
      t.distance sig + (if act.own then 1 else 0) ≤ s.distance sig := by
  cases act with
  | signal other =>
    obtain ⟨still, same⟩ := owes_signal kept owes
    exact .inr ⟨still, same.le⟩
  | waited =>
    obtain ⟨step, _⟩ := kept
    obtain ⟨requested, force, point, passing, turns⟩ := s
    cases point <;> cases step <;> exact .inr ⟨owes, le_rfl⟩
  | reap left => exact (owes_reap kept.1 owes).imp .inl id
  | receive message => exact .inr (owes_receive kept owes)
  | next => exact (owes_next kept.1 owes).imp .inr id
  | fail => exact .inr (owes_fail kept owes)

/-- A request is on its way to the call as soon as it is there. -/
theorem receives_owes (kept : Kept s act t) (received : act.receives = some sig) : t.Owes sig := by
  obtain ⟨requested, force, point, passing, turns⟩ := s
  cases act with
  | signal other =>
    obtain ⟨step, reads, _⟩ := kept
    obtain rfl : other = sig := Option.some.inj received
    simp only [Step, OwnLoop.step] at step
    split at step <;> cases step
    exact .inl reads
  | receive message =>
    obtain ⟨step, _⟩ := kept
    cases point <;> cases step
    obtain ⟨message, rfl, brings⟩ := Option.bind_eq_some_iff.mp received
    exact .inl (by simp [coming, goto, brings])
  | waited | reap | next | fail => cases received

theorem drained_stays (gone : s.point = .drained) : ¬ s.Step act t := by
  obtain ⟨requested, force, point, passing, turns⟩ := s
  obtain rfl : point = .drained := gone
  cases act <;> intro step <;> cases step

theorem owes_live (owes : s.Owes sig) : s.point.over = false := by
  obtain ⟨requested, force, point, passing, turns⟩ := s
  cases point with
  | drained | raised =>
    obtain comes | ⟨_, _, ends⟩ := owes
    · cases comes
    · cases ends
  | _ => rfl

theorem distance_pos (live : s.point.over = false) : 0 < s.distance sig := by
  obtain ⟨requested, force, point, passing, turns⟩ := s
  cases point with
  | drained | raised => cases live
  | checking =>
    simp only [distance]
    split <;> omega
  | _ => simp [distance]

/-- The signal is still to be passed, and what was passed before is remembered. -/
def Underway (before : List OwnSignal) (sig : OwnSignal) (s : OwnLoop) : Prop :=
  s.Owes sig ∧ ∃ more, s.passed = before ++ more

theorem passes_step (kept : Kept s act t) (passes : Passes before sig s) : Passes before sig t := by
  obtain gone | ⟨more, sofar, member⟩ := passes
  · exact absurd kept.1 (drained_stays gone)
  · obtain ⟨new, isNew⟩ := passed_step kept.1
    exact .inr ⟨more ++ new, by rw [isNew, sofar, List.append_assoc], List.mem_append_left _ member⟩

theorem underway_step (underway : Underway before sig s) (kept : Kept s act t) :
    Passes before sig t ∨ Underway before sig t ∧
      t.distance sig + (if act.own then 1 else 0) ≤ s.distance sig := by
  obtain ⟨owes, more, sofar⟩ := underway
  obtain (gone | ⟨new, isNew, member⟩) | ⟨still, bound⟩ := owes_step kept owes
  · exact .inl (.inl gone)
  · exact .inl (.inr ⟨more ++
      new, by rw [isNew, sofar, List.append_assoc], List.mem_append_right _ member⟩)
  · obtain ⟨new, isNew⟩ := passed_step kept.1
    exact .inr ⟨⟨still, more ++ new, by rw [isNew, sofar, List.append_assoc]⟩, bound⟩

theorem passes_run (run : Run Kept s acts t) (owes : s.Owes sig) :
    Passes s.passed sig t ∨ Underway s.passed sig t ∧
      t.distance sig + acts.countP LoopAct.own ≤ s.distance sig :=
  run.reaches_of_rank (fun t => t.distance sig) LoopAct.own underway_step
    (fun passes kept => passes_step kept passes)
    ⟨owes, [], (List.append_nil _).symm⟩

/-! ## After a kill every turn kills -/

/-- The turn will have passed a kill when it ends, and so will every later one. -/
def Condemned (s : OwnLoop) : Prop :=
  match s.point with
  | .cleaning | .drained | .raised => True
  | .killing | .collecting => OwnSignal.kill ∈ s.passing
  | .forcing => s.force = true ∧ OwnSignal.kill ∈ s.passing
  | .calling | .signalling _ | .clearing | .checking => s.force = true
  | _ => s.force = true ∨ s.coming = some .kill

theorem condemned_signal (kept : Kept s (.signal sig) t) (condemned : s.Condemned) : t.Condemned := by
  obtain ⟨step, _, yields⟩ := kept
  simp only [Step, OwnLoop.step] at step
  split at step <;> cases step
  rename_i fits
  have other : sig ≠ .kill := fun isKill => fits (.inr isKill)
  -- a kill that comes yields only when the family is killed in every turn
  have held : s.coming = some .kill → s.force = true := by
    intro comes
    obtain idle | same | ⟨_, force⟩ := yields
    · cases comes.symm.trans idle
    · exact absurd (Option.some.inj (same.symm.trans comes)) other
    · exact force
  obtain ⟨requested, force, point, passing, turns⟩ := s
  cases point with
  | publishing | reaping | receiving | received | looked | testing | acting =>
    exact .inl (condemned.elim id held)
  | calling | signalling | clearing | checking | forcing | cleaning | killing | collecting
  | drained | raised => exact condemned

theorem condemned_next (step : s.Step .next t) (condemned : s.Condemned) : t.Condemned := by
  obtain ⟨requested, force, point, passing, turns⟩ := s
  cases point with
  | publishing | received | looked | signalling | killing =>
    cases step
    exact condemned
  | testing =>
    cases requested with
    | none =>
      cases step
      exact condemned.resolve_right (nomatch ·)
    | some signal =>
      cases step
      exact condemned
  | acting =>
    cases step
    obtain forced | comes := condemned
    · have forced : force = true := forced
      simp [Condemned, forced]
    · have comes : requested = some .kill := comes
      simp [Condemned, comes]
  | calling =>
    obtain ⟨signal, _, rfl⟩ := Option.map_eq_some_iff.mp step
    exact condemned
  | clearing =>
    cases step
    exact condemned
  | checking =>
    obtain rfl : force = true := condemned
    cases step
    exact ⟨rfl, List.mem_append_right _ (List.mem_singleton_self _)⟩
  | forcing =>
    cases step
    exact .inl condemned.1
  | cleaning =>
    cases step
    exact List.mem_append_right _ (List.mem_singleton_self _)
  | reaping | receiving | collecting | drained | raised => cases step

theorem condemned_step (kept : Kept s act t) (condemned : s.Condemned) : t.Condemned := by
  cases act with
  | signal sig => exact condemned_signal kept condemned
  | waited =>
    obtain ⟨step, _⟩ := kept
    obtain ⟨requested, force, point, passing, turns⟩ := s
    cases point <;> cases step <;> exact condemned
  | reap left =>
    obtain ⟨step, _⟩ := kept
    obtain ⟨requested, force, point, passing, turns⟩ := s
    cases left <;> cases point <;> cases step
    · trivial
    · trivial
    · exact condemned
    · trivial
  | receive message =>
    obtain ⟨step, yields⟩ := kept
    obtain ⟨requested, force, point, passing, turns⟩ := s
    cases point <;> cases step
    cases message with
    | none => exact condemned
    | some message =>
      obtain forced | comes := condemned
      · exact .inl forced
      · cases brings : message.signal? with
        | none => exact .inr (by simpa [coming, goto, brings] using comes)
        | some other =>
          obtain idle | same | ⟨_, force⟩ := yields other brings
          · cases comes.symm.trans idle
          · have isKill : other = .kill := Option.some.inj (same.symm.trans comes)
            exact .inr (by simp [coming, goto, brings, isKill])
          · exact .inl force
  | next => exact condemned_next kept.1 condemned
  | fail =>
    obtain ⟨step, _⟩ := kept
    obtain ⟨requested, force, point, passing, turns⟩ := s
    cases point <;> cases step <;> trivial

/-- A turn that ends has passed a kill. -/
theorem turn_step (step : s.Step act t) (condemned : s.Condemned) :
    ∃ ended, t.turns = s.turns ++ ended ∧ ∀ turn ∈ ended, OwnSignal.kill ∈ turn := by
  obtain ⟨requested, force, point, passing, turns⟩ := s
  have quiet : ∃ ended, turns = turns ++ ended ∧ ∀ turn ∈ ended, OwnSignal.kill ∈ turn :=
    ⟨[], (List.append_nil _).symm, fun turn member => nomatch member⟩
  have ends : OwnSignal.kill ∈ passing → ∃ ended, turns ++ [passing] = turns ++ ended ∧
    ∀ turn ∈ ended, OwnSignal.kill ∈ turn :=
    fun killed => ⟨[passing], rfl, fun turn member => List.mem_singleton.mp member ▸ killed⟩
  cases act with
  | signal sig =>
    simp only [Step, OwnLoop.step] at step
    split at step <;> cases step
    exact quiet
  | reap left =>
    cases left <;> cases point <;> cases step
    · exact quiet
    · exact quiet
    · exact quiet
    · exact ends condemned
  | waited | receive | fail => cases point <;> cases step <;> exact quiet
  | next =>
    cases point with
    | calling =>
      obtain ⟨signal, _, rfl⟩ := Option.map_eq_some_iff.mp step
      exact quiet
    | checking =>
      obtain rfl : force = true := condemned
      cases step
      exact quiet
    | forcing =>
      cases step
      exact ends condemned.2
    | _ => cases step <;> exact quiet

theorem turns_run (run : Run Kept s acts t) (condemned : s.Condemned) :
    ∃ ended, t.turns = s.turns ++ ended ∧ ∀ turn ∈ ended, OwnSignal.kill ∈ turn := by
  induction run with
  | nil => exact ⟨[], (List.append_nil _).symm, fun turn member => nomatch member⟩
  | cons head tail ih =>
    obtain ⟨first, isFirst, killed⟩ := turn_step head.1 condemned
    obtain ⟨more, isMore, later⟩ := ih (condemned_step head condemned)
    refine ⟨first ++ more, by rw [isMore, isFirst, List.append_assoc], ?_⟩
    intro turn member
    exact (List.mem_append.mp member).elim (killed turn) (later turn)

/-- Only a datagram is a kill. -/
theorem kill_condemns (kept : Kept s act t) (received : act.receives = some .kill) : t.Condemned := by
  cases act with
  | signal sig =>
    obtain ⟨step, _⟩ := kept
    obtain rfl : sig = .kill := Option.some.inj received
    simp [Step, OwnLoop.step] at step
  | receive message =>
    have owes := receives_owes kept received
    obtain ⟨step, _⟩ := kept
    obtain ⟨requested, force, point, passing, turns⟩ := s
    cases point <;> cases step
    obtain ⟨message, rfl, brings⟩ := Option.bind_eq_some_iff.mp received
    exact owes.symm.imp (fun forced => forced.2.1) id
  | waited | reap | next | fail => cases received

/-! ## The loop goes on -/

/-- What the loop acts on is there. -/
def Loaded (s : OwnLoop) : Prop :=
  match s.point with
  | .acting | .calling => s.requested ≠ none
  | _ => True

theorem loaded_step (step : s.Step act t) (loaded : s.Loaded) : t.Loaded := by
  obtain ⟨requested, force, point, passing, turns⟩ := s
  cases act with
  | signal sig =>
    simp only [Step, OwnLoop.step] at step
    split at step <;> cases step
    cases point <;> first | trivial | exact Option.some_ne_none _
  | waited => cases point <;> cases step <;> trivial
  | reap left => cases left <;> cases point <;> cases step <;> trivial
  | receive message => cases message <;> cases point <;> cases step <;> trivial
  | fail => cases point <;> cases step <;> trivial
  | next =>
    cases point with
    | testing =>
      cases requested <;> cases step
      · trivial
      · exact Option.some_ne_none _
    | acting =>
      cases step
      exact loaded
    | calling =>
      obtain ⟨signal, _, rfl⟩ := Option.map_eq_some_iff.mp step
      trivial
    | checking => cases force <;> cases step <;> trivial
    | _ => cases step <;> trivial

/-- The loop can go on until it is over, whatever was requested. -/
theorem loop_continues (run : Run Step start acts s) :
    s.point.over = true ∨ ∃ act t, act.own = true ∧ Kept s act t := by
  have loaded : s.Loaded := run.invariant (fun held step => loaded_step step held) trivial
  obtain ⟨requested, force, point, passing, turns⟩ := s
  cases point with
  | drained | raised => exact .inl rfl
  | reaping | collecting => exact .inr ⟨.reap true, _, rfl, rfl, trivial⟩
  | receiving => exact .inr ⟨.receive none, _, rfl, rfl, fun signal member => nomatch member⟩
  | calling =>
    obtain ⟨signal, isRequested⟩ := Option.ne_none_iff_exists'.mp loaded
    exact .inr ⟨.next, _, rfl, Option.map_eq_some_iff.mpr ⟨signal, isRequested, rfl⟩, trivial⟩
  | publishing | received | looked | testing | acting | signalling | clearing | checking
  | forcing | cleaning | killing =>
    exact .inr ⟨.next, _, rfl, rfl, trivial⟩

/-- In a run whose acts all are safe every request is passed to `_signal_family` within twelve acts
of the loop, which can always go on, unless no process of the family is left. After a `sigkill`
every turn passes a kill. -/
theorem requests_passed (run : Run Kept start before s) (kept : Kept s act t)
    (received : act.receives = some sig)
    (later : Run Kept t after u) :
    (u.point.over = true ∨ ∃ act v, act.own = true ∧ Kept u act v) ∧
    (u.point.over = true ∨ 12 ≤ after.countP LoopAct.own → Passes t.passed sig u) ∧
    (sig = .kill → ∃ ended, u.turns = t.turns ++ ended ∧ ∀ turn ∈ ended, OwnSignal.kill ∈ turn) := by
  refine ⟨?_, ?_, ?_⟩
  · exact loop_continues (run.unguarded.append (.cons kept.1 later.unguarded))
  · intro enough
    have owes : t.Owes sig := receives_owes kept received
    obtain passes | ⟨⟨still, _⟩, bound⟩ := passes_run later owes
    · exact passes
    · have live : u.point.over = false := owes_live still
      have ahead : 0 < u.distance sig := distance_pos live
      have most : t.distance sig ≤ 12 := distance_le
      obtain gone | many := enough
      · cases live.symm.trans gone
      · omega
  · rintro rfl
    exact turns_run later (kill_condemns kept received)

theorem requests_passed_kill : ∃ t u : OwnLoop, u.turns ≠ t.turns ∧ Passes t.passed .kill u ∧
    ∃ ended, u.turns = t.turns ++ ended ∧ ∀ turn ∈ ended, OwnSignal.kill ∈ turn := by
  have before : Run Kept start [.next, .reap true] ⟨none, false, .receiving, [], []⟩ :=
    replay_run (fun _ _ => of_decide_eq_true) rfl
  have kept : Kept ⟨none, false, .receiving, [], []⟩ (.receive (some .sigkill))
    ⟨none, false, .received .sigkill, [], []⟩ :=
    ⟨rfl, by decide⟩
  have later : Run Kept ⟨none, false, .received .sigkill, [], []⟩
      [.next, .next, .next, .next, .next, .next, .next, .next, .next, .signal .term, .reap true,
        .receive none, .next]
      ⟨some .term, true, .acting, [], [[.kill, .kill]]⟩ :=
    replay_run (fun _ _ => of_decide_eq_true) rfl
  obtain ⟨_, passes, turns⟩ := requests_passed before kept rfl later
  exact ⟨_, _, List.cons_ne_nil _ _, passes (.inr le_rfl), turns rfl⟩

theorem steps_of_replay (replayed : replay OwnLoop.step (fun _ _ => true) s acts = some t) :
    Run Step s acts t := by
  have run : Run (Guarded Step (fun _ _ => True)) s acts t := replay_run (fun _ _ _ => trivial) replayed
  exact run.unguarded

/-- Turns in which nothing is requested and the family is not killed. -/
theorem idle_run (n : Nat) (turns : List (List OwnSignal)) :
    ∃ after u, Run Step ⟨none, false, .reaping, [], turns⟩ after u ∧ n ≤ after.countP LoopAct.own ∧
      u.point = .reaping ∧ u.passed = turns.flatten := by
  induction n generalizing turns with
  | zero => exact ⟨[], _, .nil _, le_rfl, rfl, List.append_nil _⟩
  | succ n ih =>
    obtain ⟨after, u, run, count, isPoint, passed⟩ := ih (turns ++ [[]])
    have turn : Run Step ⟨none, false, .reaping, [], turns⟩ [.reap true, .receive none, .next, .next]
        ⟨none, false, .reaping, [], turns ++ [[]]⟩ := steps_of_replay rfl
    refine ⟨_, u, turn.append run, ?_, isPoint, by rw [passed]; simp⟩
    rw [List.countP_append]
    have four : List.countP LoopAct.own [.reap true, .receive none, .next, .next] = 4 := rfl
    omega

/-- The handler runs while the family is being signalled, and what it wrote is cleared. It runs when
the datagram is stored, and the kill is gone when `force` is computed. However long the loop goes
on, neither is passed. -/
theorem request_lost :
    (∃ acts s t, Run Step start acts s ∧ s.Step (.signal .term) t ∧
      ∀ n, ∃ after u, Run Step t after u ∧ n ≤ after.countP LoopAct.own ∧ u.point = .reaping ∧
        u.passed = t.passed) ∧
    ∃ acts s t, Run Step start acts s ∧ s.Step (.receive (some .sigkill)) t ∧
      ∀ n, ∃ after u, Run Step t after u ∧ n ≤ after.countP LoopAct.own ∧ u.point = .reaping ∧
        OwnSignal.kill ∉ u.passed := by
  have again : ∀ {t : OwnLoop} {acts turns}, Run Step t acts ⟨none, false, .reaping, [], turns⟩ →
    ∀ n, ∃ after u,
      Run Step t after u ∧ n ≤ after.countP LoopAct.own ∧ u.point = .reaping ∧
        u.passed = turns.flatten := by
    intro t acts turns first n
    obtain ⟨after, u, run, count, rest⟩ := idle_run n turns
    exact ⟨acts ++ after, u, first.append run, by rw [List.countP_append]; omega, rest⟩
  constructor
  · have before : Run Step start [.next, .reap true, .receive (some .sigint), .next, .next, .next,
      .next, .next]
        ⟨some .int, false, .signalling .int, [.int], []⟩ := steps_of_replay rfl
    have first : Run Step ⟨some .term, false, .signalling .int, [.int], []⟩ [.next, .next, .next]
        ⟨none, false, .reaping, [], [[.int]]⟩ := steps_of_replay rfl
    exact ⟨_, _, _, before, rfl, again first⟩
  · have before : Run Step start [.next, .reap true] ⟨none, false, .receiving, [], []⟩ :=
      steps_of_replay rfl
    have first : Run Step ⟨none, false, .received .sigkill, [], []⟩
        [.next, .next, .signal .term, .next, .next, .next, .next, .next, .next]
          ⟨none, false, .reaping, [], [[.term]]⟩ :=
      steps_of_replay rfl
    refine ⟨_, _, _, before, rfl, fun n => ?_⟩
    obtain ⟨after, u, run, count, isPoint, passed⟩ := again first n
    exact ⟨after, u, run, count, isPoint, by simp [passed]⟩

/-! ## Without preemption -/

end OwnLoop

/-- The point of the loop inside of a call of `_signal_family`. -/
def Purpose.loop (signal : OwnSignal) : Purpose → LoopPoint
  | .request => .signalling signal
  | .force => .forcing
  | .cleanup => .killing

/-- The points of the loop at which the steps of `Own` begin. -/
def OwnPoint.loop : OwnPoint → Option LoopPoint
  | .publishing => some .publishing
  | .reaping => some .reaping
  | .receiving => some .receiving
  | .scanning signal _ _ purpose | .signalling signal _ purpose => some (purpose.loop signal)
  | .collecting => some .collecting
  | .returned _ => some .drained
  | .raised => some .raised
  | .spawning | .unguarded | .killed => none

/-- The loop stands where the steps of the owner begin. -/
structure Reflects (o : Own) (s : OwnLoop) : Prop where
  point : o.point.loop = some s.point
  requested : s.requested = o.requested
  force : s.force = o.force

theorem Reflects.stands {o : Own} {s : OwnLoop} (reflects : Reflects o s) (isPoint : o.point = place) :
    place.loop = some s.point := isPoint ▸ reflects.point

theorem Reflects.at {o : Own} {s : OwnLoop} (reflects : Reflects o s) (isPoint : o.point = place)
    (shown : place.loop = some here) :
    s.point = here := Option.some.inj ((reflects.stands isPoint).symm.trans shown)

namespace OwnLoop
variable {s t : OwnLoop} {o other : Own} {act : OwnAct}

theorem run_next (isNext : s.proceed = some t) : Run Step s [.next] t := .single isNext

/-- From the test of `force` to the start of the next turn. -/
theorem checking_reflects (isPoint : s.point = .checking) (requested : s.requested = o.requested)
    (force : s.force = o.force) :
    ∃ acts t, Run Step s acts t ∧ Reflects o.forceFamily t := by
  unfold Own.forceFamily
  split
  · rename_i forced
    refine ⟨[.next], s.pass .kill .forcing, run_next ?_, rfl, requested, force⟩
    simp [proceed, isPoint, force, forced]
  · rename_i forced
    refine ⟨[.next], s.endTurn .reaping, run_next ?_, rfl, requested, force⟩
    simp [proceed, isPoint, force, forced]

/-- From the test of `requested` to a call of `_signal_family`, or to the next turn. -/
theorem testing_reflects (message : Option OwnSignal) (isPoint : s.point = .testing)
    (requested : s.requested = message.or o.requested) (force : s.force = o.force) :
    ∃ acts t, Run Step s acts t ∧ Reflects (o.received message) t := by
  unfold Own.received
  split
  · rename_i idle
    have unrequested : o.requested = none := (Option.or_eq_none_iff.mp idle).2
    have first : Run Step s [.next] (s.goto .checking) :=
      run_next (by simp [proceed, isPoint, requested, idle])
    obtain ⟨acts, t, run, reflects⟩ :=
      checking_reflects (s := s.goto .checking) rfl
      (requested.trans (idle.trans unrequested.symm)) force
    exact ⟨_, t, first.append run, reflects⟩
  · rename_i signal isSignal
    have isSignal : s.requested = some signal := requested.trans isSignal
    have first : Run Step s [.next] (s.goto .acting) := run_next (by simp [proceed, isPoint, isSignal])
    have second : Run Step (s.goto .acting) [.next]
        { s with force := s.force || s.requested = some .kill, point := .calling } :=
      run_next rfl
    have third := run_next
      (s := { s with force := s.force || s.requested = some .kill, point := .calling })
      (Option.map_eq_some_iff.mpr ⟨signal, isSignal, rfl⟩)
    refine ⟨_, _, (first.append second).append third, rfl, isSignal, ?_⟩
    simp [pass, force, isSignal, Own.signalFamily]

/-- From the return of `recv`, or its timeout, to the test of `requested`. -/
theorem receiving_reflects (isPoint : s.point = .receiving) (requested : s.requested = o.requested)
    (force : s.force = o.force)
    (message : Option ControlMessage) :
    ∃ acts t, Run Step s acts t ∧ Reflects (o.received (message.bind ControlMessage.signal?)) t := by
  cases message with
  | none =>
    have first : Run Step s [.receive none] (s.goto .testing) :=
      .single (by simp [Step, OwnLoop.step, isPoint])
    obtain ⟨acts, t, run, reflects⟩ := testing_reflects (s := s.goto .testing) none rfl requested force
    exact ⟨_, t, first.append run, reflects⟩
  | some message =>
    have first : Run Step s [.receive (some message)] (s.goto (.received message)) :=
      .single (by simp [Step, OwnLoop.step, isPoint])
    have second : Run Step (s.goto (.received message)) [.next]
      (s.goto (.looked message s.requested)) := run_next rfl
    have third : Run Step (s.goto (.looked message s.requested)) [.next]
        { s with requested := message.signal?.or s.requested, point := .testing } := run_next rfl
    obtain ⟨acts, t, run, reflects⟩ :=
      testing_reflects (o := o)
        (s := { s with requested := message.signal?.or s.requested, point := .testing })
      message.signal? rfl (by rw [← requested]) force
    exact ⟨_, t, (first.append (second.append third)).append run, reflects⟩

/-- From the end of a call of `_signal_family` on. -/
theorem signalled_reflects (purpose : Purpose) (isPoint : s.point = purpose.loop signal)
    (requested : s.requested = o.requested)
    (force : s.force = o.force) : ∃ acts t, Run Step s acts t ∧ Reflects (o.signalled purpose) t := by
  cases purpose with
  | request =>
    have isPoint : s.point = .signalling signal := isPoint
    have first : Run Step s [.next] (s.goto .clearing) := run_next (by simp [proceed, isPoint])
    have second : Run Step (s.goto .clearing) [.next]
      { s with requested := none, point := .checking } := run_next rfl
    obtain ⟨acts, t, run, reflects⟩ :=
      checking_reflects (s := { s with requested := none, point := .checking })
      (o := { o with requested := none }) rfl rfl force
    exact ⟨_, t, (first.append second).append run, reflects⟩
  | force =>
    have isPoint : s.point = .forcing := isPoint
    exact ⟨[.next], s.endTurn .reaping, run_next (by simp [proceed, isPoint]), rfl, requested, force⟩
  | cleanup =>
    have isPoint : s.point = .killing := isPoint
    exact ⟨[.next], s.goto .collecting, run_next (by simp [proceed, isPoint]), rfl, requested, force⟩

/-- An exception before the `finally` block goes to the call there. -/
theorem fails_reflects (fails : s.Step .fail (s.goto .cleaning))
    (requested : s.requested = o.requested) (force : s.force = o.force) :
    ∃ acts t, Run Step s acts t ∧ Reflects (o.signalFamily .kill .cleanup) t :=
  ⟨[.fail, .next], (s.goto .cleaning).pass .kill .killing, .cons fails (run_next rfl), rfl,
    requested, force⟩

/-- From an exception of `_signal_family` on. -/
theorem raise_reflects (purpose : Purpose) (isPoint : s.point = purpose.loop signal)
    (requested : s.requested = o.requested)
    (force : s.force = o.force) : ∃ acts t, Run Step s acts t ∧ Reflects (o.raise purpose) t := by
  cases purpose with
  | request =>
    have isPoint : s.point = .signalling signal := isPoint
    exact fails_reflects (by simp [Step, OwnLoop.step, isPoint]) requested force
  | force =>
    have isPoint : s.point = .forcing := isPoint
    exact fails_reflects (by simp [Step, OwnLoop.step, isPoint]) requested force
  | cleanup =>
    have isPoint : s.point = .killing := isPoint
    exact ⟨[.fail], s.goto .raised, .single (by simp [Step, OwnLoop.step, isPoint]), rfl,
      requested, force⟩

theorem guarded_loop (guarded : o.guarded = true) (isPoint : o.point.loop = some place) :
    place.over = false := by
  obtain ⟨pid, family, count, leader, ended, status, requested, force, own⟩ := o
  cases own with
  | spawning | unguarded | returned | raised | killed => cases guarded
  | scanning signal pending found purpose => cases purpose <;> cases isPoint <;> rfl
  | signalling signal targets purpose => cases purpose <;> cases isPoint <;> rfl
  | publishing | reaping | receiving | collecting =>
    cases isPoint
    rfl

/-- Outside of the code of `own` itself only the handler touches what the loop reads. -/
theorem moves_reflects (reflects : Reflects o s) (moved : o.move act = some other) :
    ∃ acts t, Run Step s acts t ∧ Reflects other t := by
  unfold Own.move at moved
  split at moved
  · split at moved <;> cases moved
    exact ⟨[], s, .nil s, reflects.point, reflects.requested, reflects.force⟩
  · split at moved <;> cases moved
    exact ⟨[], s, .nil s, reflects.point, reflects.requested, reflects.force⟩
  · split at moved <;> cases moved
    exact ⟨[], s, .nil s, reflects.point, reflects.requested, reflects.force⟩
  · split at moved <;> cases moved
    rename_i signal fits
    have live : s.point.over = false := guarded_loop fits.1 reflects.point
    refine ⟨[.signal signal], { s with requested := some signal }, .single ?_, reflects.point, rfl,
      reflects.force⟩
    simp [Step, OwnLoop.step, live, fits.2]
  · cases moved

/-- Every step of the owner is a run of the loop in which the handler runs where the step begins at
the latest. -/
theorem step_reflects (reflects : Reflects o s) (step : o.Step act other)
    (datagram : act ≠ .receive (some .hup)) :
    ∃ acts t, Run Step s acts t ∧ Reflects other t := by
  have requested := reflects.requested
  have force := reflects.force
  unfold Own.Step Own.step at step
  split at step
  -- before the loop
  · cases reflects.stands ‹_›
  · cases reflects.stands ‹_›
  · cases reflects.stands ‹_›
  · cases reflects.stands ‹_›
  · cases reflects.stands ‹_›
  · cases reflects.stands ‹_›
  · rename_i place
    have isPoint : s.point = .publishing := reflects.at place rfl
    cases step
    split
    · exact ⟨[.next], s.goto .reaping, run_next (by simp [proceed, isPoint]), rfl, requested, force⟩
    · exact fails_reflects (by simp [Step, OwnLoop.step, isPoint]) requested force
  -- reaping
  · rename_i place
    have isPoint : s.point = .reaping := reflects.at place rfl
    split at step <;> cases step
    exact ⟨[.waited], s, .single (by simp [Step, OwnLoop.step, isPoint]), reflects.point,
      requested, force⟩
  · rename_i place
    have isPoint : s.point = .reaping := reflects.at place rfl
    split at step <;> cases step
    exact ⟨[.reap true], s.goto .receiving, .single (by simp [Step, OwnLoop.step, isPoint]), rfl,
      requested, force⟩
  · rename_i place
    have isPoint : s.point = .reaping := reflects.at place rfl
    split at step <;> cases step
    exact ⟨[.reap false], s.goto .drained, .single (by simp [Step, OwnLoop.step, isPoint]), rfl,
      requested, force⟩
  · rename_i message place
    have isPoint : s.point = .receiving := reflects.at place rfl
    cases step
    cases message with
    | none => exact receiving_reflects isPoint requested force none
    | some signal =>
      cases signal with
      | int => exact receiving_reflects isPoint requested force (some .sigint)
      | term => exact receiving_reflects isPoint requested force (some .sigterm)
      | kill => exact receiving_reflects isPoint requested force (some .sigkill)
      | hup => exact absurd rfl datagram
  · rename_i place
    have isPoint : s.point = .receiving := reflects.at place rfl
    cases step
    exact fails_reflects (by simp [Step, OwnLoop.step, isPoint]) requested force
  -- inside of a call of `_signal_family`
  · have stands := reflects.stands ‹_›
    cases step
    exact ⟨[], s, .nil s, stands, requested, force⟩
  · rename_i signal parent pending found purpose threads place
    have isPoint : s.point = purpose.loop signal := reflects.at place rfl
    have stands := reflects.stands place
    split at step
    · cases step
      exact ⟨[], s, .nil s, stands, requested, force⟩
    · cases step
      exact ⟨[], s, .nil s, stands, requested, force⟩
    · cases step
      exact raise_reflects purpose isPoint requested force
  · rename_i signal purpose _ place
    have isPoint : s.point = purpose.loop signal := reflects.at place rfl
    cases step
    exact signalled_reflects purpose isPoint requested force
  · rename_i signal pid targets purpose outcome place
    have isPoint : s.point = purpose.loop signal := reflects.at place rfl
    have stands := reflects.stands place
    split at step
    · cases step
      exact ⟨[], s, .nil s, stands, requested, force⟩
    · split at step <;> cases step
      exact ⟨[], s, .nil s, stands, requested, force⟩
    · cases step
      exact ⟨[], s, .nil s, stands, requested, force⟩
    · cases step
      exact raise_reflects purpose isPoint requested force
  -- the cleanup
  · rename_i place
    have isPoint : s.point = .collecting := reflects.at place rfl
    split at step <;> cases step
    exact ⟨[.waited], s, .single (by simp [Step, OwnLoop.step, isPoint]), reflects.point,
      requested, force⟩
  · rename_i place
    have isPoint : s.point = .collecting := reflects.at place rfl
    split at step <;> cases step
    have first : Run Step s [.reap true] (s.endTurn .cleaning) :=
      .single (by simp [Step, OwnLoop.step, isPoint])
    exact ⟨_, _, first.append (run_next rfl), rfl, requested, force⟩
  · rename_i place
    have isPoint : s.point = .collecting := reflects.at place rfl
    split at step <;> cases step
    exact ⟨[.reap false], s.goto .raised, .single (by simp [Step, OwnLoop.step, isPoint]), rfl,
      requested, force⟩
  · exact moves_reflects reflects step

theorem run_reflects
    (run : Run (Guarded Own.Step (fun _ act => act ≠ .receive (some .hup))) o acts other)
    (reflects : Reflects o s) :
    ∃ acts t, Run Step s acts t ∧ Reflects other t := by
  induction run generalizing s with
  | nil => exact ⟨[], s, .nil s, reflects⟩
  | cons head tail ih =>
    obtain ⟨first, middle, run, same⟩ := step_reflects reflects head.1 head.2
    obtain ⟨later, t, rest, last⟩ := ih same
    exact ⟨first ++ later, t, run.append rest, last⟩

end OwnLoop
end LocalFlow
